import Murmel.Dispatcher.Ledger

namespace Murmel.Dispatcher

variable {σ τ : Type}

/-- What §4.4.1 asks of the headers a reorg takes off the best chain, kept beside a replay of the
header store: the hashes a successful `add_header` returns to unwind are pending until the next
`batch()`; if it succeeds they are delivered right after it, each as `get_header` reads it on the
store being committed and in the order they were returned, and in any case none is pending after
it. `clean` says that no `add_header` came while some were pending. -/
structure Notices (σ : Type) where
  store : σ
  pending : List Sha256dHash
  log : List Event
  clean : Bool

-- The replay takes `add_header`'s and `batch`'s answers from the store itself and writes the
-- notifications in; it passes every other call through and drops notifications already written.
def noticeStep (db : ChainDB σ) (n : Notices σ) : Event → Option (Notices σ)
  | .addHeader header _ =>
    let (r, store) := db.addHeader n.store header
    some ⟨store, n.pending ++ unwindsOf r, n.log ++ [.addHeader header r], n.clean && n.pending.isEmpty⟩
  | .unwindTip hash => some { n with store := (db.unwindTip n.store hash).2, log := n.log ++ [.unwindTip hash] }
  | .batch =>
    match db.batch n.store with
    | (.ok (), store) =>
      (n.pending.mapM (db.getHeader n.store)).map fun stored =>
        { n with store, pending := [], log := n.log ++ .batch :: stored.map fun s => .blockDisconnected s.header }
    | (.error _, store) => some { n with store, pending := [], log := n.log ++ [.batch] }
  | .blockDisconnected _ => some n
  | e => some { n with log := n.log ++ [e] }

theorem noticeStep_addHeader (db : ChainDB σ) (n : Notices σ) (header : BlockHeader)
    (r : Except SPVError (Option HeaderAdded)) :
    noticeStep db n (.addHeader header r) =
      some ⟨(db.addHeader n.store header).2, n.pending ++ unwindsOf (db.addHeader n.store header).1,
        n.log ++ [.addHeader header (db.addHeader n.store header).1], n.clean && n.pending.isEmpty⟩ := rfl

section batch

variable (db : ChainDB σ) (n : Notices σ) {store : σ}

theorem noticeStep_batch_ok (hb : db.batch n.store = (.ok (), store)) :
    noticeStep db n .batch = (n.pending.mapM (db.getHeader n.store)).map fun stored =>
      { n with store, pending := [], log := n.log ++ .batch :: stored.map fun s => .blockDisconnected s.header } := by
  delta noticeStep
  dsimp only
  rw [hb]

theorem noticeStep_batch_error {e : SPVError} (hb : db.batch n.store = (.error e, store)) :
    noticeStep db n .batch = some { n with store, pending := [], log := n.log ++ [.batch] } := by
  delta noticeStep
  dsimp only
  rw [hb]

end batch

def noticed (db : ChainDB σ) (s : σ) (events : List Event) : Option (Notices σ) :=
  events.foldlM (noticeStep db) ⟨s, [], [], true⟩

-- Replayed from the store `s`, `events` leave the store `store` and `pending` to notify, make the
-- notifications due and no others, and no `add_header` among them came while some were pending.
def Noted (db : ChainDB σ) (s store : σ) (events : List Event) (pending : List Sha256dHash) : Prop :=
  noticed db s events = some ⟨store, pending, events, true⟩

theorem noticed_append (db : ChainDB σ) (s : σ) (es E : List Event) :
    noticed db s (es ++ E) = (noticed db s es).bind fun n => E.foldlM (noticeStep db) n :=
  List.foldlM_append _ _ _ _

theorem foldlM_noticeStep_disconnected (db : ChainDB σ) (n : Notices σ) (headers : List BlockHeader) :
    (headers.map .blockDisconnected).foldlM (noticeStep db) n = some n := by
  induction headers with
  | nil => rfl
  | cons header headers ih => exact ih

namespace Noted

variable {db : ChainDB σ} {s store : σ} {es : List Event} {p : List Sha256dHash}

theorem append (h : Noted db s store es p) {E : List Event} {store' : σ} {p' : List Sha256dHash}
    (hE : E.foldlM (noticeStep db) ⟨store, p, es, true⟩ = some ⟨store', p', es ++ E, true⟩) :
    Noted db s store' (es ++ E) p' := by
  rw [Noted, noticed_append, h]
  exact hE

end Noted

open HeadersLoop

variable {db : ChainDB σ} {s : σ} {st : HeadersLoop σ}

theorem unwindTips_noted {p : List Sha256dHash} (h : Noted db s st.chaindb st.events p)
    (unwinds : List Sha256dHash) :
    Noted db s (unwindTips db unwinds st).2.chaindb (unwindTips db unwinds st).2.events p := by
  induction unwinds generalizing st with
  | nil => exact h
  | cons hash unwinds ih =>
    have h' : Noted db s (db.unwindTip st.chaindb hash).2 (st.events ++ [.unwindTip hash]) p := h.append rfl
    rcases hu : db.unwindTip st.chaindb hash with ⟨_ | _, chaindb⟩ <;> rw [hu] at h' <;>
      simp only [unwindTips, hu]
    · exact h'
    · exact ih h'

-- What a round of the inner loop leaves to the replay: nothing pending when the loop goes on, what
-- `get_header` reads of the pending hashes at a reorg, and nothing pending when it answers `Ok`.
def Step.Replayed (db : ChainDB σ) (s : σ) : Step σ → Prop
  | .next st' => Noted db s st'.chaindb st'.events []
  | .reorg ds st' => ∃ p stored, Noted db s st'.chaindb st'.events p ∧
      p.mapM (db.getHeader st'.chaindb) = some stored ∧ ds = stored.map (·.header)
  | .ret r st' => ∃ p, Noted db s st'.chaindb st'.events p ∧ (r.isOk → p = [])
  | .panic => True

-- A reorg hands on the unwound headers `get_header` reads once every `unwind_tip` call is made.
theorem reorgStep_noted (st : HeadersLoop σ) {unwinds : Option (List Sha256dHash)}
    (h : Noted db s st.chaindb st.events (unwinds.getD [])) : (reorgStep db unwinds st).Replayed db s := by
  rcases unwinds with _ | unwinds
  · exact h
  · have hu := unwindTips_noted h unwinds
    simp only [reorgStep]
    rcases hq : unwindTips db unwinds st with ⟨_ | ⟨⟩, st'⟩ <;> rw [hq] at hu
    · exact ⟨_, hu, nofun⟩
    · simp only
      rcases hm : unwinds.mapM (db.getHeader st'.chaindb) with _ | stored
      · trivial
      · exact ⟨_, stored, hu, hm, rfl⟩

theorem addStep_noted (header : LoneBlockHeader) (h : Noted db s st.chaindb st.events []) :
    (addStep db header st).Replayed db s := by
  rcases hadd : db.addHeader st.chaindb header.header with ⟨r, chaindb⟩
  have ha : Noted db s chaindb (st.events ++ [.addHeader header.header r]) (unwindsOf r) :=
    h.append (by rw [List.foldlM_cons, noticeStep_addHeader, hadd]; rfl)
  rcases r with e | _ | added
  · cases e <;> simp only [addStep, hadd] <;> exact ⟨[], ha, fun _ => rfl⟩
  · simp only [addStep, hadd]
    exact ha
  · by_cases hfw : added.forwards = some []
    · simp only [addStep, hadd, hfw, if_true]
      trivial
    · simp only [addStep, hadd, hfw, if_false]
      exact reorgStep_noted ((st.record chaindb (.addHeader header.header (.ok (some added)))).stored added) ha

theorem flush_noted {p : List Sha256dHash} (h : Noted db s st.chaindb st.events p) {stored : List StoredHeader}
    (hs : p.mapM (db.getHeader st.chaindb) = some stored) :
    Noted db s (flush db (stored.map (·.header)) st).2.chaindb (flush db (stored.map (·.header)) st).2.events [] := by
  unfold flush
  split
  rename_i r chaindb hb
  rcases r with e | ⟨⟩
  · show Noted db s chaindb (st.events ++ [.batch]) []
    exact h.append (by rw [List.foldlM_cons, noticeStep_batch_error db _ hb]; rfl)
  · show Noted db s chaindb (st.events ++ [.batch] ++ (stored.map (·.header)).map .blockDisconnected) []
    rw [List.append_assoc, List.singleton_append]
    refine h.append ?_
    rw [List.foldlM_cons, noticeStep_batch_ok db _ hb, hs]
    exact (foldlM_noticeStep_disconnected db _ _).trans (by rw [List.map_map]; rfl)

variable (d : Dispatcher σ τ) (peer : PeerId) (w : World σ τ)

theorem finish_noted (h : Noted d.chaindb s st.chaindb st.events []) :
    Noted d.chaindb s (d.finish peer w st).world.chaindb (d.finish peer w st).events [] := by
  rw [finish_world, finish_events, getHeaders_events]
  split
  · split
    · exact h.append rfl
    · simpa using h
  · simpa using h

theorem fold_noted {q : List LoneBlockHeader} {st : HeadersLoop σ} {u : Bool} {o : Outcome (World σ τ)}
    (h : fold d peer w q st u = some o) (hst : Noted d.chaindb s st.chaindb st.events []) :
    ∃ p, Noted d.chaindb s o.world.chaindb o.events p ∧ (o.result.isOk → p = []) := by
  induction q generalizing st u with
  | nil =>
    simp only [fold] at h
    split at h
    · have hf := flush_noted hst (show ([] : List Sha256dHash).mapM _ = some [] from rfl)
      rcases hfl : flush d.chaindb [] st with ⟨_ | ⟨⟩, st'⟩ <;> simp only [hfl, List.map_nil] at h hf <;> cases h
      · exact ⟨[], hf, fun _ => rfl⟩
      · exact ⟨[], d.finish_noted peer w hf, fun _ => rfl⟩
    · cases h
      exact ⟨[], d.finish_noted peer w hst, fun _ => rfl⟩
  | cons header rest ih =>
    have ha := addStep_noted header hst
    simp only [fold] at h
    revert ha h
    cases addStep d.chaindb header st with
    | next st' => exact fun h ha => ih h ha
    | reorg ds st' =>
      rintro h ⟨p, stored, ha, hm, rfl⟩
      have hf := flush_noted ha hm
      rcases hfl : flush d.chaindb (stored.map (·.header)) st' with ⟨_ | ⟨⟩, st''⟩ <;> simp only [hfl] at h hf
      · cases h
        exact ⟨[], hf, fun _ => rfl⟩
      · exact ih h hf
    | ret r st' =>
      intro h ha
      cases h
      exact ha
    | panic => exact fun h => nomatch h

/-- Whatever `headers` returns when it does not panic, its log is the one §4.4.1 prescribes given
its calls on the header store: replaying those calls from the store it started on gives back the
store it leaves and every call it logged, with the unwound headers of each reorg delivered, in
`get_header`'s reading, right after the `batch()` that follows when it succeeds, and nowhere else;
no `add_header` call comes while unwound headers are pending, and none is pending when it answers
`Ok`. -/
theorem headers_notices {headers : List LoneBlockHeader} {o : Outcome (World σ τ)}
    (h : d.headers headers peer w = some o) :
    ∃ pending, noticed d.chaindb w.chaindb o.events =
        some { store := o.world.chaindb, pending, log := o.events, clean := true } ∧
      (o.result.isOk → pending = []) := by
  unfold Dispatcher.headers at h
  repeat' split at h
  all_goals first
    | exact d.fold_noted peer w ((outer_eq_fold d peer w _ _).symm.trans h) rfl
    | cases h; exact ⟨[], rfl, fun _ => rfl⟩

open MemStore in
theorem headers_notices_reorg :
    (⟨chainDB, configDB, ⟨[(7, ⟨false⟩)], by decide⟩⟩ : Dispatcher MemStore MemStore).headers
      [⟨header 2 5⟩, ⟨header 5 6⟩] 7 ⟨chain, chain⟩ = some ⟨.ok (.Height 3), ⟨forked, chain⟩, reorgEvents⟩ ∧
    ∃ pending, noticed chainDB chain reorgEvents =
        some { store := forked, pending, log := reorgEvents, clean := true } ∧
      ((Except.ok (.Height 3) : Except SPVError ProcessResult).isOk → pending = []) :=
  ⟨headers_forked, headers_notices _ _ _ headers_forked⟩

end Murmel.Dispatcher
