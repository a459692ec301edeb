import Murmel.Dispatcher.Calls

namespace Murmel.Dispatcher

variable {σ τ : Type}

-- The calls on the header store that move its tip, in order: `add_header` and `unwind_tip`.
def tipCalls (events : List Event) : List Event :=
  events.filter fun
    | .addHeader _ _ => true
    | .unwindTip _ => true
    | _ => false

-- The hashes an `add_header` call asked to unwind.
def unwindsOf : Except SPVError (Option HeaderAdded) → List Sha256dHash
  | .ok (some added) => added.unwinds.getD []
  | _ => []

-- Each `add_header` call followed by an `unwind_tip` call for each hash it asked to unwind.
def unwound (calls : List (BlockHeader × Except SPVError (Option HeaderAdded))) : List Event :=
  calls.flatMap fun c => .addHeader c.1 c.2 :: (unwindsOf c.2).map .unwindTip

-- The tip calls among `events` are the `add_header` calls among them, each with its unwinds.
def Ledgered (events : List Event) : Prop :=
  tipCalls events = unwound (calls events)

@[simp] theorem tipCalls_append (e e' : List Event) : tipCalls (e ++ e') = tipCalls e ++ tipCalls e' :=
  List.filter_append _ _

@[simp] theorem tipCalls_addHeader (header : BlockHeader) (r : Except SPVError (Option HeaderAdded))
    (es : List Event) : tipCalls (.addHeader header r :: es) = .addHeader header r :: tipCalls es := rfl

@[simp] theorem calls_addHeader_cons (header : BlockHeader) (r : Except SPVError (Option HeaderAdded))
    (es : List Event) : calls (.addHeader header r :: es) = (header, r) :: calls es := rfl

theorem calls_eq_nil {E : List Event} (h : tipCalls E = []) : calls E = [] := by
  induction E with
  | nil => rfl
  | cons e E ih =>
    cases e
    case addHeader => cases h
    case unwindTip => cases h
    all_goals exact ih h

namespace Ledgered

variable {es : List Event}

theorem call (h : Ledgered es) (header : BlockHeader) (r : Except SPVError (Option HeaderAdded)) :
    Ledgered (es ++ .addHeader header r :: (unwindsOf r).map .unwindTip) := by
  have hu : tipCalls ((unwindsOf r).map .unwindTip) = (unwindsOf r).map .unwindTip := by
    simp [tipCalls, List.filter_map, Function.comp_def]
  have hc : calls ((unwindsOf r).map .unwindTip) = [] := by
    simp [calls, List.filterMap_map, Event.addHeaderCall, Function.comp_def]
  unfold Ledgered at *
  simp [h, hu, hc, unwound]

theorem quiet (h : Ledgered es) {E : List Event} (hE : tipCalls E = []) : Ledgered (es ++ E) := by
  unfold Ledgered at *
  rw [tipCalls_append, calls_append, hE, calls_eq_nil hE, h]
  simp

end Ledgered

open HeadersLoop

theorem unwindTips_events (db : ChainDB σ) {unwinds : List Sha256dHash} {st st' : HeadersLoop σ}
    (h : unwindTips db unwinds st = (.ok (), st')) : st'.events = st.events ++ unwinds.map .unwindTip := by
  induction unwinds generalizing st with
  | nil => cases h; simp
  | cons hash unwinds ih =>
    simp only [unwindTips] at h
    split at h
    · rw [ih h]
      simp [record]
    · cases h

theorem reorgStep_events (db : ChainDB σ) (unwinds : Option (List Sha256dHash)) (st : HeadersLoop σ) :
    match reorgStep db unwinds st with
    | .next st' | .reorg _ st' => st'.events = st.events ++ (unwinds.getD []).map .unwindTip
    | .ret (.ok _) _ => False
    | .ret (.error _) _ | .panic => True := by
  rcases unwinds with _ | unwinds
  · simp [reorgStep]
  · simp only [reorgStep]
    rcases hu : unwindTips db unwinds st with ⟨_ | ⟨⟩, st'⟩
    · trivial
    · simp only
      rcases unwinds.mapM (db.getHeader st'.chaindb) with _ | stored
      · trivial
      · exact unwindTips_events db hu

theorem addStep_events (db : ChainDB σ) (header : LoneBlockHeader) (st : HeadersLoop σ) :
    match addStep db header st with
    | .next st' | .reorg _ st' =>
      ∃ r, st'.events = st.events ++ .addHeader header.header r :: (unwindsOf r).map .unwindTip
    | .ret (.ok _) st' => ∃ e, st'.events = st.events ++ [.addHeader header.header (.error e)]
    | .ret (.error _) _ | .panic => True := by
  rcases hadd : db.addHeader st.chaindb header.header with ⟨r, chaindb⟩
  rcases r with e | _ | added
  · cases e <;> simp only [addStep, hadd] <;> exact ⟨_, rfl⟩
  · simp only [addStep, hadd]
    exact ⟨.ok none, rfl⟩
  · by_cases hfw : added.forwards = some []
    · simp only [addStep, hadd, hfw, if_true]
    · have h₂ := reorgStep_events db added.unwinds ((st.record chaindb (.addHeader header.header (.ok (some added)))).stored added)
      simp only [addStep, hadd, hfw, if_false]
      generalize reorgStep db added.unwinds _ = s at h₂ ⊢
      cases s with
      | next st' | reorg _ st' => exact ⟨.ok (some added), by simp [h₂, HeadersLoop.stored, record, unwindsOf]⟩
      | ret r => cases r <;> simp_all
      | panic => trivial

theorem flush_tipCalls (db : ChainDB σ) (disconnected : List BlockHeader) (st : HeadersLoop σ) :
    ∃ E, (flush db disconnected st).2.events = st.events ++ E ∧ tipCalls E = [] := by
  simp only [flush]
  split
  · exact ⟨.batch :: disconnected.map .blockDisconnected, by simp [record],
      by simp [tipCalls, List.filter_map, Function.comp_def]⟩
  · exact ⟨[.batch], rfl, rfl⟩

variable (d : Dispatcher σ τ) (peer : PeerId) (w : World σ τ)

-- How a fold answers `Ok`: header after header the inner loop goes on, or a reorg is flushed; then
-- the last batch is flushed (when one is pending) and `finish` answers, or a header is rejected. A
-- property of the loop state that each kind of round keeps carries over to the answer.
theorem fold_induction {P : HeadersLoop σ → Bool → Prop} {Q : Outcome (World σ τ) → Prop}
    (next : ∀ {st st' u} header, addStep d.chaindb header st = .next st' → P st u → P st' true)
    (reorg : ∀ {st u} header ds st', addStep d.chaindb header st = .reorg ds st' → P st u →
      P (flush d.chaindb ds st').2 false)
    (ret : ∀ {st st' r u} header, addStep d.chaindb header st = .ret (.ok r) st' → P st u →
      Q (st'.outcome w (.ok r)))
    (flushed : ∀ {st}, P st true → Q (d.finish peer w (flush d.chaindb [] st).2))
    (finished : ∀ {st}, P st false → Q (d.finish peer w st))
    {q : List LoneBlockHeader} {st : HeadersLoop σ} {u : Bool} {o : Outcome (World σ τ)}
    (h : fold d peer w q st u = some o) (hr : o.result.isOk) (hst : P st u) : Q o := by
  induction q generalizing st u with
  | nil =>
    cases u
    · simp only [fold, Bool.false_eq_true, if_false, Option.some.injEq] at h
      exact h ▸ finished hst
    · have hq := flushed hst
      simp only [fold, if_true] at h
      rcases hf : flush d.chaindb [] st with ⟨_ | ⟨⟩, st'⟩ <;> rw [hf] at h hq <;> cases h
      · simp [outcome] at hr
      · exact hq
  | cons header rest ih =>
    simp only [fold] at h
    rcases hs : addStep d.chaindb header st with st' | ⟨ds, st'⟩ | ⟨_ | r, st'⟩ | _ <;> simp only [hs] at h
    · exact ih h (next header hs hst)
    · have hp := reorg header ds st' hs hst
      rcases hf : flush d.chaindb ds st' with ⟨_ | ⟨⟩, st''⟩ <;> simp only [hf] at h hp
      · cases h
        simp [outcome] at hr
      · exact ih h hp
    · cases h
      simp [outcome] at hr
    · cases h
      exact ret header hs hst
    · cases h

theorem finish_ledgered {st : HeadersLoop σ} (h : Ledgered st.events) : Ledgered (d.finish peer w st).events := by
  rw [finish_events]
  refine h.quiet ?_
  split
  · rw [getHeaders_events]
    split <;> rfl
  · rfl

theorem fold_ledgered {q : List LoneBlockHeader} {st : HeadersLoop σ} {u : Bool} {o : Outcome (World σ τ)}
    (hst : Ledgered st.events) (h : fold d peer w q st u = some o) (hr : o.result.isOk) : Ledgered o.events := by
  refine fold_induction d peer w (P := fun st _ => Ledgered st.events) (Q := fun o => Ledgered o.events)
    (fun header hs hst => ?_) (fun header ds st' hs hst => ?_) (fun header hs hst => ?_) (fun hst => ?_)
    (d.finish_ledgered peer w) h hr hst
  · obtain ⟨r, he⟩ := hs ▸ addStep_events d.chaindb header _
    exact he ▸ hst.call _ r
  · obtain ⟨r, he⟩ := hs ▸ addStep_events d.chaindb header _
    obtain ⟨E, hE, hq⟩ := flush_tipCalls d.chaindb ds st'
    exact hE ▸ (he ▸ hst.call _ r).quiet hq
  · obtain ⟨e, he⟩ := hs ▸ addStep_events d.chaindb header _
    show Ledgered _
    rw [outcome, he]
    exact hst.call _ (.error e)
  · obtain ⟨E, hE, hq⟩ := flush_tipCalls d.chaindb [] _
    exact d.finish_ledgered peer w (hE ▸ hst.quiet hq)

-- Whenever `headers` returns `Ok`, its calls that move the tip are each `add_header` call followed
-- by one `unwind_tip` call per hash of the `unwinds` list it returned, in that list's order: every
-- reorg the store reports is unwound in full before the next header is offered, and nothing else is.
theorem headers_unwinds {headers : List LoneBlockHeader} {o : Outcome (World σ τ)}
    (h : d.headers headers peer w = some o) (hr : o.result.isOk) :
    tipCalls o.events = unwound (calls o.events) := by
  rcases headers with _ | ⟨header, rest⟩
  · simp only [Dispatcher.headers, List.length_nil, gt_iff_lt, Nat.lt_irrefl, if_false, Option.some.injEq] at h
    subst h
    rfl
  · obtain ⟨st, -, hnil, hf⟩ := headers_start d peer w (List.cons_ne_nil _ _) h hr
    exact fold_ledgered d peer w (by rw [Ledgered, hnil]; rfl) hf hr

-- Whether a call on the header store is still waiting for a `batch`.
def batchStep (pending : Bool) : Event → Bool
  | .batch => false
  | .addHeader _ _ => true
  | .unwindTip _ => true
  | _ => pending

-- Some `add_header` or `unwind_tip` call among `events` comes after their last `batch`.
def unbatched (events : List Event) : Bool :=
  events.foldl batchStep false

theorem unbatched_append (es E : List Event) : unbatched (es ++ E) = E.foldl batchStep (unbatched es) :=
  List.foldl_append _ _ _ _

theorem foldl_batchStep_quiet {E : List Event} (hE : tipCalls E = []) (hb : .batch ∉ E) (p : Bool) :
    E.foldl batchStep p = p := by
  induction E with
  | nil => rfl
  | cons e E ih =>
    simp only [List.mem_cons, not_or] at hb
    cases e
    case addHeader => cases hE
    case unwindTip => cases hE
    case batch => exact absurd rfl hb.1
    all_goals exact ih hE hb.2

theorem flush_unbatched (db : ChainDB σ) (disconnected : List BlockHeader) (st : HeadersLoop σ) :
    unbatched (flush db disconnected st).2.events = false := by
  simp only [flush]
  split
  · show unbatched ((st.events ++ [.batch]) ++ disconnected.map .blockDisconnected) = false
    rw [unbatched_append, unbatched_append]
    exact foldl_batchStep_quiet (by simp [tipCalls, List.filter_map, Function.comp_def]) (by simp) _
  · show unbatched (st.events ++ [.batch]) = false
    rw [unbatched_append]
    rfl

theorem finish_unbatched (st : HeadersLoop σ) : unbatched (d.finish peer w st).events = unbatched st.events := by
  rw [finish_events, unbatched_append]
  split
  · rw [getHeaders_events]
    split <;> rfl
  · rfl

theorem finish_batched {st : HeadersLoop σ} {r : ProcessResult} (hb : unbatched st.events = false)
    (hr : (d.finish peer w st).result = .ok r) :
    unbatched (d.finish peer w st).events = true ↔ r = .Ban 100 ∨ r = .Ignored := by
  rw [finish_unbatched, hb, (finish_ok d peer w st hr).1]
  split <;> simp

theorem fold_unbatched {q : List LoneBlockHeader} {st : HeadersLoop σ} {u : Bool} {o : Outcome (World σ τ)}
    {r : ProcessResult} (hst : st.Accounts) (hu : u = false → unbatched st.events = false)
    (h : fold d peer w q st u = some o) (hr : o.result = .ok r) :
    unbatched o.events = true ↔ r = .Ban 100 ∨ r = .Ignored := by
  refine fold_induction d peer w (P := fun st u => st.Accounts ∧ (u = false → unbatched st.events = false))
    (Q := fun o => o.result = .ok r → (unbatched o.events = true ↔ r = .Ban 100 ∨ r = .Ignored))
    (fun header hs hst => ?_) (fun header ds st' hs hst => ?_) (fun header hs hst => ?_)
    (fun _ => d.finish_batched peer w (flush_unbatched d.chaindb [] _))
    (fun hst => d.finish_batched peer w (hst.2 rfl)) h (by rw [hr]; rfl) ⟨hst, hu⟩ hr
  · have h₁ := addStep_spec d.chaindb header hst.1
    rw [hs] at h₁
    exact ⟨h₁.1, nofun⟩
  · have h₁ := addStep_spec d.chaindb header hst.1
    rw [hs] at h₁
    exact ⟨(flush_quiet d.chaindb ds st').accounts h₁.1, fun _ => flush_unbatched d.chaindb ds st'⟩
  · have h₁ := addStep_spec d.chaindb header hst.1
    rw [hs] at h₁
    obtain ⟨e, -, hres, -⟩ := h₁
    obtain ⟨e', he⟩ := hs ▸ addStep_events d.chaindb header _
    intro hr
    simp only [outcome, Except.ok.injEq] at hr
    subst hr hres
    show unbatched _ = true ↔ _
    rw [outcome, he, unbatched_append]
    exact iff_of_true rfl (by split <;> simp)

-- A non-empty message that `headers` answers `Ok` leaves an `add_header` or `unwind_tip` call after
-- the last `batch()` exactly when it answers `Ban(100)` or `Ignored`: the early returns skip the
-- batch of the headers added since the last one, every other answer comes after a `batch()`.
theorem headers_unbatched {headers : List LoneBlockHeader} {o : Outcome (World σ τ)} {r : ProcessResult}
    (hne : headers ≠ []) (h : d.headers headers peer w = some o) (hr : o.result = .ok r) :
    unbatched o.events = true ↔ r = .Ban 100 ∨ r = .Ignored := by
  obtain ⟨st, hst, hnil, hf⟩ := headers_start d peer w hne h (by rw [hr]; rfl)
  exact fold_unbatched d peer w hst (fun _ => by rw [hnil]; rfl) hf hr

open MemStore in
theorem headers_unwinds_reorg :
    (⟨chainDB, configDB, ⟨[(7, ⟨false⟩)], by decide⟩⟩ : Dispatcher MemStore MemStore).headers
      [⟨header 2 5⟩, ⟨header 5 6⟩] 7 ⟨chain, chain⟩ =
      some ⟨.ok (.Height 3), ⟨forked, chain⟩,
        [.addHeader (header 2 5) (.ok (some ⟨⟨header 2 5, 2⟩, none, none⟩)),
          .addHeader (header 5 6) (.ok (some ⟨⟨header 5 6, 3⟩, some [3], some [5, 6]⟩)), .unwindTip 3, .batch,
          .blockDisconnected (header 2 3), .send 7 (.GetHeaders ⟨[6, 5, 2, 1], 6⟩)]⟩ ∧
    tipCalls [.addHeader (header 2 5) (.ok (some ⟨⟨header 2 5, 2⟩, none, none⟩)),
        .addHeader (header 5 6) (.ok (some ⟨⟨header 5 6, 3⟩, some [3], some [5, 6]⟩)), .unwindTip 3, .batch,
        .blockDisconnected (header 2 3), .send 7 (.GetHeaders ⟨[6, 5, 2, 1], 6⟩)] =
      unwound (calls [.addHeader (header 2 5) (.ok (some ⟨⟨header 2 5, 2⟩, none, none⟩)),
        .addHeader (header 5 6) (.ok (some ⟨⟨header 5 6, 3⟩, some [3], some [5, 6]⟩)), .unwindTip 3, .batch,
        .blockDisconnected (header 2 3), .send 7 (.GetHeaders ⟨[6, 5, 2, 1], 6⟩)]) :=
  ⟨headers_forked, headers_unwinds _ _ _ headers_forked rfl⟩

open MemStore in
theorem headers_unbatched_reorg :
    [(⟨header 2 5⟩ : LoneBlockHeader), ⟨header 5 6⟩] ≠ [] ∧
    (⟨chainDB, configDB, ⟨[(7, ⟨false⟩)], by decide⟩⟩ : Dispatcher MemStore MemStore).headers
      [⟨header 2 5⟩, ⟨header 5 6⟩] 7 ⟨chain, chain⟩ =
      some ⟨.ok (.Height 3), ⟨forked, chain⟩,
        [.addHeader (header 2 5) (.ok (some ⟨⟨header 2 5, 2⟩, none, none⟩)),
          .addHeader (header 5 6) (.ok (some ⟨⟨header 5 6, 3⟩, some [3], some [5, 6]⟩)), .unwindTip 3, .batch,
          .blockDisconnected (header 2 3), .send 7 (.GetHeaders ⟨[6, 5, 2, 1], 6⟩)]⟩ ∧
    (unbatched [.addHeader (header 2 5) (.ok (some ⟨⟨header 2 5, 2⟩, none, none⟩)),
        .addHeader (header 5 6) (.ok (some ⟨⟨header 5 6, 3⟩, some [3], some [5, 6]⟩)), .unwindTip 3, .batch,
        .blockDisconnected (header 2 3), .send 7 (.GetHeaders ⟨[6, 5, 2, 1], 6⟩)] = true ↔
      ProcessResult.Height 3 = .Ban 100 ∨ ProcessResult.Height 3 = .Ignored) :=
  ⟨List.cons_ne_nil _ _, headers_forked, headers_unbatched _ _ _ (List.cons_ne_nil _ _) headers_forked rfl⟩

end Murmel.Dispatcher
