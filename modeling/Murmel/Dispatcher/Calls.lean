import Murmel.Dispatcher.Fold
import Murmel.Objects.MemStore

namespace Murmel.Dispatcher

variable {σ τ : Type}

def calls (events : List Event) : List (BlockHeader × Except SPVError (Option HeaderAdded)) :=
  events.filterMap Event.addHeaderCall

-- `add_header` returned a stored header / a `forwards` list.
def stored? : Except SPVError (Option HeaderAdded) → Bool
  | .ok (some _) => true
  | _ => false

def forwarded? : Except SPVError (Option HeaderAdded) → Bool
  | .ok (some added) => added.forwards.isSome
  | _ => false

-- The heights of the headers `add_header` stored, in call order.
def storedHeights (calls : List (BlockHeader × Except SPVError (Option HeaderAdded))) : List UInt32 :=
  calls.filterMap fun
    | (_, .ok (some added)) => some added.stored.height
    | _ => none

@[simp] theorem calls_nil : calls [] = [] := rfl

@[simp] theorem calls_append (e e' : List Event) : calls (e ++ e') = calls e ++ calls e' :=
  List.filterMap_append _ _ _

@[simp] theorem calls_addHeader (header : BlockHeader) (r : Except SPVError (Option HeaderAdded)) :
    calls [.addHeader header r] = [(header, r)] := rfl

namespace HeadersLoop

-- `st`'s flags say what the `add_header` calls in its events returned, none of which failed, and
-- it has sent nothing.
structure Accounts (st : HeadersLoop σ) : Prop where
  ok : ∀ c ∈ calls st.events, c.2.isOk
  someNew : st.someNew = (calls st.events).any (stored? ·.2)
  movedTip : st.movedTip.isSome = (calls st.events).any (forwarded? ·.2)
  height : ∀ h ∈ (storedHeights (calls st.events)).getLast?, st.height = h
  quiet : ∀ e ∈ st.events, e.isSend = false

-- `st'` follows `st` by calls that are neither `add_header` calls nor sends.
structure Quiet (st st' : HeadersLoop σ) : Prop where
  someNew : st'.someNew = st.someNew
  movedTip : st'.movedTip = st.movedTip
  height : st'.height = st.height
  events : ∃ E, st'.events = st.events ++ E ∧ calls E = [] ∧ ∀ e ∈ E, e.isSend = false

theorem Quiet.refl (st : HeadersLoop σ) : Quiet st st :=
  ⟨rfl, rfl, rfl, [], by simp, rfl, by simp⟩

theorem Quiet.trans {st₁ st₂ st₃ : HeadersLoop σ} (h₁ : Quiet st₁ st₂) (h₂ : Quiet st₂ st₃) :
    Quiet st₁ st₃ := by
  obtain ⟨n₁, m₁, h₁, E₁, e₁, c₁, s₁⟩ := h₁
  obtain ⟨n₂, m₂, h₂, E₂, e₂, c₂, s₂⟩ := h₂
  refine ⟨n₂.trans n₁, m₂.trans m₁, h₂.trans h₁, E₁ ++ E₂, by simp [e₁, e₂], by simp [c₁, c₂], ?_⟩
  simp only [List.mem_append]
  rintro e (h | h)
  exacts [s₁ e h, s₂ e h]

theorem Quiet.accounts {st st' : HeadersLoop σ} (h : Quiet st st') (hst : st.Accounts) :
    st'.Accounts := by
  obtain ⟨n, m, ht, E, e, c, s⟩ := h
  refine ⟨?_, ?_, ?_, ?_, ?_⟩ <;> simp only [n, m, ht, e, c, calls_append, List.append_nil]
  · exact hst.ok
  · exact hst.someNew
  · exact hst.movedTip
  · exact hst.height
  · simp only [List.mem_append]
    rintro ev (h | h)
    exacts [hst.quiet ev h, s ev h]

theorem Quiet.calls_eq {st st' : HeadersLoop σ} (h : Quiet st st') :
    calls st'.events = calls st.events := by
  obtain ⟨-, -, -, E, e, c, -⟩ := h
  simp [e, c]

theorem Quiet.record {st : HeadersLoop σ} (chaindb : σ) (h : Sha256dHash) :
    Quiet st (st.record chaindb (.unwindTip h)) :=
  ⟨rfl, rfl, rfl, [.unwindTip h], rfl, rfl, by simp [Event.isSend]⟩

end HeadersLoop

open HeadersLoop

theorem unwindTips_quiet (db : ChainDB σ) (unwinds : List Sha256dHash) (st : HeadersLoop σ) :
    Quiet st (unwindTips db unwinds st).2 := by
  induction unwinds generalizing st with
  | nil => exact Quiet.refl st
  | cons h unwinds ih =>
    simp only [unwindTips]
    split
    · exact (Quiet.record _ h).trans (ih _)
    · exact Quiet.record _ h

theorem flush_quiet (db : ChainDB σ) (disconnected : List BlockHeader) (st : HeadersLoop σ) :
    Quiet st (flush db disconnected st).2 := by
  simp only [flush]
  split
  · refine ⟨rfl, rfl, rfl, .batch :: disconnected.map .blockDisconnected, by simp [record], ?_, ?_⟩
    · simp [calls, List.filterMap_map, Event.addHeaderCall]
    · simp only [List.mem_cons, List.mem_map]
      rintro e (rfl | ⟨h, -, rfl⟩) <;> rfl
  · exact ⟨rfl, rfl, rfl, [.batch], rfl, rfl, by simp [Event.isSend]⟩

namespace HeadersLoop.Accounts

variable {st : HeadersLoop σ} (hst : st.Accounts) (chaindb : σ) (header : BlockHeader)
include hst

theorem known : (st.record chaindb (.addHeader header (.ok none))).Accounts := by
  refine ⟨?_, ?_, ?_, ?_, ?_⟩ <;> simp only [record, calls_append, calls_addHeader, List.any_append,
    List.any_cons, List.any_nil, List.mem_append, List.mem_singleton]
  · rintro c (h | rfl)
    exacts [hst.ok c h, rfl]
  · simp [hst.someNew, stored?]
  · simp [hst.movedTip, forwarded?]
  · simpa [storedHeights] using hst.height
  · rintro ev (h | rfl)
    exacts [hst.quiet ev h, rfl]

theorem stored (added : HeaderAdded) (hfw : added.forwards ≠ some []) :
    ((st.record chaindb (.addHeader header (.ok (some added)))).stored added).Accounts := by
  refine ⟨?_, ?_, ?_, ?_, ?_⟩ <;> simp only [HeadersLoop.stored, record, calls_append, calls_addHeader,
    List.any_append, List.any_cons, List.any_nil, List.mem_append, List.mem_singleton]
  · rintro c (h | rfl)
    exacts [hst.ok c h, rfl]
  · simp [stored?]
  · cases hf : added.forwards with
    | none => simp [hst.movedTip, forwarded?, hf]
    | some fw =>
      have : fw ≠ [] := fun h => hfw (h ▸ hf)
      simp [forwarded?, hf, List.getLast?_eq_getLast fw this]
  · simp [storedHeights]
  · rintro ev (h | rfl)
    exacts [hst.quiet ev h, rfl]

end HeadersLoop.Accounts

theorem reorgStep_spec (db : ChainDB σ) (unwinds : Option (List Sha256dHash)) {st : HeadersLoop σ}
    (hst : st.Accounts) :
    match reorgStep db unwinds st with
    | .next st' | .reorg _ st' => st'.Accounts ∧ calls st'.events = calls st.events
    | .ret (.ok _) _ => False
    | .ret (.error _) _ | .panic => True := by
  rcases unwinds with _ | unwinds
  · exact ⟨hst, rfl⟩
  · have q := unwindTips_quiet db unwinds st
    simp only [reorgStep]
    rcases hq : unwindTips db unwinds st with ⟨_ | _, st'⟩
    · trivial
    · rw [hq] at q
      simp only
      rcases unwinds.mapM (db.getHeader st'.chaindb) with _ | stored
      · trivial
      · exact ⟨q.accounts hst, q.calls_eq⟩

theorem addStep_spec (db : ChainDB σ) (header : LoneBlockHeader) {st : HeadersLoop σ}
    (hst : st.Accounts) :
    match addStep db header st with
    | .next st' | .reorg _ st' =>
      st'.Accounts ∧ ∃ r, r.isOk ∧ calls st'.events = calls st.events ++ [(header.header, r)]
    | .ret (.ok result) st' =>
      ∃ e, calls st'.events = calls st.events ++ [(header.header, .error e)] ∧
        result = (if e = .SpvBadProofOfWork then .Ban 100 else .Ignored) ∧
        ∀ ev ∈ st'.events, ev.isSend = false
    | .ret (.error _) _ | .panic => True := by
  rcases hadd : db.addHeader st.chaindb header.header with ⟨r, chaindb⟩
  have quiet : ∀ r, ∀ ev ∈ (st.record chaindb (.addHeader header.header r)).events,
      ev.isSend = false := by
    intro r ev hev
    simp only [record, List.mem_append, List.mem_singleton] at hev
    rcases hev with h | rfl
    exacts [hst.quiet ev h, rfl]
  rcases r with e | _ | added
  · cases e <;> simp only [addStep, hadd] <;>
      exact ⟨_, by simp only [record, calls_append, calls_addHeader]; rfl, by simp, quiet _⟩
  · simp only [addStep, hadd]
    exact ⟨hst.known chaindb header.header, .ok none, rfl, by simp [record]⟩
  · by_cases hfw : added.forwards = some []
    · simp only [addStep, hadd, hfw, if_true]
    · have h₂ := reorgStep_spec db added.unwinds (hst.stored chaindb header.header added hfw)
      simp only [addStep, hadd, hfw, if_false]
      generalize reorgStep db added.unwinds _ = s at h₂ ⊢
      cases s with
      | next st' | reorg _ st' =>
        exact ⟨h₂.1, .ok (some added), rfl, by simp [h₂.2, HeadersLoop.stored, record]⟩
      | ret r => cases r <;> simp_all
      | panic => trivial

section finish

variable (d : Dispatcher σ τ) (peer : PeerId) (w : World σ τ) (st : HeadersLoop σ)

theorem finish_events : (d.finish peer w st).events =
    st.events ++ if st.someNew then (d.getHeaders peer { w with chaindb := st.chaindb }).2 else [] := by
  unfold finish
  cases st.someNew
  · simp [outcome]
  · simp only [if_true]
    rcases d.getHeaders peer { w with chaindb := st.chaindb } with ⟨_ | _, events⟩ <;> rfl

theorem finish_result : (d.finish peer w st).result =
    if st.someNew ∧ ¬(d.getHeaders peer { w with chaindb := st.chaindb }).1.isOk then
      (d.getHeaders peer { w with chaindb := st.chaindb }).1
    else if st.movedTip.isSome then .ok (.Height st.height) else .ok .Ack := by
  unfold finish
  cases st.someNew
  · simp [outcome]
  · simp only [if_true, true_and]
    rcases d.getHeaders peer { w with chaindb := st.chaindb } with ⟨_ | _, events⟩ <;> rfl

theorem finish_world : (d.finish peer w st).world = { w with chaindb := st.chaindb } := by
  unfold finish
  cases st.someNew
  · rfl
  · simp only [if_true]
    rcases d.getHeaders peer { w with chaindb := st.chaindb } with ⟨_ | _, events⟩ <;> rfl

theorem finish_ok {r : ProcessResult} (hr : (d.finish peer w st).result = .ok r) :
    r = (if st.movedTip.isSome then .Height st.height else .Ack) ∧
    (d.finish peer w st).events = st.events ++
      if st.someNew then (d.getHeaders peer { w with chaindb := st.chaindb }).2 else [] := by
  refine ⟨?_, finish_events d peer w st⟩
  rw [finish_result] at hr
  split at hr
  · rename_i hg
    simp [hr] at hg
  · split at hr <;> (cases hr; simp_all)

theorem finish_calls : calls (d.finish peer w st).events = calls st.events := by
  rw [finish_events, getHeaders_events]
  split <;> (try split) <;> simp [calls, Event.addHeaderCall]

end finish

variable (d : Dispatcher σ τ) (peer : PeerId) (w : World σ τ)

-- A fold over `q` from `st` that returned `o` with `Ok r` made its `add_header` calls `C` on a prefix
-- of `q`, in order, all but the last successful: either it offered all of `q` and ended in `finish`
-- from a state whose flags account for the calls, or the last call failed, deciding `r`, and
-- nothing was sent.
def Consumed (q : List LoneBlockHeader) (st : HeadersLoop σ) (o : Outcome (World σ τ))
    (r : ProcessResult) : Prop :=
  ∃ C, calls o.events = calls st.events ++ C ∧ C.map Prod.fst = (q.take C.length).map (·.header) ∧
    (∀ c ∈ C.dropLast, c.2.isOk) ∧
    ((C.length = q.length ∧ ∃ st', st'.Accounts ∧ calls st'.events = calls st.events ++ C ∧
        o = d.finish peer w st') ∨
      (∃ c e, C.getLast? = some c ∧ c.2 = .error e ∧
        r = (if e = .SpvBadProofOfWork then .Ban 100 else .Ignored) ∧ ∀ ev ∈ o.events, ev.isSend = false))

-- A successful call on `header` followed by a fold over `rest`.
theorem Consumed.cons {header : LoneBlockHeader} {rest : List LoneBlockHeader} {st st' : HeadersLoop σ}
    {o : Outcome (World σ τ)} {r : ProcessResult} {r₀ : Except SPVError (Option HeaderAdded)}
    (hok : r₀.isOk) (hc : calls st'.events = calls st.events ++ [(header.header, r₀)])
    (h : Consumed d peer w rest st' o r) : Consumed d peer w (header :: rest) st o r := by
  obtain ⟨C, e₁, e₂, e₃, e₄⟩ := h
  refine ⟨(header.header, r₀) :: C, by simp [e₁, hc], by simp [e₂], ?_, ?_⟩
  · cases C with
    | nil => simp
    | cons c C =>
      simp only [List.dropLast_cons₂, List.mem_cons]
      rintro c' (rfl | h)
      exacts [hok, e₃ c' h]
  · rcases e₄ with ⟨hl, st'', h₁, h₂, ho⟩ | ⟨c, e, hl, he, hr, hq⟩
    · exact .inl ⟨by simp [hl], st'', h₁, by simp [h₂, hc], ho⟩
    · refine .inr ⟨c, e, ?_, he, hr, hq⟩
      cases C with
      | nil => simp at hl
      | cons c' C => simpa using hl

theorem fold_ok {q : List LoneBlockHeader} {st : HeadersLoop σ} {u : Bool}
    {o : Outcome (World σ τ)} {r : ProcessResult}
    (hst : st.Accounts) (h : fold d peer w q st u = some o) (hr : o.result = .ok r) :
    Consumed d peer w q st o r := by
  induction q generalizing st u with
  | nil =>
    have key : ∃ st', st'.Accounts ∧ calls st'.events = calls st.events ∧ o = d.finish peer w st' := by
      simp only [fold] at h
      split at h
      · have q := flush_quiet d.chaindb [] st
        rcases hf : flush d.chaindb [] st with ⟨_ | _, st'⟩ <;> rw [hf] at h q <;> cases h
        · simp [outcome] at hr
        · exact ⟨st', q.accounts hst, q.calls_eq, rfl⟩
      · cases h
        exact ⟨st, hst, rfl, rfl⟩
    obtain ⟨st', h₁, h₂, rfl⟩ := key
    exact ⟨[], by simp [finish_calls, h₂], rfl, by simp, .inl ⟨rfl, st', h₁, by simp [h₂], rfl⟩⟩
  | cons header rest ih =>
    have hs := addStep_spec d.chaindb header hst
    simp only [fold] at h
    revert hs h
    cases addStep d.chaindb header st with
    | next st' =>
      rintro h ⟨h₁, r₀, hok, hc⟩
      exact (ih h₁ h).cons d peer w hok hc
    | reorg disconnected st' =>
      rintro h ⟨h₁, r₀, hok, hc⟩
      have q := flush_quiet d.chaindb disconnected st'
      rcases hf : flush d.chaindb disconnected st' with ⟨_ | _, st''⟩ <;> simp only [hf] at h q
      · cases h
        simp [outcome] at hr
      · exact (ih (q.accounts h₁) h).cons d peer w hok (q.calls_eq.trans hc)
    | ret result st' =>
      cases result with
      | error e =>
        rintro h -
        cases h
        simp [outcome] at hr
      | ok result =>
        rintro h ⟨e, hc, hres, hq⟩
        cases h
        simp only [outcome, Except.ok.injEq] at hr
        subst hr
        refine ⟨[(header.header, .error e)], by simpa [outcome] using hc, by simp, by simp,
          .inr ⟨_, e, rfl, rfl, hres, hq⟩⟩
    | panic =>
      rintro h -
      cases h

-- From a non-empty message, `headers` runs the fold from the tip, with nothing done yet.
theorem headers_start {headers : List LoneBlockHeader} {o : Outcome (World σ τ)}
    (hne : headers ≠ []) (h : d.headers headers peer w = some o) (hres : o.result.isOk) :
    ∃ st, st.Accounts ∧ st.events = [] ∧ fold d peer w headers st false = some o := by
  rw [Dispatcher.headers, if_pos (List.length_pos.mpr hne)] at h
  split at h
  · exact ⟨_, ⟨by simp, by simp [stored?], by simp [forwarded?], by simp [storedHeights], by simp⟩, rfl,
      outer_eq_fold d peer w _ _ ▸ h⟩
  · cases h
    cases hres

theorem headers_ok_calls {headers : List LoneBlockHeader} {w' : World σ τ} {events : List Event}
    {r : ProcessResult} (hne : headers ≠ [])
    (h : d.headers headers peer w = some ⟨.ok r, w', events⟩) :
    (calls events).map Prod.fst = (headers.take (calls events).length).map (·.header) ∧
    (∀ c ∈ (calls events).dropLast, c.2.isOk) ∧
    ((∀ c ∈ calls events, c.2.isOk) → (calls events).length = headers.length) ∧
    (r = .Ban 100 ↔ ∃ c ∈ (calls events).getLast?, c.2 = .error .SpvBadProofOfWork) ∧
    (r = .Ignored ↔ ∃ c ∈ (calls events).getLast?, ∃ e ≠ .SpvBadProofOfWork, c.2 = .error e) ∧
    ((∀ c ∈ calls events, c.2.isOk) →
      ((∃ height, r = .Height height) ↔ (calls events).any (forwarded? ·.2)) ∧
      (r = .Ack ↔ (calls events).any (forwarded? ·.2) = false)) ∧
    ((∃ m, .send peer (.GetHeaders m) ∈ events) ↔
      (∀ c ∈ calls events, c.2.isOk) ∧ (calls events).any (stored? ·.2) ∧
      d.chaindb.headerLocators w'.chaindb ≠ [] ∧ (d.peers.get peer).isSome) := by
  obtain ⟨st, hst, hnil, hf⟩ := headers_start d peer w hne h rfl
  obtain ⟨C, e₁, e₂, e₃, e₄⟩ := fold_ok d peer w hst hf rfl
  simp only [hnil, calls_nil, List.nil_append] at e₁
  simp only [e₁]
  refine ⟨e₂, e₃, ?_⟩
  rcases e₄ with ⟨hl, st', h₁, h₂, ho⟩ | ⟨c, e, hl, he, hr, hq⟩
  · simp only [hnil, calls_nil, List.nil_append] at h₂
    subst h₂
    obtain ⟨hr, hev⟩ := finish_ok d peer w st' (by rw [← ho])
    have hw := congrArg Outcome.world ho
    rw [← ho] at hev
    rw [finish_world] at hw
    subst hw hev
    rw [h₁.movedTip] at hr
    have hnot : ∀ c ∈ (calls st'.events).getLast?, ∀ e, c.2 ≠ .error e := fun c hc e he => by
      simpa [he] using h₁.ok c (List.mem_of_getLast?_eq_some hc)
    have hq : ∀ m, .send peer (.GetHeaders m) ∉ st'.events := fun m hm => by
      simpa [Event.isSend] using h₁.quiet _ hm
    refine ⟨fun _ => hl, ?_, ?_, fun _ => ?_, ?_⟩
    · refine ⟨fun h => (by subst h; split at hr <;> cases hr), fun ⟨c, hc, he⟩ => absurd he (hnot c hc _)⟩
    · refine ⟨fun h => (by subst h; split at hr <;> cases hr), fun ⟨c, hc, e, _, he⟩ => absurd he (hnot c hc _)⟩
    · rw [hr]
      cases (calls st'.events).any (forwarded? ·.2) <;> simp
    · rw [getHeaders_events, h₁.someNew]
      simp only [List.mem_append, hq, false_or, iff_true_intro h₁.ok, true_and]
      cases (calls st'.events).any (stored? ·.2)
      · simp
      · by_cases h₄ : d.chaindb.headerLocators st'.chaindb ≠ [] ∧ (d.peers.get peer).isSome <;>
          simp [h₄]
  · have hbad : ¬∀ c ∈ C, c.2.isOk := fun h' => by
      simpa [he] using h' c (List.mem_of_getLast?_eq_some hl)
    refine ⟨fun h' => absurd h' hbad, ?_, ?_, fun h' => absurd h' hbad, ?_⟩
    · by_cases hb : e = .SpvBadProofOfWork <;> simp [hl, he, hr, hb]
    · by_cases hb : e = .SpvBadProofOfWork <;> simp [hl, he, hr, hb]
    · simp only [hbad, false_and, iff_false]
      rintro ⟨m, hm⟩
      simpa [Event.isSend] using hq _ hm

-- What `headers` logs for the message [5 (child of 2), 6 (child of 5)] on `chain`: 5 goes on a
-- side branch, 6 makes it the best chain, the store reports 3 to unwind, and after the batch 3 is
-- delivered as disconnected.
open MemStore in
def reorgEvents : List Event :=
  [.addHeader (header 2 5) (.ok (some ⟨⟨header 2 5, 2⟩, none, none⟩)),
    .addHeader (header 5 6) (.ok (some ⟨⟨header 5 6, 3⟩, some [3], some [5, 6]⟩)), .unwindTip 3, .batch,
    .blockDisconnected (header 2 3), .send 7 (.GetHeaders ⟨[6, 5, 2, 1], 6⟩)]

open MemStore in
theorem headers_forked :
    (⟨chainDB, configDB, ⟨[(7, ⟨false⟩)], by decide⟩⟩ : Dispatcher MemStore MemStore).headers
      [⟨header 2 5⟩, ⟨header 5 6⟩] 7 ⟨chain, chain⟩ = some ⟨.ok (.Height 3), ⟨forked, chain⟩, reorgEvents⟩ := by
  simp only [Dispatcher.headers, outer_eq_fold]
  decide

open MemStore in
theorem headers_ok_calls_chain :
    [(⟨header 2 5⟩ : LoneBlockHeader), ⟨header 5 6⟩] ≠ [] ∧
    (⟨chainDB, configDB, ⟨[(7, ⟨false⟩)], by decide⟩⟩ : Dispatcher MemStore MemStore).headers
      [⟨header 2 5⟩, ⟨header 5 6⟩] 7 ⟨chain, chain⟩ = some ⟨.ok (.Height 3), ⟨forked, chain⟩, reorgEvents⟩ ∧
    (calls reorgEvents).map Prod.fst =
      ([(⟨header 2 5⟩ : LoneBlockHeader), ⟨header 5 6⟩].take (calls reorgEvents).length).map (·.header) ∧
    (∀ c ∈ (calls reorgEvents).dropLast, c.2.isOk) ∧
    ((∀ c ∈ calls reorgEvents, c.2.isOk) → (calls reorgEvents).length = 2) ∧
    (ProcessResult.Height 3 = .Ban 100 ↔ ∃ c ∈ (calls reorgEvents).getLast?, c.2 = .error .SpvBadProofOfWork) ∧
    (ProcessResult.Height 3 = .Ignored ↔
      ∃ c ∈ (calls reorgEvents).getLast?, ∃ e ≠ .SpvBadProofOfWork, c.2 = .error e) ∧
    ((∀ c ∈ calls reorgEvents, c.2.isOk) →
      ((∃ height, ProcessResult.Height 3 = .Height height) ↔ (calls reorgEvents).any (forwarded? ·.2)) ∧
      (ProcessResult.Height 3 = .Ack ↔ (calls reorgEvents).any (forwarded? ·.2) = false)) ∧
    ((∃ m, .send 7 (.GetHeaders m) ∈ reorgEvents) ↔
      (∀ c ∈ calls reorgEvents, c.2.isOk) ∧ (calls reorgEvents).any (stored? ·.2) ∧
      chainDB.headerLocators forked ≠ [] ∧ ((⟨[(7, ⟨false⟩)], by decide⟩ : PeerMap).get 7).isSome) :=
  ⟨List.cons_ne_nil _ _, headers_forked, headers_ok_calls _ _ _ (List.cons_ne_nil _ _) headers_forked⟩

-- A peer that has left the table is skipped by `send`, so nothing asks it for more headers.
open MemStore in
theorem headers_ok_unknown_peer :
    (⟨chainDB, configDB, PeerMap.empty⟩ : Dispatcher MemStore MemStore).headers
      [⟨header 3 4⟩] 7 ⟨chain, chain⟩ =
      some ⟨.ok (.Height 3), ⟨{ chain with headers := chain.headers ++ [(4, ⟨header 3 4, 3⟩)], tip := 4 }, chain⟩,
        [.addHeader (header 3 4) (.ok (some ⟨⟨header 3 4, 3⟩, none, some [4]⟩)), .batch]⟩ ∧
    chainDB.headerLocators { chain with headers := chain.headers ++ [(4, ⟨header 3 4, 3⟩)], tip := 4 } ≠ [] := by
  simp only [Dispatcher.headers, outer_eq_fold]
  decide

theorem storedHeights_ne_nil {C : List (BlockHeader × Except SPVError (Option HeaderAdded))}
    (h : C.any (forwarded? ·.2)) : storedHeights C ≠ [] := by
  obtain ⟨⟨header, r⟩, hc, hf⟩ := List.any_eq_true.mp h
  rcases r with _ | _ | added
  · cases hf
  · cases hf
  · exact List.ne_nil_of_mem (List.mem_filterMap.mpr ⟨_, hc, rfl⟩)

-- `Height` reports the height of the last header `add_header` stored, on the best chain or not.
theorem headers_height {headers : List LoneBlockHeader} {w' : World σ τ} {events : List Event} {h : UInt32}
    (hne : headers ≠ []) (hrun : d.headers headers peer w = some ⟨.ok (.Height h), w', events⟩) :
    (storedHeights (calls events)).getLast? = some h := by
  obtain ⟨st, hst, hnil, hf⟩ := headers_start d peer w hne hrun rfl
  obtain ⟨C, e₁, -, -, ⟨-, st', h₁, h₂, ho⟩ | ⟨c, e, -, -, hr, -⟩⟩ := fold_ok d peer w hst hf rfl
  · obtain ⟨hr, -⟩ := finish_ok d peer w st' (by rw [← ho])
    simp only [hnil, calls_nil, List.nil_append] at e₁ h₂
    split at hr
    · rename_i hm
      rw [h₁.movedTip] at hm
      obtain ⟨x, hx⟩ := Option.isSome_iff_exists.mp (List.getLast?_isSome.mpr (storedHeights_ne_nil hm))
      cases hr
      rw [e₁, ← h₂, hx, h₁.height x hx]
    · cases hr
  · split at hr <;> cases hr

-- A header filed off the best chain still sets `height`, which is what `Height` reports: for
-- every message and store the answer is the height of the last header stored, and here that header
-- is not the tip.
open MemStore in
theorem headers_height_side_branch :
    (∀ {σ τ : Type} (d : Dispatcher σ τ) (headers : List LoneBlockHeader) (peer : PeerId) (w w' : World σ τ)
      (events : List Event) (h : UInt32), headers ≠ [] →
        d.headers headers peer w = some ⟨.ok (.Height h), w', events⟩ →
        (storedHeights (calls events)).getLast? = some h) ∧
    (⟨chainDB, configDB, ⟨[(7, ⟨false⟩)], by decide⟩⟩ : Dispatcher MemStore MemStore).headers
      [⟨header 3 4⟩, ⟨header 1 5⟩] 7 ⟨chain, chain⟩ =
      some ⟨.ok (.Height 1),
        ⟨{ chain with headers := chain.headers ++ [(4, ⟨header 3 4, 3⟩), (5, ⟨header 1 5, 1⟩)], tip := 4 }, chain⟩,
        [.addHeader (header 3 4) (.ok (some ⟨⟨header 3 4, 3⟩, none, some [4]⟩)),
          .addHeader (header 1 5) (.ok (some ⟨⟨header 1 5, 1⟩, none, none⟩)), .batch,
          .send 7 (.GetHeaders ⟨[4, 3, 2, 1], 4⟩)]⟩ ∧
    chainDB.tip { chain with headers := chain.headers ++ [(4, ⟨header 3 4, 3⟩), (5, ⟨header 1 5, 1⟩)], tip := 4 } =
      some ⟨header 3 4, 3⟩ := by
  refine ⟨fun d _ peer w _ _ _ hne hrun => headers_height d peer w hne hrun, ?_⟩
  simp only [Dispatcher.headers, outer_eq_fold]
  decide

end Murmel.Dispatcher