import Murmel.Dispatcher.Calls
import Murmel.Dispatcher.Inv
import Murmel.Node.Headers

namespace Murmel.Dispatcher

variable {σ τ : Type} (d : Dispatcher σ τ)

-- The calls P2P makes on a dispatcher, the same as on a node; `now` is the clock `addr` reads.
def handle (now : UInt32) : Node.Input → World σ τ → Option (Outcome (World σ τ))
  | .connected pid, w => some (d.connected pid w)
  | .disconnected pid, w => some (d.disconnected pid w)
  | .process msg peer, w => d.process msg peer now w

-- A run of the dispatcher: handler calls one after another, each on the world the last one left,
-- every call with its own clock; each step keeps the input and the calls made.
inductive Run : World σ τ → List (Node.Input × List Event) → World σ τ → Prop
  | nil (w : World σ τ) : Run w [] w
  | cons {w w' : World σ τ} {now : UInt32} {i : Node.Input} {o : Outcome (World σ τ)}
      {steps : List (Node.Input × List Event)} (h : d.handle now i w = some o)
      (rest : Run o.world steps w') : Run w ((i, o.events) :: steps) w'

variable (peer : PeerId) (w : World σ τ)

theorem fold_configdb {q : List LoneBlockHeader} {st : HeadersLoop σ} {u : Bool} {o : Outcome (World σ τ)}
    (h : fold d peer w q st u = some o) : o.world.configdb = w.configdb := by
  induction q generalizing st u with
  | nil =>
    unfold fold at h
    repeat' split at h
    all_goals cases h
    all_goals first | rfl | rw [finish_world]
  | cons header q ih =>
    unfold fold at h
    split at h
    · exact ih h
    · split at h
      · exact ih h
      · cases h; rfl
    · cases h; rfl
    · cases h

theorem headers_configdb {headers : List LoneBlockHeader} {o : Outcome (World σ τ)}
    (h : d.headers headers peer w = some o) : o.world.configdb = w.configdb := by
  unfold Dispatcher.headers at h
  repeat' split at h
  all_goals first
    | exact d.fold_configdb peer w ((outer_eq_fold d peer w _ _).symm.trans h)
    | cases h; rfl

theorem handle_configdb {now : UInt32} {i : Node.Input} {o : Outcome (World σ τ)}
    (h : d.handle now i w = some o) :
    o.world.configdb = w.configdb ∨ ∃ v r, d.configdb.addr v now w.configdb = .ok (r, o.world.configdb) := by
  unfold handle at h
  split at h
  · cases h; exact .inl (by unfold connected; dsimp only; split <;> rfl)
  · cases h; exact .inl rfl
  · unfold process at h
    split at h
    · cases h; exact .inl rfl
    · exact .inl (d.headers_configdb _ w h)
    · cases h; exact .inl rfl
    · cases h; exact .inl (by rw [inv_eq]; split <;> [split <;> rfl; rfl])
    · cases h
      unfold addr
      split
      · exact .inr ⟨_, _, ‹_›⟩
      · exact .inl rfl
    · cases h; exact .inl rfl

theorem inv_world (v : List Inventory) : (d.inv v peer w).world = w := by
  rw [inv_eq]
  split
  · split <;> rfl
  · rfl

theorem handle_stores {now : UInt32} {i : Node.Input} {o : Outcome (World σ τ)} (h : d.handle now i w = some o) :
    (i.isHeaders = false → o.world.chaindb = w.chaindb) ∧ (i.isAddr = false → o.world.configdb = w.configdb) := by
  have unchanged : o.world = w → (i.isHeaders = false → o.world.chaindb = w.chaindb) ∧
      (i.isAddr = false → o.world.configdb = w.configdb) := fun hw => ⟨fun _ => hw ▸ rfl, fun _ => hw ▸ rfl⟩
  unfold handle at h
  split at h
  · cases h
    exact unchanged (by unfold connected; dsimp only; split <;> rfl)
  · cases h
    exact unchanged rfl
  · unfold process at h
    split at h
    · cases h
      exact unchanged rfl
    · exact ⟨nofun, fun _ => d.headers_configdb _ w h⟩
    · cases h
      exact unchanged rfl
    · cases h
      exact unchanged (d.inv_world _ w _)
    · cases h
      refine ⟨fun _ => ?_, nofun⟩
      unfold addr
      split <;> rfl
    · cases h
      exact unchanged rfl

-- Over any run of the dispatcher, the header store changes only at `Headers` messages and the
-- address store only at `Addr` messages: each store has a single writer.
theorem Run.stores {w w' : World σ τ} {steps : List (Node.Input × List Event)} (h : d.Run w steps w') :
    ((∀ s ∈ steps, s.1.isHeaders = false) → w'.chaindb = w.chaindb) ∧
    ((∀ s ∈ steps, s.1.isAddr = false) → w'.configdb = w.configdb) := by
  induction h with
  | nil => exact ⟨fun _ => rfl, fun _ => rfl⟩
  | cons hstep _ ih =>
    obtain ⟨hc, ha⟩ := d.handle_stores _ hstep
    simp only [List.forall_mem_cons]
    exact ⟨fun hs => (ih.1 hs.2).trans (hc hs.1), fun hs => (ih.2 hs.2).trans (ha hs.1)⟩

-- An announcement of an unknown block makes the dispatcher ask for headers and write nothing.
open MemStore in
theorem stores_inv :
    (⟨chainDB, configDB, ⟨[(7, ⟨false⟩)], by decide⟩⟩ : Dispatcher MemStore MemStore).Run ⟨chain, chain⟩
      [(.process (.Inv [⟨.Block, 9⟩]) 7, [.send 7 (.GetHeaders ⟨[3, 2, 1], 3⟩)])] ⟨chain, chain⟩ ∧
    ((∀ s ∈ [((.process (.Inv [⟨.Block, 9⟩]) 7 : Node.Input), ([.send 7 (.GetHeaders ⟨[3, 2, 1], 3⟩)] : List Event))],
        s.1.isHeaders = false) → chain = chain) ∧
    ((∀ s ∈ [((.process (.Inv [⟨.Block, 9⟩]) 7 : Node.Input), ([.send 7 (.GetHeaders ⟨[3, 2, 1], 3⟩)] : List Event))],
        s.1.isAddr = false) → chain = chain) := by
  refine (fun hrun => ⟨hrun, Run.stores _ hrun⟩) ?_
  exact @Run.cons _ _ _ _ _ 0 _ ⟨.ok .Ack, ⟨chain, chain⟩, [.send 7 (.GetHeaders ⟨[3, 2, 1], 3⟩)]⟩ _ (by decide) (.nil _)

theorem HeadersLoop.Quiet.sendsOnlyTo {st st' : HeadersLoop σ} (h : st.Quiet st') {p : PeerId} (hs : SendsOnlyTo p st.events) :
    SendsOnlyTo p st'.events := by
  obtain ⟨E, he, -, hq⟩ := h.events
  exact he ▸ hs.append (.of_quiet hq)

theorem reorgStep_sendsOnlyTo (db : ChainDB σ) (unwinds : Option (List Sha256dHash)) {st : HeadersLoop σ}
    {p : PeerId} (hs : SendsOnlyTo p st.events) :
    match reorgStep db unwinds st with
    | .next st' | .reorg _ st' | .ret _ st' => SendsOnlyTo p st'.events
    | .panic => True := by
  rcases unwinds with _ | unwinds
  · exact hs
  · have hq := (unwindTips_quiet db unwinds st).sendsOnlyTo hs
    simp only [reorgStep]
    rcases hu : unwindTips db unwinds st with ⟨_ | ⟨⟩, st'⟩ <;> rw [hu] at hq
    · exact hq
    · simp only
      rcases unwinds.mapM (db.getHeader st'.chaindb) with _ | stored
      · trivial
      · exact hq

theorem addStep_sendsOnlyTo (db : ChainDB σ) (header : LoneBlockHeader) {st : HeadersLoop σ} {p : PeerId}
    (hs : SendsOnlyTo p st.events) :
    match addStep db header st with
    | .next st' | .reorg _ st' | .ret _ st' => SendsOnlyTo p st'.events
    | .panic => True := by
  rcases hadd : db.addHeader st.chaindb header.header with ⟨r, chaindb⟩
  have hr : SendsOnlyTo p (st.record chaindb (.addHeader header.header r)).events :=
    hs.append (.of_quiet (by simp [Event.isSend]))
  rcases r with e | _ | added
  · cases e <;> simp only [addStep, hadd] <;> exact hr
  · simp only [addStep, hadd]
    exact hr
  · by_cases hfw : added.forwards = some []
    · simp only [addStep, hadd, hfw, if_true]
    · have hr' : SendsOnlyTo p ((st.record chaindb (.addHeader header.header (.ok (some added)))).stored added).events := hr
      simp only [addStep, hadd, hfw, if_false]
      exact reorgStep_sendsOnlyTo db added.unwinds hr'

theorem getHeaders_sendsOnlyTo : SendsOnlyTo peer (d.getHeaders peer w).2 := by
  rw [getHeaders_events]
  split <;> simp [SendsOnlyTo]

theorem fold_sendsOnlyTo {q : List LoneBlockHeader} {st : HeadersLoop σ} {u : Bool} {o : Outcome (World σ τ)}
    (hs : SendsOnlyTo peer st.events) (h : fold d peer w q st u = some o) : SendsOnlyTo peer o.events := by
  have finish : ∀ {st : HeadersLoop σ}, SendsOnlyTo peer st.events → SendsOnlyTo peer (d.finish peer w st).events :=
    fun hs => by
      rw [finish_events]
      exact hs.append (by split; exacts [d.getHeaders_sendsOnlyTo peer _, .nil _])
  induction q generalizing st u with
  | nil =>
    have hq := (flush_quiet d.chaindb [] st).sendsOnlyTo hs
    simp only [fold] at h
    split at h
    · rcases hf : flush d.chaindb [] st with ⟨_ | ⟨⟩, st'⟩ <;> rw [hf] at h hq <;> cases h
      · exact hq
      · exact finish hq
    · cases h
      exact finish hs
  | cons header rest ih =>
    have ha := addStep_sendsOnlyTo d.chaindb header hs
    simp only [fold] at h
    revert ha h
    cases addStep d.chaindb header st with
    | next st' => exact fun h ha => ih ha h
    | reorg ds st' =>
      intro h ha
      have hq := (flush_quiet d.chaindb ds st').sendsOnlyTo ha
      rcases hf : flush d.chaindb ds st' with ⟨_ | ⟨⟩, st''⟩ <;> simp only [hf] at h hq
      · cases h
        exact hq
      · exact ih hq h
    | ret r st' =>
      intro h ha
      cases h
      exact ha
    | panic => exact fun h => nomatch h

theorem headers_sendsOnlyTo {headers : List LoneBlockHeader} {o : Outcome (World σ τ)}
    (h : d.headers headers peer w = some o) : SendsOnlyTo peer o.events := by
  unfold Dispatcher.headers at h
  repeat' split at h
  all_goals first
    | exact d.fold_sendsOnlyTo peer w (.nil _) ((outer_eq_fold d peer w _ _).symm.trans h)
    | cases h; exact .nil _

theorem handle_sendsOnlyTo {now : UInt32} {i : Node.Input} {o : Outcome (World σ τ)} (h : d.handle now i w = some o) :
    SendsOnlyTo i.peer o.events := by
  unfold handle at h
  split at h
  · cases h
    unfold connected
    dsimp only
    split <;> exact d.getHeaders_sendsOnlyTo _ w
  · cases h; exact .nil _
  · unfold process at h
    split at h
    · cases h; exact d.peers.send_sendsOnlyTo _ _
    · exact d.headers_sendsOnlyTo _ w h
    · cases h; exact .nil _
    · cases h
      rw [inv_eq]
      split
      · split
        · exact d.getHeaders_sendsOnlyTo _ w
        · exact .nil _
      · exact .nil _
    · cases h
      unfold addr
      split <;> exact .nil _
    · cases h; exact .nil _

-- Over any run of the dispatcher, every message it sends goes to the peer whose connection or
-- message it is handling: it answers the peer that spoke, and never relays to another.
theorem Run.replies_only_to_sender {w w' : World σ τ} {steps : List (Node.Input × List Event)} (h : d.Run w steps w') :
    ∀ s ∈ steps, SendsOnlyTo s.1.peer s.2 := by
  induction h with
  | nil => exact List.forall_mem_nil _
  | cons hstep _ ih =>
    rw [List.forall_mem_cons]
    exact ⟨d.handle_sendsOnlyTo _ hstep, ih⟩

-- Two peers speak in turn: each answer goes back to the peer that spoke.
open MemStore in
theorem replies_only_to_sender_two_peers :
    (⟨chainDB, configDB, ⟨[(7, ⟨false⟩), (8, ⟨false⟩)], by decide⟩⟩ : Dispatcher MemStore MemStore).Run ⟨chain, chain⟩
      [(.process (.Ping 5) 8, [.send 8 (.Pong 5)]),
        (.process (.Inv [⟨.Block, 9⟩]) 7, [.send 7 (.GetHeaders ⟨[3, 2, 1], 3⟩)])] ⟨chain, chain⟩ ∧
    ∀ s ∈ ([(.process (.Ping 5) 8, [.send 8 (.Pong 5)]),
        (.process (.Inv [⟨.Block, 9⟩]) 7, [.send 7 (.GetHeaders ⟨[3, 2, 1], 3⟩)])] : List (Node.Input × List Event)),
      SendsOnlyTo s.1.peer s.2 := by
  refine (fun hrun => ⟨hrun, Run.replies_only_to_sender _ hrun⟩) ?_
  exact @Run.cons _ _ _ _ _ 0 _ ⟨.ok .Ack, ⟨chain, chain⟩, [.send 8 (.Pong 5)]⟩ _ (by decide)
    (@Run.cons _ _ _ _ _ 0 _ ⟨.ok .Ack, ⟨chain, chain⟩, [.send 7 (.GetHeaders ⟨[3, 2, 1], 3⟩)]⟩ _ (by decide) (.nil _))

end Murmel.Dispatcher
