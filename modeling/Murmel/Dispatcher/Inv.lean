import Murmel.Dispatcher.Process
import Murmel.Objects.MemStore

namespace Murmel.Dispatcher

variable {σ τ : Type} (d : Dispatcher σ τ) (peer : PeerId) (w : World σ τ)

-- Whether the header store holds the header an inventory entry announces.
def known (i : Inventory) : Bool :=
  (d.chaindb.getHeader w.chaindb i.hash).isSome

-- The loop of `inv` returns at its first entry that is not a block; before it, it only notes
-- whether some announced hash is unknown.
theorem inv_go (v : List Inventory) (ask : Bool) :
    inv.go d peer w v ask =
      if v.all (·.invType == .Block) then inv.go d peer w [] (ask || v.any (!d.known w ·))
      else ⟨.ok (.Ban 10), w, []⟩ := by
  induction v generalizing ask with
  | nil => simp
  | cons i v ih =>
    by_cases h : i.invType = .Block
    · simp [inv.go, h, ih, known, Bool.or_assoc]
    · simp [inv.go, h]

theorem inv_eq (v : List Inventory) :
    d.inv v peer w =
      if v.all (·.invType == .Block) then
        if v.any (!d.known w ·) then ⟨(d.getHeaders peer w).1.map fun _ => .Ack, w, (d.getHeaders peer w).2⟩
        else ⟨.ok .Ignored, w, []⟩
      else ⟨.ok (.Ban 10), w, []⟩ := by
  rw [inv, inv_go]
  split
  · cases v.any (!d.known w ·)
    · rfl
    · simp only [inv.go, Bool.or_true, if_true]
      split <;> rename_i h <;> simp [h, Except.map]
  · rfl

-- `get_headers`' result as `inv` passes it on: its failure, or `Ack`.
theorem getHeaders_result_map :
    (d.getHeaders peer w).1.map (fun _ => ProcessResult.Ack) = (d.getHeaders peer w).1 := by
  rw [getHeaders_result]
  split <;> rfl

theorem inv_classifies (v : List Inventory) :
    (d.inv v peer w).world = w ∧
    ((d.inv v peer w).result = .ok (.Ban 10) ∧ (d.inv v peer w).events = [] ↔
      ∃ i ∈ v, i.invType ≠ .Block) ∧
    ((∀ i ∈ v, i.invType = .Block) →
      ((∃ i ∈ v, d.known w i = false) →
        (d.inv v peer w).events =
          (if d.chaindb.headerLocators w.chaindb ≠ [] ∧ (d.peers.get peer).isSome then
            [.send peer (.GetHeaders ⟨d.chaindb.headerLocators w.chaindb,
              (d.chaindb.headerLocators w.chaindb).headD 0⟩)]
          else []) ∧
        (d.inv v peer w).result =
          if d.chaindb.headerLocators w.chaindb ≠ [] ∧ (d.peers.get peer).any (·.closed) then
            .error SPVError.SendError
          else .ok .Ack) ∧
      ((d.inv v peer w).result = .ok .Ignored ∧ (d.inv v peer w).events = [] ↔ ∀ i ∈ v, d.known w i)) := by
  rw [inv_eq, getHeaders_result_map, getHeaders_result, getHeaders_events]
  by_cases hb : v.all (·.invType == .Block)
  · have hb' : ¬∃ i ∈ v, i.invType ≠ .Block := by simpa using hb
    by_cases hu : v.any (!d.known w ·)
    · have hu' : ¬∀ i ∈ v, d.known w i := by simpa using hu
      rw [if_pos hb, if_pos hu]
      refine ⟨rfl, ?_, fun _ => ⟨fun _ => ⟨rfl, rfl⟩, ?_⟩⟩ <;> split <;> simp [hb', hu']
    · have hu' : ¬∃ i ∈ v, d.known w i = false := by simpa using hu
      rw [if_pos hb, if_neg hu]
      exact ⟨rfl, by simp [hb'], fun _ => ⟨fun h => absurd h hu', by simpa using hu'⟩⟩
  · have hb' : ∃ i ∈ v, i.invType ≠ .Block := by simpa using hb
    rw [if_neg hb]
    exact ⟨rfl, by simp [hb'], fun h => absurd h (by simpa using hb')⟩

-- Announced by a peer whose channel is closed, an unknown block makes `inv` pass the failed send
-- on; announced by a peer that left the table, it gets `Ack` with nothing sent.
open MemStore in
theorem inv_unknown_block_failed_send :
    (Dispatcher.mk chainDB configDB ⟨[(7, ⟨true⟩)], by decide⟩).inv [⟨.Block, 9⟩] 7 ⟨chain, chain⟩ =
      ⟨.error SPVError.SendError, ⟨chain, chain⟩, [.send 7 (.GetHeaders ⟨[3, 2, 1], 3⟩)]⟩ ∧
    (Dispatcher.mk chainDB configDB PeerMap.empty).inv [⟨.Block, 9⟩] 7 ⟨chain, chain⟩ =
      ⟨.ok .Ack, ⟨chain, chain⟩, []⟩ := by
  decide

end Murmel.Dispatcher
