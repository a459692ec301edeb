import Murmel.Dispatcher.Process
import Murmel.Node.Basic
import Murmel.Objects.MemStore

namespace Murmel

variable {σ τ : Type}

namespace PeerMap

-- `broadcast` reaches the peers of the table up to the first whose send fails; the
-- `Broadcaster`'s loop reaches all of them.
theorem broadcast_events (peers : PeerMap) (tx : Transaction) :
    (peers.broadcast (.Tx tx)).2 = match peers.entries.findIdx? (·.2.closed) with
      | some i => ((Broadcaster.mk peers).broadcastTransaction tx).take (i + 1)
      | none => (Broadcaster.mk peers).broadcastTransaction tx := by
  rw [broadcast, broadcastTo_eq]
  cases peers.entries.findIdx? (·.2.closed) <;> simp [Broadcaster.broadcastTransaction, List.map_take]

theorem broadcast_result (peers : PeerMap) (msg : NetworkMessage) :
    (peers.broadcast msg).1 = if peers.entries.any (·.2.closed) then .error SPVError.SendError else .ok .Ack := by
  rw [broadcast, broadcastTo_eq]
  simp only [List.any_eq_true]
  cases h : peers.entries.findIdx? (·.2.closed) with
  | none =>
    rw [List.findIdx?_eq_none_iff] at h
    exact (if_neg fun ⟨e, he, hc⟩ => by simp [h e he] at hc).symm
  | some i =>
    obtain ⟨hi, hc, -⟩ := List.findIdx?_eq_some_iff_getElem.mp h
    exact (if_pos ⟨_, List.getElem_mem hi, hc⟩).symm

end PeerMap

theorem Dispatcher.broadcastTransaction_events (d : Dispatcher σ τ) (tx : Transaction) :
    (d.broadcastTransaction tx).2 = match d.peers.entries.findIdx? (·.2.closed) with
      | some i => (d.getBroadcaster.broadcastTransaction tx).take (i + 1)
      | none => d.getBroadcaster.broadcastTransaction tx :=
  d.peers.broadcast_events tx

theorem Node.broadcastTransaction_events (n : Node τ) (tx : Transaction) :
    (n.broadcastTransaction tx).2 = match n.peers.entries.findIdx? (·.2.closed) with
      | some i => (n.getBroadcaster.broadcastTransaction tx).take (i + 1)
      | none => n.getBroadcaster.broadcastTransaction tx :=
  n.peers.broadcast_events tx

-- A failed send to the first peer of the table keeps the second from getting the transaction.
theorem broadcastTransaction_first_closed :
    (Broadcaster.mk ⟨[(1, ⟨true⟩), (2, ⟨false⟩)], by decide⟩).broadcastTransaction ⟨⟩ =
      [.send 1 (.Tx ⟨⟩), .send 2 (.Tx ⟨⟩)] ∧
    (Dispatcher.mk MemStore.chainDB MemStore.configDB ⟨[(1, ⟨true⟩), (2, ⟨false⟩)], by decide⟩).broadcastTransaction
      ⟨⟩ = (.error SPVError.SendError, [.send 1 (.Tx ⟨⟩)]) ∧
    (Node.mk MemStore.configDB ⟨[(1, ⟨true⟩), (2, ⟨false⟩)], by decide⟩ MemStore.hash).broadcastTransaction
      ⟨⟩ = (.error SPVError.SendError, [.send 1 (.Tx ⟨⟩)]) := by
  decide

end Murmel
