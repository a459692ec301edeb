import Murmel.Objects.Peer

namespace Murmel

-- The collaborators of dispatcher.rs's `Dispatcher` as one dispatch sees them: the behaviour of
-- its two stores and a snapshot of the peer table.
structure Dispatcher (σ τ : Type) where
  chaindb : ChainDB σ
  configdb : ConfigDB τ
  peers : PeerMap

namespace Dispatcher

structure World (σ τ : Type) where
  chaindb : σ
  configdb : τ
  deriving DecidableEq

variable {σ τ : Type} (d : Dispatcher σ τ)

def send (peer : PeerId) (msg : NetworkMessage) : Except SPVError ProcessResult × List Event :=
  d.peers.send peer msg

def getHeaders (peer : PeerId) (w : World σ τ) : Except SPVError ProcessResult × List Event :=
  let locator := d.chaindb.headerLocators w.chaindb
  if locator.length > 0 then
    let first := locator.headD 0
    d.send peer (.GetHeaders ⟨locator, first⟩)
  else (.ok .Ack, [])

theorem getHeaders_events (peer : PeerId) (w : World σ τ) :
    (d.getHeaders peer w).2 =
      if d.chaindb.headerLocators w.chaindb ≠ [] ∧ (d.peers.get peer).isSome then
        [.send peer (.GetHeaders ⟨d.chaindb.headerLocators w.chaindb,
          (d.chaindb.headerLocators w.chaindb).headD 0⟩)]
      else [] := by
  unfold getHeaders send
  by_cases h : d.chaindb.headerLocators w.chaindb = [] <;>
    simp [h, PeerMap.send_events, List.length_pos]

theorem getHeaders_result (peer : PeerId) (w : World σ τ) :
    (d.getHeaders peer w).1 =
      if d.chaindb.headerLocators w.chaindb ≠ [] ∧ (d.peers.get peer).any (·.closed) then .error SPVError.SendError
      else .ok .Ack := by
  unfold getHeaders send
  by_cases h : d.chaindb.headerLocators w.chaindb = [] <;>
    simp [h, PeerMap.send_result, List.length_pos]

end Dispatcher

end Murmel
