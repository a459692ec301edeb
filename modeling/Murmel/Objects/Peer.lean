import Murmel.Objects.Store
import Murmel.Objects.DownloadQueue

namespace Murmel

-- The calls a handler makes on the stores, the download queue, the peers and the connector.
inductive Event
  | addHeader (header : BlockHeader) (result : Except SPVError (Option HeaderAdded))
  | unwindTip (hash : Sha256dHash)
  | batch
  | blockDisconnected (header : BlockHeader)
  | send (peer : PeerId) (msg : NetworkMessage)
  | queue (op : DownloadQueue.Op)
  deriving DecidableEq, Repr

namespace Event

def addHeaderCall : Event → Option (BlockHeader × Except SPVError (Option HeaderAdded))
  | addHeader header result => some (header, result)
  | _ => none

def isSend : Event → Bool
  | send _ _ => true
  | _ => false

end Event

-- Every message among `events` goes to `peer`.
def SendsOnlyTo (peer : PeerId) (events : List Event) : Prop :=
  ∀ q msg, Event.send q msg ∈ events → q = peer

namespace SendsOnlyTo

variable {peer : PeerId} {es es' : List Event}

theorem nil (peer : PeerId) : SendsOnlyTo peer [] :=
  fun _ _ h => (nomatch h)

theorem append (h : SendsOnlyTo peer es) (h' : SendsOnlyTo peer es') : SendsOnlyTo peer (es ++ es') :=
  fun q msg hm => (List.mem_append.mp hm).elim (h q msg) (h' q msg)

theorem of_quiet (h : ∀ e ∈ es, e.isSend = false) : SendsOnlyTo peer es :=
  fun _ _ hm => by simpa [Event.isSend] using h _ hm

end SendsOnlyTo

-- What a handler returns, the state it leaves behind and the calls it made.
structure Outcome (ω : Type) where
  result : Except SPVError ProcessResult
  world : ω
  events : List Event
  deriving DecidableEq

/-- Modelled from the spec: p2p.rs is not in the repository. A peer's handle (§3 `PeerHandle`),
reduced to whether its outbound channel is closed, which is when a send to it fails. -/
structure PeerHandle where
  closed : Bool
  deriving DecidableEq, Repr

/-- Modelled from the spec: the peer table of §4.3, one handle per peer; `entries` is the order
in which the table is iterated. -/
structure PeerMap where
  entries : List (PeerId × PeerHandle)
  nodup : (entries.map Prod.fst).Nodup

namespace PeerMap

def empty : PeerMap :=
  ⟨[], List.nodup_nil⟩

def get (peers : PeerMap) (pid : PeerId) : Option PeerHandle :=
  peers.entries.lookup pid

-- `send` of dispatcher.rs and node.rs: a peer that is not in the table is skipped.
def send (peers : PeerMap) (peer : PeerId) (msg : NetworkMessage) :
    Except SPVError ProcessResult × List Event :=
  match peers.get peer with
  | some handle => (if handle.closed then .error SPVError.SendError else .ok .Ack, [.send peer msg])
  | none => (.ok .Ack, [])

-- `broadcast` of dispatcher.rs and node.rs: `?` ends the loop at the first failed send.
def broadcastTo (msg : NetworkMessage) :
    List (PeerId × PeerHandle) → Except SPVError ProcessResult × List Event
  | [] => (.ok .Ack, [])
  | (pid, handle) :: rest =>
    if handle.closed then (.error SPVError.SendError, [.send pid msg])
    else
      let (result, events) := broadcastTo msg rest
      (result, .send pid msg :: events)

def broadcast (peers : PeerMap) (msg : NetworkMessage) : Except SPVError ProcessResult × List Event :=
  broadcastTo msg peers.entries

theorem send_events (peers : PeerMap) (peer : PeerId) (msg : NetworkMessage) :
    (peers.send peer msg).2 = if (peers.get peer).isSome then [.send peer msg] else [] := by
  unfold send
  split <;> simp_all

theorem send_result (peers : PeerMap) (peer : PeerId) (msg : NetworkMessage) :
    (peers.send peer msg).1 = if (peers.get peer).any (·.closed) then .error SPVError.SendError else .ok .Ack := by
  unfold send
  split <;> simp_all

theorem send_sendsOnlyTo (peers : PeerMap) (peer : PeerId) (msg : NetworkMessage) :
    SendsOnlyTo peer (peers.send peer msg).2 := by
  rw [send_events]
  split <;> simp [SendsOnlyTo]

theorem broadcastTo_eq (msg : NetworkMessage) (es : List (PeerId × PeerHandle)) :
    broadcastTo msg es = match es.findIdx? (·.2.closed) with
      | some i => (.error SPVError.SendError, (es.take (i + 1)).map fun e => .send e.1 msg)
      | none => (.ok .Ack, es.map fun e => .send e.1 msg) := by
  induction es with
  | nil => rfl
  | cons e es ih =>
    obtain ⟨pid, handle⟩ := e
    by_cases h : handle.closed
    · simp [broadcastTo, h]
    · simp only [broadcastTo, h, ih, List.findIdx?_cons, List.findIdx?_start_succ]
      cases es.findIdx? (·.2.closed) <;> simp

end PeerMap

structure Broadcaster where
  peers : PeerMap

/-- `Broadcaster::broadcast_transaction`, declared with this body in dispatcher.rs and in node.rs:
`unwrap_or(())` drops a failed send and the loop goes on. -/
def Broadcaster.broadcastTransaction (b : Broadcaster) (tx : Transaction) : List Event :=
  b.peers.entries.map fun (pid, _) => .send pid (.Tx tx)

end Murmel
