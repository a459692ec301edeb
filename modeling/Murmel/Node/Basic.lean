import Murmel.Objects.Peer

namespace Murmel

-- The collaborators of node.rs's `Node` as one call sees them: the behaviour of its store, a
-- snapshot of the peer table and the header hash of the bitcoin library.
structure Node (τ : Type) where
  db : ConfigDB τ
  peers : PeerMap
  bitcoinHash : BlockHeader → Sha256dHash

namespace Node

structure World (τ : Type) where
  db : τ
  downloadQueue : List Sha256dHash
  deriving DecidableEq

variable {τ : Type} (n : Node τ)

def send (peer : PeerId) (msg : NetworkMessage) : Except SPVError ProcessResult × List Event :=
  n.peers.send peer msg

def downloadBlocks (pid : PeerId) (blocks : List Sha256dHash) (w : World τ) :
    Except SPVError Bool × World τ × List Event :=
  let w := { w with downloadQueue := DownloadQueue.enqueue w.downloadQueue blocks }
  let events := [.queue (.enqueue blocks)]
  match w.downloadQueue.head? with
  | some ask =>
    let (r, sent) := n.send pid (.GetData [⟨.WitnessBlock, ask⟩])
    match r with
    | .ok _ => (.ok true, w, events ++ sent)
    | .error e => (.error e, w, events ++ sent)
  | none => (.ok false, w, events)

def nextBlock (w : World τ) : Option Sha256dHash :=
  w.downloadQueue.head?

-- `get_headers` also reads `next_block` and drops the value; its transaction is never committed.
def getHeaders (peer : PeerId) (w : World τ) : Except SPVError ProcessResult × World τ × List Event :=
  match n.downloadBlocks peer [] w with
  | (.error e, w, events) => (.error e, w, events)
  | (.ok true, w, events) => (.ok .Ack, w, events)
  | (.ok false, w, events) =>
    match n.db.transaction w.db with
    | .error e => (.error e, w, events)
    | .ok tx =>
      let locator := n.db.locatorHashes tx
      if locator.length > 0 then
        let (r, sent) := n.send peer (.GetHeaders ⟨locator, locator.headD 0⟩)
        (r, w, events ++ sent)
      else (.ok .Ack, w, events)

def loadHeaders (w : World τ) : Except SPVError (World τ) :=
  match n.db.transaction w.db with
  | .error e => .error e
  | .ok tx =>
    match n.db.initNode tx with
    | .error e => .error e
    | .ok tx =>
      match n.db.commit tx with
      | .error e => .error e
      | .ok db => .ok { w with db }

def connected (pid : PeerId) (w : World τ) : Outcome (World τ) :=
  match n.getHeaders pid w with
  | (.ok _, w, events) => ⟨.ok .Ack, w, events⟩
  | (.error e, w, events) => ⟨.error e, w, events⟩

def disconnected (_n : Node τ) (_pid : PeerId) (w : World τ) : Outcome (World τ) :=
  ⟨.ok .Ack, w, []⟩

def ping (nonce : UInt64) (peer : PeerId) (w : World τ) : Outcome (World τ) :=
  let (r, events) := n.send peer (.Pong nonce)
  ⟨r, w, events⟩

-- The transaction holding `store_block` goes out of scope without `commit`.
def block (block : Block) (peer : PeerId) (w : World τ) : Outcome (World τ) :=
  match n.db.transaction w.db with
  | .error e => ⟨.error e, w, []⟩
  | .ok tx =>
    match n.db.storeBlock tx block with
    | .error e => ⟨.error e, w, []⟩
    | .ok _ =>
      let hash := n.bitcoinHash block.header
      let w := { w with downloadQueue := DownloadQueue.popIf w.downloadQueue hash }
      let events := [.queue (.popIf hash)]
      match n.getHeaders peer w with
      | (.ok _, w, sent) => ⟨.ok .Ack, w, events ++ sent⟩
      | (.error e, w, sent) => ⟨.error e, w, events ++ sent⟩

def inv (v : List Inventory) (peer : PeerId) (w : World τ) : Outcome (World τ) :=
  go v false
where
  go : List Inventory → Bool → Outcome (World τ)
    | [], askForHeaders =>
      if askForHeaders then
        match n.getHeaders peer w with
        | (.ok _, w, events) => ⟨.ok .Ack, w, events⟩
        | (.error e, w, events) => ⟨.error e, w, events⟩
      else ⟨.ok .Ignored, w, []⟩
    | inventory :: rest, askForHeaders =>
      if inventory.invType == .Block then
        match n.db.transaction w.db with
        | .error e => ⟨.error e, w, []⟩
        | .ok tx => go rest (askForHeaders || (n.db.getHeader tx inventory.hash).isNone)
      else ⟨.ok (.Ban 10), w, []⟩

def addr (v : List (UInt32 × Address)) (_peer : PeerId) (now : UInt32) (w : World τ) :
    Outcome (World τ) :=
  match n.db.addr v now w.db with
  | .ok (result, db) => ⟨.ok result, { w with db }, []⟩
  | .error e => ⟨.error e, w, []⟩

def broadcast (msg : NetworkMessage) : Except SPVError ProcessResult × List Event :=
  n.peers.broadcast msg

def broadcastTransaction (tx : Transaction) : Except SPVError ProcessResult × List Event :=
  n.broadcast (.Tx tx)

def getBroadcaster : Broadcaster :=
  ⟨n.peers⟩

end Node

end Murmel
