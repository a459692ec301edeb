import Murmel.Node.Basic

namespace Murmel.Node

variable {τ : Type} (n : Node τ)

-- The locals of `headers` kept while its transaction is open.
structure HeadersTx (τ : Type) where
  tx : τ
  disconnected : List BlockHeader
  download : List Sha256dHash
  someNew : Bool
  tipMoved : Bool
  deriving DecidableEq

-- How a round of the `for` loop ends; `diverge` is the reorg walk running out of `fuel`.
inductive Step (τ : Type)
  | next (acc : HeadersTx τ)
  | ret (result : Except SPVError ProcessResult)
  | diverge
  deriving DecidableEq

-- The reorg walk `while !tx.is_on_trunk(&old_tip)`, bounded by `fuel` rounds.
def unwind (tx : τ) : Nat → Sha256dHash → List BlockHeader → Option (List BlockHeader)
  | 0, _, _ => none
  | fuel + 1, oldTip, disconnected =>
    if !n.db.isOnTrunk tx oldTip then
      match n.db.getHeader tx oldTip with
      | some oldHeader =>
        unwind tx fuel oldHeader.header.prevBlockhash (disconnected ++ [oldHeader.header])
      | none => unwind tx fuel oldTip disconnected
    else some disconnected

def headerStep (fuel : Nat) (header : LoneBlockHeader) (acc : HeadersTx τ) : Step τ :=
  match n.db.getTip acc.tx with
  | .error e => .ret (.error e)
  | .ok none => .next acc
  | .ok (some oldTip) =>
    match n.db.insertHeader acc.tx header.header with
    | .ok (stored, tx) =>
      match n.db.getTip tx with
      | .error e => .ret (.error e)
      | .ok none => .next { acc with tx }
      | .ok (some newTip) =>
        let acc := { acc with
          tx
          tipMoved := acc.tipMoved || newTip != oldTip
          someNew := acc.someNew || stored }
        let headerHash := n.bitcoinHash header.header
        if headerHash == newTip && header.header.prevBlockhash != oldTip then
          match n.unwind tx fuel oldTip acc.disconnected with
          | some disconnected => .next { acc with disconnected, download := acc.download ++ [newTip] }
          | none => .diverge
        else .next { acc with download := acc.download ++ [newTip] }
    | .error .SpvBadProofOfWork => .ret (.ok (.Ban 100))
    | .error _ => .ret (.ok .Ignored)

def headersLoop (fuel : Nat) : List LoneBlockHeader → HeadersTx τ → Step τ
  | [], acc => .next acc
  | header :: rest, acc =>
    match n.headerStep fuel header acc with
    | .next acc => headersLoop fuel rest acc
    | .ret result => .ret result
    | .diverge => .diverge

-- After the transaction: notify the disconnected headers, ask for more headers if some were new.
def notifyAndAsk (peer : PeerId) (height : UInt32) (acc : HeadersTx τ) (w : World τ)
    (events : List Event) : Outcome (World τ) :=
  let events := events ++ acc.disconnected.map .blockDisconnected
  let result := if acc.tipMoved then .ok (.Height height) else .ok .Ack
  if acc.someNew then
    match n.getHeaders peer w with
    | (.ok _, w, sent) => ⟨result, w, events ++ sent⟩
    | (.error e, w, sent) => ⟨.error e, w, events ++ sent⟩
  else ⟨result, w, events⟩

-- `none` is a reorg walk that did not end within `fuel` rounds.
def headers (fuel : Nat) (headers : List LoneBlockHeader) (peer : PeerId) (w : World τ) :
    Option (Outcome (World τ)) :=
  if headers.length > 0 then
    match n.db.transaction w.db with
    | .error e => some ⟨.error e, w, []⟩
    | .ok tx =>
      match n.headersLoop fuel headers ⟨tx, [], [], false, false⟩ with
      | .diverge => none
      | .ret result => some ⟨result, w, []⟩
      | .next acc =>
        match n.db.getTip acc.tx with
        | .error e => some ⟨.error e, w, []⟩
        | .ok none => some ⟨.error .NoTip, w, []⟩
        | .ok (some newTip) =>
          match n.db.getHeader acc.tx newTip with
          | none => some ⟨.error .NoTip, w, []⟩
          | some header =>
            if acc.tipMoved then
              match n.db.commit acc.tx with
              | .error e => some ⟨.error e, w, []⟩
              | .ok db =>
                match n.downloadBlocks peer acc.download { w with db } with
                | (.error e, w, events) => some ⟨.error e, w, events⟩
                | (.ok _, w, events) => some (n.notifyAndAsk peer header.height acc w events)
            else
              match n.db.commit acc.tx with
              | .error e => some ⟨.error e, w, []⟩
              | .ok db => some ⟨.ok (.Ban 5), { w with db }, []⟩
  else some ⟨.ok .Ignored, w, []⟩

-- `now` is the clock `addr` reads, `fuel` bounds the reorg walk of `headers`.
def process (fuel : Nat) (now : UInt32) (msg : NetworkMessage) (peer : PeerId) (w : World τ) :
    Option (Outcome (World τ)) :=
  match msg with
  | .Ping nonce => some (n.ping nonce peer w)
  | .Headers v => n.headers fuel v peer w
  | .Block b => some (n.block b peer w)
  | .Inv v => some (n.inv v peer w)
  | .Addr v => some (n.addr v peer now w)
  | _ => some ⟨.ok (.Ban 1), w, []⟩

-- The calls P2P makes on a node.
inductive Input
  | connected (pid : PeerId)
  | disconnected (pid : PeerId)
  | process (msg : NetworkMessage) (peer : PeerId)

-- The inputs whose handlers write a store: a `Headers` and an `Addr` message.
def Input.isHeaders : Input → Bool
  | .process (.Headers _) _ => true
  | _ => false

def Input.isAddr : Input → Bool
  | .process (.Addr _) _ => true
  | _ => false

-- The peer an input comes from.
def Input.peer : Input → PeerId
  | .connected pid => pid
  | .disconnected pid => pid
  | .process _ peer => peer

def handle (fuel : Nat) (now : UInt32) : Input → World τ → Option (Outcome (World τ))
  | .connected pid, w => some (n.connected pid w)
  | .disconnected pid, w => some (n.disconnected pid w)
  | .process msg peer, w => n.process fuel now msg peer w

end Murmel.Node
