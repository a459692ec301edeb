import Murmel.Dispatcher.Headers

namespace Murmel.Dispatcher

variable {σ τ : Type} (d : Dispatcher σ τ)

def init (w : World σ τ) : Except SPVError Unit × World σ τ :=
  let (r, chaindb) := d.chaindb.init w.chaindb
  (r, { w with chaindb })

def connected (pid : PeerId) (w : World σ τ) : Outcome (World σ τ) :=
  let (r, events) := d.getHeaders pid w
  match r with
  | .ok _ => ⟨.ok .Ack, w, events⟩
  | .error e => ⟨.error e, w, events⟩

def disconnected (_d : Dispatcher σ τ) (_pid : PeerId) (w : World σ τ) : Outcome (World σ τ) :=
  ⟨.ok .Ack, w, []⟩

def ping (nonce : UInt64) (peer : PeerId) (w : World σ τ) : Outcome (World σ τ) :=
  let (r, events) := d.send peer (.Pong nonce)
  ⟨r, w, events⟩

def block (_d : Dispatcher σ τ) (_block : Block) (_peer : PeerId) (w : World σ τ) : Outcome (World σ τ) :=
  ⟨.ok .Ack, w, []⟩

def inv (v : List Inventory) (peer : PeerId) (w : World σ τ) : Outcome (World σ τ) :=
  go v false
where
  go : List Inventory → Bool → Outcome (World σ τ)
    | [], askForHeaders =>
      if askForHeaders then
        let (r, events) := d.getHeaders peer w
        match r with
        | .ok _ => ⟨.ok .Ack, w, events⟩
        | .error e => ⟨.error e, w, events⟩
      else ⟨.ok .Ignored, w, []⟩
    | inventory :: rest, askForHeaders =>
      if inventory.invType == .Block then
        go rest (askForHeaders || (d.chaindb.getHeader w.chaindb inventory.hash).isNone)
      else ⟨.ok (.Ban 10), w, []⟩

def addr (v : List (UInt32 × Address)) (_peer : PeerId) (now : UInt32) (w : World σ τ) :
    Outcome (World σ τ) :=
  match d.configdb.addr v now w.configdb with
  | .ok (result, configdb) => ⟨.ok result, { w with configdb }, []⟩
  | .error e => ⟨.error e, w, []⟩

-- `now` is the clock `addr` reads; `none` is a panic of `headers`.
def process (msg : NetworkMessage) (peer : PeerId) (now : UInt32) (w : World σ τ) :
    Option (Outcome (World σ τ)) :=
  match msg with
  | .Ping nonce => some (d.ping nonce peer w)
  | .Headers v => d.headers v peer w
  | .Block b => some (d.block b peer w)
  | .Inv v => some (d.inv v peer w)
  | .Addr v => some (d.addr v peer now w)
  | _ => some ⟨.ok (.Ban 1), w, []⟩

def broadcast (msg : NetworkMessage) : Except SPVError ProcessResult × List Event :=
  d.peers.broadcast msg

def broadcastTransaction (tx : Transaction) : Except SPVError ProcessResult × List Event :=
  d.broadcast (.Tx tx)

def getBroadcaster : Broadcaster :=
  ⟨d.peers⟩

end Murmel.Dispatcher
