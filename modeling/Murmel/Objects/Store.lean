import Murmel.Objects.Message

namespace Murmel

structure StoredHeader where
  header : BlockHeader
  height : UInt32
  deriving DecidableEq, Repr

-- The `(stored, unwinds, forwards)` triple of a successful `add_header`.
structure HeaderAdded where
  stored : StoredHeader
  unwinds : Option (List Sha256dHash)
  forwards : Option (List Sha256dHash)
  deriving DecidableEq, Repr

/-- The header store the dispatcher works on. chaindb.rs is not in the repository, so its
operations are a parameter: any functions of an abstract store state `σ`. -/
structure ChainDB (σ : Type) where
  init : σ → Except SPVError Unit × σ
  tip : σ → Option StoredHeader
  addHeader : σ → BlockHeader → Except SPVError (Option HeaderAdded) × σ
  unwindTip : σ → Sha256dHash → Except SPVError Bool × σ
  getHeader : σ → Sha256dHash → Option StoredHeader
  batch : σ → Except SPVError Unit × σ
  headerLocators : σ → List Sha256dHash

/-- The transactional store of node.rs and of the address book. configdb.rs is not in the
repository, so its operations are a parameter over an abstract state `τ`: `transaction` opens a
transaction on the committed state, the other operations act on the transaction's state, and
only `commit` turns a transaction's state into the committed one. A transaction that is dropped
is simply never committed. -/
structure ConfigDB (τ : Type) where
  transaction : τ → Except SPVError τ
  commit : τ → Except SPVError τ
  initNode : τ → Except SPVError τ
  getTip : τ → Except SPVError (Option Sha256dHash)
  insertHeader : τ → BlockHeader → Except SPVError (Bool × τ)
  getHeader : τ → Sha256dHash → Option StoredHeader
  isOnTrunk : τ → Sha256dHash → Bool
  storeBlock : τ → Block → Except SPVError τ
  locatorHashes : τ → List Sha256dHash
  storePeer : τ → Address → UInt32 → UInt32 → Except SPVError τ
  getAPeer : τ → List SocketAddr → Except SPVError Address

namespace ConfigDB

variable {τ : Type} (db : ConfigDB τ)

-- The loop of `addr`, written the same in dispatcher.rs and node.rs: store the fresh addresses of
-- segwit full nodes, Tor addresses excepted.
def storeAddresses (now : UInt32) :
    τ → List (UInt32 × Address) → ProcessResult → Except SPVError (τ × ProcessResult)
  | tx, [], result => .ok (tx, result)
  | tx, (ts, a) :: rest, result =>
    if a.socketAddr.isOk then
      if a.services &&& 9 == 9 && ts > now - 3 * 60 * 30 then
        match db.storePeer tx a ts 0 with
        | .ok tx => storeAddresses now tx rest .Ack
        | .error e => .error e
      else storeAddresses now tx rest result
    else storeAddresses now tx rest result

-- `addr` of dispatcher.rs and node.rs on the store `state`: one transaction, committed at the end.
def addr (v : List (UInt32 × Address)) (now : UInt32) (state : τ) :
    Except SPVError (ProcessResult × τ) :=
  match db.transaction state with
  | .error e => .error e
  | .ok tx =>
    match db.storeAddresses now tx v .Ignored with
    | .error e => .error e
    | .ok (tx, result) =>
      match db.commit tx with
      | .error e => .error e
      | .ok state => .ok (result, state)

end ConfigDB

end Murmel
