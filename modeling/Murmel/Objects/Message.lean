import Mathlib.Data.List.Basic

namespace Murmel

instance instDecidableEqExcept {ε α : Type} [DecidableEq ε] [DecidableEq α] : DecidableEq (Except ε α)
  | .ok a, .ok b => if h : a = b then isTrue (h ▸ rfl) else isFalse fun e => h (Except.ok.inj e)
  | .error a, .error b => if h : a = b then isTrue (h ▸ rfl) else isFalse fun e => h (Except.error.inj e)
  | .ok _, .error _ => isFalse Except.noConfusion
  | .error _, .ok _ => isFalse Except.noConfusion

@[simp] theorem isOk_ok {ε α : Type} (a : α) : (Except.ok a : Except ε α).isOk = true := rfl

@[simp] theorem isOk_error {ε α : Type} (e : ε) : (Except.error e : Except ε α).isOk = false := rfl

abbrev Sha256dHash := BitVec 256

/-- Modelled from the spec: error.rs is not in the repository. The variants the code names
(`NoTip`, `SpvBadProofOfWork`) and the remaining error kinds of §7. -/
inductive SPVError
  | SpvBadProofOfWork
  | OrphanHeader
  | NoTip
  | StoreError
  | SendError
  deriving DecidableEq, Repr

/-- Modelled from the spec: p2p.rs is not in the repository; §3 describes a `PeerId` as an opaque
integer assigned at connect time. -/
abbrev PeerId := Nat

-- The bitcoin library's messages carry only the fields the handlers read: a header's links, a
-- block's header; a transaction is passed on whole and never looked into.
structure BlockHeader where
  prevBlockhash : Sha256dHash
  merkleRoot : Sha256dHash
  deriving DecidableEq, Repr

structure LoneBlockHeader where
  header : BlockHeader
  deriving DecidableEq, Repr

structure Transaction where
  deriving DecidableEq, Repr

structure Block where
  header : BlockHeader
  deriving DecidableEq, Repr

inductive InvType
  | Error
  | Transaction
  | Block
  | WitnessBlock
  | WitnessTransaction
  deriving DecidableEq, Repr

structure Inventory where
  invType : InvType
  hash : Sha256dHash
  deriving DecidableEq, Repr

structure SocketAddr where
  address : List UInt16
  port : UInt16
  deriving DecidableEq, Repr

structure Address where
  services : UInt64
  address : List UInt16
  port : UInt16
  deriving DecidableEq, Repr

def ONION : List UInt16 := [0xFD87, 0xD87E, 0xEB43]

-- Tor addresses have no socket address; this is what "if not tor" in the handlers tests.
def Address.socketAddr (a : Address) : Except SPVError SocketAddr :=
  if a.address.take 3 = ONION then .error SPVError.SendError else .ok ⟨a.address, a.port⟩

structure GetHeadersMessage where
  locatorHashes : List Sha256dHash
  stopHash : Sha256dHash
  deriving DecidableEq, Repr

inductive NetworkMessage
  | Version
  | Verack
  | Addr (v : List (UInt32 × Address))
  | Inv (v : List Inventory)
  | GetData (v : List Inventory)
  | NotFound (v : List Inventory)
  | GetBlocks
  | GetHeaders (m : GetHeadersMessage)
  | MemPool
  | Tx (tx : Transaction)
  | Block (b : Block)
  | Headers (v : List LoneBlockHeader)
  | GetAddr
  | Ping (nonce : UInt64)
  | Pong (nonce : UInt64)
  | Alert
  deriving DecidableEq, Repr

inductive ProcessResult
  | Ack
  | Height (height : UInt32)
  | Ignored
  | Ban (score : UInt32)
  deriving DecidableEq, Repr

end Murmel
