import Murmel.Objects.Store

namespace Murmel

-- A header tree kept in memory: one behaviour of the stores the handlers are parameterised by.
-- Every header adds one unit of work, so the tip is the first stored header of greatest height.
structure MemStore where
  headers : List (Sha256dHash × StoredHeader)
  tip : Sha256dHash
  blocks : List Sha256dHash
  deriving DecidableEq, Repr

namespace MemStore

-- The hash the store files a header under, standing in for the bitcoin library's.
def hash (h : BlockHeader) : Sha256dHash :=
  h.merkleRoot

def get (s : MemStore) (h : Sha256dHash) : Option StoredHeader :=
  s.headers.lookup h

-- The chain from `h` back to the genesis, newest first.
def chainFrom (s : MemStore) : Nat → Sha256dHash → List Sha256dHash
  | 0, _ => []
  | fuel + 1, h =>
    match s.get h with
    | some stored => h :: chainFrom s fuel stored.header.prevBlockhash
    | none => []

def trunk (s : MemStore) : List Sha256dHash :=
  s.chainFrom (s.headers.length + 1) s.tip

def tipHeight (s : MemStore) : Nat :=
  ((s.get s.tip).map (·.height.toNat)).getD 0

-- Files `h` under its parent; `none` when it is known already, `error` for an orphan.
def insert (s : MemStore) (h : BlockHeader) : Except SPVError (Option (StoredHeader × MemStore)) :=
  match s.get (hash h) with
  | some _ => .ok none
  | none =>
    match s.get h.prevBlockhash with
    | none => .error .OrphanHeader
    | some parent =>
      let stored : StoredHeader := ⟨h, parent.height + 1⟩
      let s' := { s with headers := s.headers ++ [(hash h, stored)] }
      if s.tipHeight < stored.height.toNat then .ok (some (stored, { s' with tip := hash h }))
      else .ok (some (stored, s'))

def chainDB : ChainDB MemStore where
  init s := (.ok (), s)
  tip s := s.get s.tip
  addHeader s h :=
    match s.insert h with
    | .error e => (.error e, s)
    | .ok none => (.ok none, s)
    | .ok (some (stored, s')) =>
      if s'.tip = s.tip then (.ok (some ⟨stored, none, none⟩), s')
      else
        let unwinds := s.trunk.takeWhile (· ∉ s'.trunk)
        let forwards := (s'.trunk.takeWhile (· ∉ s.trunk)).reverse
        (.ok (some ⟨stored, if unwinds = [] then none else some unwinds, some forwards⟩), s')
  unwindTip s _ := (.ok false, s)
  getHeader s h := s.get h
  batch s := (.ok (), s)
  headerLocators s := s.trunk

def configDB : ConfigDB MemStore where
  transaction s := .ok s
  commit s := .ok s
  initNode s := .ok s
  getTip s := .ok (some s.tip)
  insertHeader s h :=
    match s.insert h with
    | .error e => .error e
    | .ok none => .ok (false, s)
    | .ok (some (_, s')) => .ok (true, s')
  getHeader s h := s.get h
  isOnTrunk s h := s.trunk.contains h
  storeBlock s b := .ok { s with blocks := s.blocks ++ [hash b.header] }
  locatorHashes s := s.trunk
  storePeer s _ _ _ := .ok s
  getAPeer _ _ := .error .StoreError

-- Sample data: `header prev hash` is filed under `hash`; `chain` holds 1 ← 2 ← 3 with tip 3.
def header (prev hash : Nat) : BlockHeader :=
  ⟨BitVec.ofNat 256 prev, BitVec.ofNat 256 hash⟩

def chain : MemStore :=
  ⟨[(1, ⟨header 0 1, 0⟩), (2, ⟨header 1 2, 1⟩), (3, ⟨header 2 3, 2⟩)], 3, []⟩

-- `chain` after a reorg to 1 ← 2 ← 5 ← 6, which leaves 3 off the trunk.
def forked : MemStore :=
  { chain with headers := chain.headers ++ [(5, ⟨header 2 5, 2⟩), (6, ⟨header 5 6, 3⟩)], tip := 6 }

-- `configDB` with an address book: `get_a_peer` hands out the first record of `stored` whose socket
-- address is not excluded.
def addressBook (stored : List Address) : ConfigDB MemStore :=
  { configDB with
    getAPeer := fun _ exclude =>
      match stored.find? fun a => match a.socketAddr with
        | .ok sock => decide (sock ∉ exclude)
        | .error _ => false with
      | some a => .ok a
      | none => .error .StoreError }

def addresses : List Address :=
  [⟨9, [1], 8333⟩, ⟨9, [2], 8333⟩]

end MemStore

end Murmel
