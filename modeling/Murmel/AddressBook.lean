import Murmel.Dispatcher.Run
import Murmel.Node.Commit

namespace Murmel

-- §8: a record the address store may hold has a socket address (it is not a Tor address) and the
-- NODE_NETWORK and NODE_WITNESS service bits.
def Address.storable (a : Address) : Bool :=
  a.socketAddr.isOk && a.services &&& 9 == 9

-- §8's invariant of the address store, given which records `holds` a store state holds.
def OnlyStorable {τ : Type} (holds : τ → Address → Prop) (s : τ) : Prop :=
  ∀ a, holds s a → a.storable

namespace ConfigDB

-- §4.4's `Addr` row: an entry worth storing at `now` is storable and seen within the last 5400 s.
def interesting (now : UInt32) (entry : UInt32 × Address) : Bool :=
  entry.2.storable && decide (now.toNat - 5400 < entry.1.toNat)

variable {τ : Type} (db : ConfigDB τ)

-- `store_peer(a, ts, 0)` for each entry in turn, up to the first failure.
def storePeers (tx : τ) (entries : List (UInt32 × Address)) : Except SPVError τ :=
  entries.foldlM (fun tx e => db.storePeer tx e.2 e.1 0) tx

-- What §4.4 asks of `addr`: in one transaction, store the interesting entries in the order of `v`,
-- then commit.
def storeInteresting (v : List (UInt32 × Address)) (now : UInt32) (state : τ) : Except SPVError τ :=
  db.transaction state >>= fun tx => db.storePeers tx (v.filter (interesting now)) >>= db.commit

@[simp] theorem storePeers_nil (tx : τ) : db.storePeers tx [] = .ok tx := rfl

theorem storePeers_cons (tx : τ) (e : UInt32 × Address) (entries : List (UInt32 × Address)) :
    db.storePeers tx (e :: entries) =
      match db.storePeer tx e.2 e.1 0 with
      | .ok tx => db.storePeers tx entries
      | .error err => .error err := by
  unfold storePeers
  rw [List.foldlM_cons]
  cases db.storePeer tx e.2 e.1 0 <;> rfl

-- The freshness test of `addr`, `ts > now - 3 * 60 * 30` on `u32`, once `now` is 5400 or more.
theorem fresh_iff {now ts : UInt32} (hnow : 5400 ≤ now.toNat) :
    ts > now - 3 * 60 * 30 ↔ now.toNat - 5400 < ts.toNat := by
  have h : (now - 3 * 60 * 30).toNat = now.toNat - 5400 := UInt32.toNat_sub_of_le _ _ hnow
  show (now - 3 * 60 * 30).toNat < ts.toNat ↔ _
  rw [h]

variable {now : UInt32} (hnow : 5400 ≤ now.toNat)
include hnow

theorem storeAddresses_cons (tx : τ) (ts : UInt32) (a : Address) (v : List (UInt32 × Address))
    (result : ProcessResult) :
    db.storeAddresses now tx ((ts, a) :: v) result =
      if interesting now (ts, a) then
        match db.storePeer tx a ts 0 with
        | .ok tx => db.storeAddresses now tx v .Ack
        | .error e => .error e
      else db.storeAddresses now tx v result := by
  have hfresh : decide (ts > now - 3 * 60 * 30) = decide (now.toNat - 5400 < ts.toNat) :=
    decide_eq_decide.mpr (fresh_iff hnow)
  rw [storeAddresses, interesting, Address.storable, ← hfresh]
  cases a.socketAddr.isOk <;> rfl

theorem storeAddresses_eq (tx : τ) (v : List (UInt32 × Address)) (result : ProcessResult) :
    db.storeAddresses now tx v result =
      (db.storePeers tx (v.filter (interesting now))).map
        fun tx => (tx, if v.filter (interesting now) = [] then result else .Ack) := by
  induction v generalizing tx result with
  | nil => rfl
  | cons e v ih =>
    obtain ⟨ts, a⟩ := e
    rw [storeAddresses_cons db hnow]
    by_cases hi : interesting now (ts, a)
    · rw [if_pos hi, List.filter_cons_of_pos hi, storePeers_cons]
      cases db.storePeer tx a ts 0 with
      | error e => rfl
      | ok tx => simp [ih]
    · rw [if_neg hi, List.filter_cons_of_neg hi, ih]

theorem addr_eq (v : List (UInt32 × Address)) (state : τ) :
    db.addr v now state =
      (db.storeInteresting v now state).map
        fun state => (if v.filter (interesting now) = [] then .Ignored else .Ack, state) := by
  unfold addr storeInteresting
  rcases db.transaction state with _ | tx
  · rfl
  · show _ = (db.storePeers tx (v.filter (interesting now)) >>= db.commit).map _
    simp only [storeAddresses_eq db hnow]
    rcases db.storePeers tx (v.filter (interesting now)) with _ | tx
    · rfl
    · show _ = (db.commit tx).map _
      dsimp only [Except.map]
      rcases db.commit tx with _ | state <;> rfl

omit hnow

/-- Modelled from the spec (§4.2, §8): what the address invariant needs of a store, given which
records `holds` a store state holds. A transaction starts from the committed records, a commit
keeps the transaction's, and `store_peer` adds at most the record it is given. -/
structure Keeps (holds : τ → Address → Prop) : Prop where
  transaction : ∀ {s tx a}, db.transaction s = .ok tx → holds tx a → holds s a
  commit : ∀ {tx s a}, db.commit tx = .ok s → holds s a → holds tx a
  storePeer : ∀ {tx tx' a a' ts b}, db.storePeer tx a' ts b = .ok tx' → holds tx' a → holds tx a ∨ a = a'

-- node.rs keeps headers and addresses in one store: there `insert_header` must add no record.
def InsertKeeps (holds : τ → Address → Prop) : Prop :=
  ∀ tx tx' h stored a, db.insertHeader tx h = .ok (stored, tx') → holds tx' a → holds tx a

variable {db} {holds : τ → Address → Prop} (hk : db.Keeps holds)
include hk

theorem storeAddresses_keeps {tx tx' : τ} {v : List (UInt32 × Address)} {r r' : ProcessResult}
    (h : db.storeAddresses now tx v r = .ok (tx', r')) {a : Address} (ha : holds tx' a) :
    holds tx a ∨ a.storable := by
  induction v generalizing tx r with
  | nil =>
    cases h
    exact .inl ha
  | cons e v ih =>
    unfold storeAddresses at h
    split at h
    · split at h
      · split at h
        · rcases ih h with h' | h'
          · refine (hk.storePeer ‹_› h').imp_right fun he => ?_
            subst he
            simp_all [Address.storable]
          · exact .inr h'
        · cases h
      · exact ih h
    · exact ih h

theorem addr_keeps {v : List (UInt32 × Address)} {s s' : τ} {r : ProcessResult}
    (h : db.addr v now s = .ok (r, s')) (hs : OnlyStorable holds s) : OnlyStorable holds s' := by
  unfold addr at h
  split at h
  · cases h
  · split at h
    · cases h
    · split at h
      · cases h
      · cases h
        intro a ha
        exact (storeAddresses_keeps hk ‹_› (hk.commit ‹_› ha)).elim (hs a <| hk.transaction ‹_› ·) id

end ConfigDB

variable {σ τ : Type} {holds : τ → Address → Prop}

theorem Dispatcher.Run.onlyStorable {d : Dispatcher σ τ} (hk : d.configdb.Keeps holds)
    {w w' : Dispatcher.World σ τ} {steps : List (Node.Input × List Event)} (h : d.Run w steps w')
    (hw : OnlyStorable holds w.configdb) : OnlyStorable holds w'.configdb := by
  induction h with
  | nil => exact hw
  | cons hstep _ ih =>
    refine ih ?_
    rcases d.handle_configdb _ hstep with he | ⟨v, r, ha⟩
    · exact he ▸ hw
    · exact ConfigDB.addr_keeps hk ha hw

theorem Node.headersLoop_keeps {n : Node τ} (hi : n.db.InsertKeeps holds) {fuel : Nat}
    {headers : List LoneBlockHeader} {acc acc' : Node.HeadersTx τ} (h : n.headersLoop fuel headers acc = .next acc')
    {a : Address} (ha : holds acc'.tx a) : holds acc.tx a := by
  induction headers generalizing acc with
  | nil =>
    cases h
    exact ha
  | cons header headers ih =>
    unfold Node.headersLoop at h
    split at h
    · rcases Node.headerStep_tx ‹_› with he | ⟨_, hins⟩
      · exact he ▸ ih h
      · exact hi _ _ _ _ _ hins (ih h)
    · cases h
    · cases h

theorem Node.Run.onlyStorable {n : Node τ} (hk : n.db.Keeps holds) (hi : n.db.InsertKeeps holds)
    {w w' : Node.World τ} {steps : List (Node.Input × List Event)} (h : n.Run w steps w')
    (hw : OnlyStorable holds w.db) : OnlyStorable holds w'.db := by
  induction h with
  | nil => exact hw
  | cons hstep _ ih =>
    refine ih ?_
    rcases Node.handle_db hstep with he | ⟨v, r, ha⟩ | ⟨_, tx, acc, htx, hloop, hc⟩
    · exact he ▸ hw
    · exact ConfigDB.addr_keeps hk ha hw
    · exact fun a ha => hw a (hk.transaction htx (Node.headersLoop_keeps hi hloop (hk.commit hc ha)))

-- The outcome §4.4 asks of `addr` on the world `w`, given the world its transaction's commit left.
def addrOutcome {ω : Type} (v : List (UInt32 × Address)) (now : UInt32) (w : ω) : Except SPVError ω → Outcome ω
  | .ok w' => ⟨.ok (if v.filter (ConfigDB.interesting now) = [] then .Ignored else .Ack), w', []⟩
  | .error e => ⟨.error e, w, []⟩

section Handlers

variable (v : List (UInt32 × Address)) {now : UInt32} (hnow : 5400 ≤ now.toNat)
include hnow

theorem Dispatcher.addr_eq (d : Dispatcher σ τ) (peer : PeerId) (w : Dispatcher.World σ τ) :
    d.addr v peer now w =
      addrOutcome v now w ((d.configdb.storeInteresting v now w.configdb).map ({ w with configdb := · })) := by
  rw [Dispatcher.addr, ConfigDB.addr_eq _ hnow]
  cases d.configdb.storeInteresting v now w.configdb <;> rfl

theorem Node.addr_eq (n : Node τ) (peer : PeerId) (w : Node.World τ) :
    n.addr v peer now w = addrOutcome v now w ((n.db.storeInteresting v now w.db).map ({ w with db := · })) := by
  rw [Node.addr, ConfigDB.addr_eq _ hnow]
  cases n.db.storeInteresting v now w.db <;> rfl

end Handlers

-- From 5400 s into the epoch on, `addr` of either module fails with nothing committed, or commits
-- one transaction holding `store_peer(a, ts, 0)` for the interesting entries, in order, and returns
-- `Ack` when there was one; so no run stores a record that is not storable.
theorem addr_commits_interesting (v : List (UInt32 × Address)) (now : UInt32) (hnow : 5400 ≤ now.toNat) :
    (∀ (d : Dispatcher σ τ) peer w, d.addr v peer now w =
      addrOutcome v now w ((d.configdb.storeInteresting v now w.configdb).map ({ w with configdb := · }))) ∧
    (∀ (n : Node τ) peer w, n.addr v peer now w =
      addrOutcome v now w ((n.db.storeInteresting v now w.db).map ({ w with db := · }))) ∧
    (∀ (d : Dispatcher σ τ) (holds : τ → Address → Prop), d.configdb.Keeps holds →
      ∀ w steps w', d.Run w steps w' → OnlyStorable holds w.configdb → OnlyStorable holds w'.configdb) ∧
    ∀ (n : Node τ) (holds : τ → Address → Prop), n.db.Keeps holds → n.db.InsertKeeps holds →
      ∀ w steps w', n.Run w steps w' → OnlyStorable holds w.db → OnlyStorable holds w'.db :=
  ⟨Dispatcher.addr_eq v hnow, Node.addr_eq v hnow, fun _ _ hk _ _ _ h hw => Dispatcher.Run.onlyStorable hk h hw,
    fun _ _ hk hi _ _ _ h hw => Node.Run.onlyStorable hk hi h hw⟩

-- A store that keeps the address records it is given, in the order `store_peer` got them, and
-- nothing else: it keeps what it holds, and so does `insert_header`.
def peerBook : ConfigDB (List Address) where
  transaction s := .ok s
  commit s := .ok s
  initNode s := .ok s
  getTip _ := .ok none
  insertHeader s _ := .ok (false, s)
  getHeader _ _ := none
  isOnTrunk _ _ := false
  storeBlock s _ := .ok s
  locatorHashes _ := []
  storePeer s a _ _ := .ok (s ++ [a])
  getAPeer _ _ := .error .StoreError

theorem peerBook_keeps : peerBook.Keeps fun s a => a ∈ s where
  transaction h ha := by cases h; exact ha
  commit h ha := by cases h; exact ha
  storePeer h ha := by
    cases h
    simpa using ha

theorem peerBook_insertKeeps : peerBook.InsertKeeps fun s a => a ∈ s := by
  rintro tx tx' h stored a ⟨⟩ ha
  exact ha

-- The address store of a dispatcher and of a node keeps, of an `Addr` message with a fresh full
-- node, a stale one and a fresh node without NODE_WITNESS, only the first.
theorem addr_commits_interesting_fresh :
    5400 ≤ (10000 : UInt32).toNat ∧
    ((∀ (d : Dispatcher MemStore MemStore) peer w, d.addr [(9000, ⟨9, [1], 8333⟩)] peer 10000 w =
      addrOutcome [(9000, ⟨9, [1], 8333⟩)] 10000 w
        ((d.configdb.storeInteresting [(9000, ⟨9, [1], 8333⟩)] 10000 w.configdb).map ({ w with configdb := · }))) ∧
    (∀ (n : Node MemStore) peer w, n.addr [(9000, ⟨9, [1], 8333⟩)] peer 10000 w =
      addrOutcome [(9000, ⟨9, [1], 8333⟩)] 10000 w
        ((n.db.storeInteresting [(9000, ⟨9, [1], 8333⟩)] 10000 w.db).map ({ w with db := · }))) ∧
    (∀ (d : Dispatcher MemStore MemStore) (holds : MemStore → Address → Prop), d.configdb.Keeps holds →
      ∀ w steps w', d.Run w steps w' → OnlyStorable holds w.configdb → OnlyStorable holds w'.configdb) ∧
    (∀ (n : Node MemStore) (holds : MemStore → Address → Prop), n.db.Keeps holds → n.db.InsertKeeps holds →
      ∀ w steps w', n.Run w steps w' → OnlyStorable holds w.db → OnlyStorable holds w'.db)) ∧
    (∀ (d : Dispatcher MemStore (List Address)) (holds : List Address → Address → Prop), d.configdb.Keeps holds →
      ∀ w steps w', d.Run w steps w' → OnlyStorable holds w.configdb → OnlyStorable holds w'.configdb) ∧
    (∀ (n : Node (List Address)) (holds : List Address → Address → Prop), n.db.Keeps holds →
      n.db.InsertKeeps holds → ∀ w steps w', n.Run w steps w' → OnlyStorable holds w.db → OnlyStorable holds w'.db) ∧
    (⟨MemStore.chainDB, peerBook, PeerMap.empty⟩ : Dispatcher MemStore (List Address)).Run ⟨MemStore.chain, []⟩
      [(.process (.Addr [(9000, ⟨9, [1], 8333⟩), (0, ⟨9, [2], 8333⟩), (9000, ⟨1, [4], 8333⟩)]) 7, [])]
      ⟨MemStore.chain, [⟨9, [1], 8333⟩]⟩ ∧
    (Node.mk peerBook PeerMap.empty MemStore.hash).Run ⟨[], []⟩
      [(.process (.Addr [(9000, ⟨9, [1], 8333⟩), (0, ⟨9, [2], 8333⟩), (9000, ⟨1, [4], 8333⟩)]) 7, [])]
      ⟨[⟨9, [1], 8333⟩], []⟩ ∧
    OnlyStorable (fun s a => a ∈ s) [(⟨9, [1], 8333⟩ : Address)] :=
  have hnow : 5400 ≤ (10000 : UInt32).toNat := by decide
  have hrun : (⟨MemStore.chainDB, peerBook, PeerMap.empty⟩ : Dispatcher MemStore (List Address)).Run
      ⟨MemStore.chain, []⟩ [(.process (.Addr [(9000, ⟨9, [1], 8333⟩), (0, ⟨9, [2], 8333⟩), (9000, ⟨1, [4], 8333⟩)]) 7, [])]
      ⟨MemStore.chain, [⟨9, [1], 8333⟩]⟩ :=
    @Dispatcher.Run.cons _ _ _ _ _ 10000 _ ⟨.ok .Ack, ⟨MemStore.chain, [⟨9, [1], 8333⟩]⟩, []⟩ _ (by decide) (.nil _)
  have hrun' : (Node.mk peerBook PeerMap.empty MemStore.hash).Run ⟨[], []⟩
      [(.process (.Addr [(9000, ⟨9, [1], 8333⟩), (0, ⟨9, [2], 8333⟩), (9000, ⟨1, [4], 8333⟩)]) 7, [])]
      ⟨[⟨9, [1], 8333⟩], []⟩ :=
    @Node.Run.cons _ _ _ _ 0 10000 _ ⟨.ok .Ack, ⟨[⟨9, [1], 8333⟩], []⟩, []⟩ _ (by decide) (.nil _)
  ⟨hnow, addr_commits_interesting _ _ hnow, (addr_commits_interesting [] _ hnow).2.2.1,
    (@addr_commits_interesting MemStore _ [] _ hnow).2.2.2, hrun, hrun',
    (addr_commits_interesting [] _ hnow).2.2.1 _ _ peerBook_keeps _ _ _ hrun (List.forall_mem_nil _)⟩

-- §9's address example at `now` = 10000: of a fresh routable full node, a stale one, a fresh Tor
-- address and a fresh node without NODE_WITNESS, only the first is stored.
example : [(9000, ⟨9, [1], 8333⟩), (0, ⟨9, [2], 8333⟩), (9000, ⟨9, ONION ++ [1], 8333⟩),
    (9000, ⟨1, [4], 8333⟩)].filter (ConfigDB.interesting 10000) = [(9000, ⟨9, [1], 8333⟩)] := by
  decide

end Murmel
