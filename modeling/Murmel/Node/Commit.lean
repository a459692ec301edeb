import Murmel.Node.Queue

namespace Murmel.Node

variable {τ : Type} (n : Node τ)

-- `branch` holds the headers from `tip` down to the first one on the trunk of `tx`, tip first.
inductive OldBranch (tx : τ) : Sha256dHash → List BlockHeader → Prop
  | fork {tip : Sha256dHash} (h : n.db.isOnTrunk tx tip = true) : OldBranch tx tip []
  | cons {tip : Sha256dHash} {stored : StoredHeader} {branch : List BlockHeader}
      (h : n.db.isOnTrunk tx tip = false) (hs : n.db.getHeader tx tip = some stored)
      (rest : OldBranch tx stored.header.prevBlockhash branch) : OldBranch tx tip (stored.header :: branch)

variable {n} {tx : τ}

-- The walk ends once it has more rounds than the old branch has headers.
theorem unwind_of_oldBranch {tip : Sha256dHash} {branch : List BlockHeader} (hb : n.OldBranch tx tip branch)
    {fuel : Nat} (hf : branch.length < fuel) (acc : List BlockHeader) :
    n.unwind tx fuel tip acc = some (acc ++ branch) := by
  induction hb generalizing fuel acc with
  | fork h =>
    obtain ⟨fuel, rfl⟩ := Nat.exists_eq_succ_of_ne_zero (Nat.pos_iff_ne_zero.mp hf)
    simp [unwind, h]
  | cons h hs _ ih =>
    obtain ⟨fuel, rfl⟩ := Nat.exists_eq_succ_of_ne_zero (Nat.pos_iff_ne_zero.mp (Nat.lt_of_le_of_lt (Nat.zero_le _) hf))
    simp only [unwind, h, hs, Bool.not_false, if_true]
    rw [ih (Nat.lt_of_succ_lt_succ hf)]
    simp

theorem downloadBlocks_world_db {peer : PeerId} {blocks : List Sha256dHash} {w w' : World τ}
    {r : Except SPVError Bool} {sent : List Event} (h : n.downloadBlocks peer blocks w = (r, w', sent)) :
    w'.db = w.db := by
  have hdb := congrArg World.db (n.downloadBlocks_spec peer blocks w).1
  rw [h] at hdb
  exact hdb

theorem getHeaders_world_db {peer : PeerId} {w w' : World τ} {r : Except SPVError ProcessResult}
    {sent : List Event} (h : n.getHeaders peer w = (r, w', sent)) : w'.db = w.db := by
  rw [← n.getHeaders_db peer w, h]

-- `block` never commits: the transaction holding `store_block` goes out of scope.
theorem block_db (b : Block) (peer : PeerId) (w : World τ) : (n.block b peer w).world.db = w.db := by
  unfold block
  split
  · rfl
  · split
    · rfl
    · dsimp only
      split <;> exact (getHeaders_world_db ‹_› :)

theorem inv_db (v : List Inventory) (peer : PeerId) (w : World τ) : (n.inv v peer w).world.db = w.db := by
  suffices ∀ ask, (inv.go n peer w v ask).world.db = w.db from this false
  induction v with
  | nil =>
    intro ask
    unfold inv.go
    split
    · split <;> exact getHeaders_world_db ‹_›
    · rfl
  | cons i v ih =>
    intro ask
    unfold inv.go
    split
    · split
      · rfl
      · exact ih _
    · rfl

theorem notifyAndAsk_db (peer : PeerId) (height : UInt32) (acc : HeadersTx τ) (w : World τ) (events : List Event) :
    (n.notifyAndAsk peer height acc w events).world.db = w.db := by
  unfold notifyAndAsk
  dsimp only
  split
  · split <;> exact getHeaders_world_db ‹_›
  · rfl

-- A round of `headers`' loop leaves the transaction as it was or as one `insert_header` left it.
theorem headerStep_tx {fuel : Nat} {header : LoneBlockHeader} {acc acc' : HeadersTx τ}
    (h : n.headerStep fuel header acc = .next acc') :
    acc'.tx = acc.tx ∨ ∃ stored, n.db.insertHeader acc.tx header.header = .ok (stored, acc'.tx) := by
  unfold headerStep at h
  dsimp only at h
  repeat' split at h
  all_goals cases h
  all_goals first | exact .inl rfl | exact .inr ⟨_, ‹_›⟩

-- `headers` commits nothing, or the transaction its loop of `insert_header` calls left.
theorem headers_db {fuel : Nat} {headers : List LoneBlockHeader} {peer : PeerId} {w : World τ}
    {o : Outcome (World τ)} (h : n.headers fuel headers peer w = some o) :
    o.world.db = w.db ∨ ∃ tx acc, n.db.transaction w.db = .ok tx ∧
      n.headersLoop fuel headers ⟨tx, [], [], false, false⟩ = .next acc ∧ n.db.commit acc.tx = .ok o.world.db := by
  unfold Node.headers at h
  repeat' split at h
  all_goals cases h
  all_goals first
    | exact .inl rfl
    | refine .inr ⟨_, _, ‹_›, ‹_›, ?_⟩
  all_goals dsimp only
  all_goals try rw [notifyAndAsk_db]
  all_goals try rw [downloadBlocks_world_db ‹n.downloadBlocks _ _ _ = _›]
  all_goals assumption

-- What a handler call commits: nothing, the transaction of an `addr`, or the transaction of
-- `headers` after its loop of `insert_header` calls.
theorem handle_db {fuel : Nat} {now : UInt32} {i : Input} {w : World τ} {o : Outcome (World τ)}
    (h : n.handle fuel now i w = some o) :
    o.world.db = w.db ∨ (∃ v r, n.db.addr v now w.db = .ok (r, o.world.db)) ∨
      ∃ headers tx acc, n.db.transaction w.db = .ok tx ∧
        n.headersLoop fuel headers ⟨tx, [], [], false, false⟩ = .next acc ∧ n.db.commit acc.tx = .ok o.world.db := by
  unfold handle at h
  split at h
  · cases h
    exact .inl (by unfold connected; split <;> exact (getHeaders_world_db ‹_› :))
  · cases h; exact .inl rfl
  · unfold process at h
    split at h
    · cases h; exact .inl rfl
    · exact (headers_db h).imp_right fun ⟨tx, acc, h⟩ => .inr ⟨_, tx, acc, h⟩
    · cases h; exact .inl (block_db _ _ _)
    · cases h; exact .inl (inv_db _ _ _)
    · cases h
      unfold addr
      split
      · exact .inr (.inl ⟨_, _, ‹_›⟩)
      · exact .inl rfl
    · cases h; exact .inl rfl

-- Only a `Headers` or an `Addr` message commits: every other call leaves the store as it was.
theorem handle_db_frame {fuel : Nat} {now : UInt32} {i : Input} {w : World τ} {o : Outcome (World τ)}
    (h : n.handle fuel now i w = some o) (hh : i.isHeaders = false) (ha : i.isAddr = false) : o.world.db = w.db := by
  unfold handle at h
  split at h
  · cases h
    unfold connected
    split <;> exact (getHeaders_world_db ‹_› :)
  · cases h; rfl
  · unfold process at h
    split at h
    · cases h; rfl
    · cases hh
    · cases h; exact block_db _ _ _
    · cases h; exact inv_db _ _ _
    · cases ha
    · cases h; rfl

-- Over any run of the node, its store changes only at `Headers` and `Addr` messages: connecting,
-- pings, inventories and blocks never write it, so no delivered block is ever stored.
theorem Run.db_frame {w w' : World τ} {steps : List (Input × List Event)} (h : n.Run w steps w')
    (hs : ∀ s ∈ steps, s.1.isHeaders = false ∧ s.1.isAddr = false) : w'.db = w.db := by
  induction h with
  | nil => rfl
  | cons hstep _ ih =>
    rw [List.forall_mem_cons] at hs
    exact (ih hs.2).trans (handle_db_frame hstep hs.1.1 hs.1.2)

-- A delivered block leaves the store as it was.
open MemStore in
theorem db_frame_block :
    (Node.mk configDB ⟨[(7, ⟨false⟩)], by decide⟩ hash).Run
      ⟨{ chain with headers := chain.headers ++ [(4, ⟨header 3 4, 3⟩)], tip := 4 }, [4]⟩
      [(.process (.Block ⟨header 3 4⟩) 7,
        [.queue (.popIf 4), .queue (.enqueue []), .send 7 (.GetHeaders ⟨[4, 3, 2, 1], 4⟩)])]
      ⟨{ chain with headers := chain.headers ++ [(4, ⟨header 3 4, 3⟩)], tip := 4 }, []⟩ ∧
    (∀ s ∈ [((.process (.Block ⟨header 3 4⟩) 7 : Input),
        ([.queue (.popIf 4), .queue (.enqueue []), .send 7 (.GetHeaders ⟨[4, 3, 2, 1], 4⟩)] : List Event))],
      s.1.isHeaders = false ∧ s.1.isAddr = false) ∧
    ({ chain with headers := chain.headers ++ [(4, ⟨header 3 4, 3⟩)], tip := 4 } : MemStore) =
      { chain with headers := chain.headers ++ [(4, ⟨header 3 4, 3⟩)], tip := 4 } := by
  refine (fun hrun hs => ⟨hrun, hs, Run.db_frame hrun hs⟩) ?_ (by decide)
  exact @Run.cons _ _ _ _ 1 0 _
    ⟨.ok .Ack, ⟨{ chain with headers := chain.headers ++ [(4, ⟨header 3 4, 3⟩)], tip := 4 }, []⟩,
      [.queue (.popIf 4), .queue (.enqueue []), .send 7 (.GetHeaders ⟨[4, 3, 2, 1], 4⟩)]⟩ _ (by decide) (.nil _)

open MemStore in
theorem block_pops_uncommitted :
    (Node.mk configDB ⟨[(7, ⟨false⟩)], by decide⟩ hash).block ⟨header 3 4⟩ 7
      ⟨{ chain with headers := chain.headers ++ [(4, ⟨header 3 4, 3⟩)], tip := 4 }, [4]⟩ =
      ⟨.ok .Ack, ⟨{ chain with headers := chain.headers ++ [(4, ⟨header 3 4, 3⟩)], tip := 4 }, []⟩,
        [.queue (.popIf 4), .queue (.enqueue []), .send 7 (.GetHeaders ⟨[4, 3, 2, 1], 4⟩)]⟩ ∧
    chain.blocks = [] := by
  decide

-- With the peer gone, the `GetData` of `download_blocks` fails after the commit, and the headers
-- unwound by the reorg are never notified; a healthy peer gets them notified.
open MemStore in
theorem headers_send_failure_skips_notify :
    (Node.mk configDB ⟨[(7, ⟨true⟩)], by decide⟩ hash).headers 2 [⟨header 2 5⟩, ⟨header 5 6⟩] 7 ⟨chain, []⟩ =
      some ⟨.error SPVError.SendError,
        ⟨{ chain with headers := chain.headers ++ [(5, ⟨header 2 5, 2⟩), (6, ⟨header 5 6, 3⟩)], tip := 6 }, [3, 6]⟩,
        [.queue (.enqueue [3, 6]), .send 7 (.GetData [⟨.WitnessBlock, 3⟩])]⟩ ∧
    configDB.isOnTrunk { chain with headers := chain.headers ++ [(5, ⟨header 2 5, 2⟩), (6, ⟨header 5 6, 3⟩)], tip := 6 }
      3 = false ∧
    ((Node.mk configDB ⟨[(7, ⟨false⟩)], by decide⟩ hash).headers 2 [⟨header 2 5⟩, ⟨header 5 6⟩] 7
      ⟨chain, []⟩).map (·.events) = some [.queue (.enqueue [3, 6]), .send 7 (.GetData [⟨.WitnessBlock, 3⟩]),
        .blockDisconnected (header 2 3), .queue (.enqueue []), .send 7 (.GetData [⟨.WitnessBlock, 3⟩])] := by
  decide

end Murmel.Node
