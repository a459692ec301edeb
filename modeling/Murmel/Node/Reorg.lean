import Murmel.Node.Commit

namespace Murmel.Node

variable {τ : Type} (n : Node τ)

/-- The header tree of a store state as the reorg walk relies on it: a stored header off the trunk
has its parent stored, one lower. -/
structure HeaderTree (tx : τ) : Prop where
  parent : ∀ {x : Sha256dHash} {s : StoredHeader}, n.db.getHeader tx x = some s →
    n.db.isOnTrunk tx x = false →
    ∃ p, n.db.getHeader tx s.header.prevBlockhash = some p ∧ p.height.toNat + 1 = s.height.toNat

-- Where a walk from `tip` that collected `branch` stops: the parent of its last header.
def forkOf : Sha256dHash → List BlockHeader → Sha256dHash
  | tip, [] => tip
  | _, header :: branch => forkOf header.prevBlockhash branch

variable {n} {tx : τ}

-- Walking down from a stored header reaches the trunk, one height a header.
theorem HeaderTree.oldBranch (ht : n.HeaderTree tx) {tip : Sha256dHash} {s : StoredHeader}
    (hs : n.db.getHeader tx tip = some s) :
    ∃ branch fork, n.OldBranch tx tip branch ∧ n.db.getHeader tx (forkOf tip branch) = some fork ∧
      branch.length + fork.height.toNat = s.height.toNat := by
  generalize hk : s.height.toNat = k
  induction k generalizing tip s with
  | zero =>
    cases hon : n.db.isOnTrunk tx tip
    · obtain ⟨p, -, hp⟩ := ht.parent hs hon
      omega
    · exact ⟨[], s, .fork hon, hs, by simp [hk]⟩
  | succ k ih =>
    cases hon : n.db.isOnTrunk tx tip
    · obtain ⟨p, hp, hh⟩ := ht.parent hs hon
      obtain ⟨branch, fork, hb, hf, hl⟩ := ih hp (by omega)
      exact ⟨s.header :: branch, fork, .cons hon hs hb, hf, by simp only [List.length_cons]; omega⟩
    · exact ⟨[], s, .fork hon, hs, by simp [hk]⟩

-- With fewer rounds than the old branch has headers, the walk is still running.
theorem unwind_none_of_oldBranch {tip : Sha256dHash} {branch : List BlockHeader}
    (hb : n.OldBranch tx tip branch) {fuel : Nat} (hf : fuel ≤ branch.length) (acc : List BlockHeader) :
    n.unwind tx fuel tip acc = none := by
  induction hb generalizing fuel acc with
  | fork h => rw [Nat.le_zero.mp hf]; rfl
  | cons h hs _ ih =>
    cases fuel with
    | zero => rfl
    | succ fuel =>
      simp only [unwind, h, hs, Bool.not_false, if_true]
      exact ih (Nat.le_of_succ_le_succ hf) _

/-- In a header tree, the walk from a stored old tip takes one round per header of the old branch,
which runs from the old tip down to the fork with the trunk, and collects exactly that branch. So in
`headers`, a header whose insertion makes it the tip without extending the old one appends the old
branch to `disconnected_headers`, given a round of the walk per header of it. -/
theorem unwind_walks_old_branch (ht : n.HeaderTree tx) {oldTip : Sha256dHash} {old : StoredHeader}
    (hold : n.db.getHeader tx oldTip = some old) :
    ∃ branch fork, n.OldBranch tx oldTip branch ∧ n.db.getHeader tx (forkOf oldTip branch) = some fork ∧
      branch.length = old.height.toNat - fork.height.toNat ∧
      (∀ fuel ds, n.unwind tx fuel oldTip ds = if branch.length < fuel then some (ds ++ branch) else none) ∧
      ∀ fuel (header : LoneBlockHeader) (acc : HeadersTx τ) newTip stored,
        n.db.getTip acc.tx = .ok (some oldTip) → n.db.insertHeader acc.tx header.header = .ok (stored, tx) →
        n.db.getTip tx = .ok (some newTip) → n.bitcoinHash header.header = newTip →
        header.header.prevBlockhash ≠ oldTip →
        n.headerStep fuel header acc =
          if branch.length < fuel then
            .next { acc with
              tx
              tipMoved := acc.tipMoved || newTip != oldTip
              someNew := acc.someNew || stored
              disconnected := acc.disconnected ++ branch
              download := acc.download ++ [newTip] }
          else .diverge := by
  obtain ⟨branch, fork, hb, hf, hl⟩ := ht.oldBranch hold
  have hunwind : ∀ fuel ds, n.unwind tx fuel oldTip ds = if branch.length < fuel then some (ds ++ branch) else none :=
    fun fuel ds => by
      split
      · exact unwind_of_oldBranch hb ‹_› ds
      · exact unwind_none_of_oldBranch hb (Nat.le_of_not_lt ‹_›) ds
  refine ⟨branch, fork, hb, hf, by omega, hunwind, fun fuel header acc newTip stored htip hins hnew hhash hext => ?_⟩
  simp only [headerStep, htip, hins, hnew, hhash, beq_self_eq_true, Bool.true_and, bne_iff_ne, ne_eq, hext,
    not_false_eq_true, decide_True, if_true, hunwind]
  by_cases hfuel : branch.length < fuel <;> simp only [hfuel, if_true, if_false]

-- A `MemStore` whose headers off the trunk have their parents stored one lower is a header tree.
theorem headerTree_memStore {s : MemStore} (peers : PeerMap) (bitcoinHash : BlockHeader → Sha256dHash)
    (h : s.headers.all fun e =>
      s.trunk.contains e.1 || (s.get e.2.header.prevBlockhash).any (·.height.toNat + 1 == e.2.height.toNat)) :
    (Node.mk MemStore.configDB peers bitcoinHash).HeaderTree s where
  parent {x st} hget hoff := by
    obtain ⟨l₁, l₂, hl, -⟩ := List.lookup_eq_some_iff.mp hget
    have hx := List.all_eq_true.mp h (x, st) (hl ▸ List.mem_append_right _ (List.mem_cons_self _ _))
    rw [show s.trunk.contains x = false from hoff, Bool.false_or] at hx
    cases hp : s.get st.header.prevBlockhash with
    | none => simp [hp] at hx
    | some p => exact ⟨p, hp, by simpa [hp] using hx⟩

open MemStore in
theorem unwind_walks_old_branch_forked :
    (Node.mk configDB PeerMap.empty hash).HeaderTree forked ∧ configDB.getHeader forked 3 = some ⟨header 2 3, 2⟩ ∧
    ∃ branch fork, (Node.mk configDB PeerMap.empty hash).OldBranch forked 3 branch ∧
      configDB.getHeader forked (forkOf 3 branch) = some fork ∧
      branch.length = (2 : UInt32).toNat - fork.height.toNat ∧
      (∀ fuel ds, (Node.mk configDB PeerMap.empty hash).unwind forked fuel 3 ds =
        if branch.length < fuel then some (ds ++ branch) else none) ∧
      ∀ fuel (header : LoneBlockHeader) (acc : HeadersTx MemStore) newTip stored,
        configDB.getTip acc.tx = .ok (some 3) → configDB.insertHeader acc.tx header.header = .ok (stored, forked) →
        configDB.getTip forked = .ok (some newTip) → MemStore.hash header.header = newTip →
        header.header.prevBlockhash ≠ 3 →
        (Node.mk configDB PeerMap.empty hash).headerStep fuel header acc =
          if branch.length < fuel then
            .next { acc with
              tx := forked
              tipMoved := acc.tipMoved || newTip != 3
              someNew := acc.someNew || stored
              disconnected := acc.disconnected ++ branch
              download := acc.download ++ [newTip] }
          else .diverge :=
  have ht : (Node.mk configDB PeerMap.empty hash).HeaderTree forked :=
    headerTree_memStore PeerMap.empty hash (by decide)
  have hold : configDB.getHeader forked 3 = some ⟨header 2 3, 2⟩ := by decide
  ⟨ht, hold, unwind_walks_old_branch ht hold⟩

-- There the old branch is 3 alone: one round of the walk and its last check; inserting 6 on top
-- of 5 is such a reorg, which hands 3 on to be disconnected.
open MemStore in
example : (Node.mk configDB PeerMap.empty hash).unwind forked 2 3 [] = some [header 2 3] ∧
    (Node.mk configDB PeerMap.empty hash).unwind forked 1 3 [] = none ∧
    (Node.mk configDB PeerMap.empty hash).headerStep 2 ⟨header 5 6⟩
        ⟨{ chain with headers := chain.headers ++ [(5, ⟨header 2 5, 2⟩)] }, [], [], false, false⟩ =
      .next ⟨forked, [header 2 3], [6], true, true⟩ := by
  decide

end Murmel.Node
