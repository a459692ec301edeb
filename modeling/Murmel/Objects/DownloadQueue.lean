import Murmel.Objects.Message

namespace Murmel.DownloadQueue

-- `download_blocks`: skip the blocks up to the first one that is not queued yet, append the rest.
def enqueue (dq blocks : List Sha256dHash) : List Sha256dHash :=
  match blocks.findIdx? (fun b => !dq.any (· == b)) with
  | some newBlocks => dq ++ blocks.drop newBlocks
  | none => dq

-- `Node::block`: pop the front, and push it back unless it is the delivered block.
def popIf (dq : List Sha256dHash) (hash : Sha256dHash) : List Sha256dHash :=
  match dq with
  | [] => []
  | expected :: rest => if expected != hash then expected :: rest else rest

inductive Op
  | enqueue (blocks : List Sha256dHash)
  | popIf (hash : Sha256dHash)
  deriving DecidableEq, Repr

def Op.apply : Op → List Sha256dHash → List Sha256dHash
  | .enqueue blocks, dq => DownloadQueue.enqueue dq blocks
  | .popIf hash, dq => DownloadQueue.popIf dq hash

def replay (dq : List Sha256dHash) (ops : List Op) : List Sha256dHash :=
  ops.foldl (fun dq op => op.apply dq) dq

variable {dq blocks : List Sha256dHash} {x hash : Sha256dHash}

theorem drop_findIdx?_not (p : Sha256dHash → Bool) (l : List Sha256dHash) :
    (match l.findIdx? (fun b => !p b) with
      | some i => l.drop i
      | none => []) = l.dropWhile p := by
  induction l with
  | nil => rfl
  | cons b l ih =>
    by_cases hb : p b
    · simp only [List.findIdx?_cons, hb, Bool.not_true, List.findIdx?_start_succ,
        List.dropWhile_cons_of_pos hb, ← ih]
      cases l.findIdx? (fun b => !p b) <;> rfl
    · simp [hb]

theorem enqueue_eq : enqueue dq blocks = dq ++ blocks.dropWhile (fun b => dq.any (· == b)) := by
  rw [← drop_findIdx?_not]
  unfold enqueue
  split <;> simp_all

theorem mem_of_mem_takeWhile (h : x ∈ blocks.takeWhile (fun b => dq.any (· == b))) : x ∈ dq := by
  simpa using List.mem_takeWhile_imp h

@[simp] theorem mem_enqueue : x ∈ enqueue dq blocks ↔ x ∈ dq ∨ x ∈ blocks := by
  rw [enqueue_eq, List.mem_append]
  constructor
  · exact Or.imp_right fun h => List.dropWhile_subset _ h
  · rintro (h | h)
    · exact .inl h
    · rw [← List.takeWhile_append_dropWhile (fun b => dq.any (· == b)) blocks,
        List.mem_append] at h
      exact h.imp_left mem_of_mem_takeWhile

-- `download_blocks` appends a suffix of its argument.
theorem enqueue_eq_append_drop : ∃ k, enqueue dq blocks = dq ++ blocks.drop k := by
  unfold enqueue
  split
  · exact ⟨_, rfl⟩
  · exact ⟨blocks.length, by simp⟩

-- `download_blocks` leaves the queue as it was exactly when every block is queued already.
theorem enqueue_eq_self_iff : enqueue dq blocks = dq ↔ ∀ b ∈ blocks, b ∈ dq := by
  rw [enqueue_eq, List.append_right_eq_self, List.dropWhile_eq_nil_iff]
  simp

theorem popIf_eq : popIf dq hash = if dq.head? = some hash then dq.tail else dq := by
  cases dq with
  | nil => rfl
  | cons e rest => by_cases h : e = hash <;> simp [popIf, h]

theorem mem_popIf (h : x ∈ dq) (hx : x ≠ hash) : x ∈ popIf dq hash := by
  cases dq with
  | nil => exact h
  | cons e rest =>
    by_cases he : e = hash
    · subst he
      simpa [popIf, hx] using h
    · simpa [popIf, he] using h

theorem Op.mem_apply {op : Op} (h : x ∈ dq) (hop : op ≠ .popIf x) : x ∈ op.apply dq := by
  cases op with
  | enqueue blocks => exact mem_enqueue.mpr (.inl h)
  | popIf hash => exact mem_popIf h fun hx => hop (hx ▸ rfl)

theorem Op.apply_eq_drop_append (op : Op) (dq : List Sha256dHash) :
    ∃ k new, op.apply dq = dq.drop k ++ new := by
  cases op with
  | enqueue blocks => exact ⟨0, _, enqueue_eq⟩
  | popIf hash =>
    rw [Op.apply, popIf_eq]
    split
    · exact ⟨1, [], by simp [List.drop_one]⟩
    · exact ⟨0, [], by simp⟩

@[simp] theorem replay_nil : replay dq [] = dq := rfl

@[simp] theorem replay_append (ops ops' : List Op) :
    replay dq (ops ++ ops') = replay (replay dq ops) ops' :=
  List.foldl_append _ _ _ _

@[simp] theorem replay_cons (op : Op) (ops : List Op) :
    replay dq (op :: ops) = replay (op.apply dq) ops := rfl

theorem mem_replay {ops : List Op} (h : x ∈ dq) (hops : .popIf x ∉ ops) : x ∈ replay dq ops := by
  induction ops generalizing dq with
  | nil => exact h
  | cons op ops ih =>
    simp only [List.mem_cons, not_or] at hops
    exact ih (Op.mem_apply h (Ne.symm hops.1)) hops.2

theorem replay_eq_drop_append (dq : List Sha256dHash) (ops : List Op) :
    ∃ k new, replay dq ops = dq.drop k ++ new := by
  induction ops generalizing dq with
  | nil => exact ⟨0, [], by simp⟩
  | cons op ops ih =>
    obtain ⟨k, new, hk⟩ := op.apply_eq_drop_append dq
    obtain ⟨k', new', hk'⟩ := ih (op.apply dq)
    refine ⟨k + k', new.drop (k' - (dq.drop k).length) ++ new', ?_⟩
    rw [replay_cons, hk', hk, List.drop_append_eq_append_drop, List.drop_drop, List.append_assoc]

end Murmel.DownloadQueue
