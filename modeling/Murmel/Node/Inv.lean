import Murmel.Node.Queue

namespace Murmel.Node

variable {τ : Type} (n : Node τ) (peer : PeerId) (w : World τ)

-- With transactions on the store failing, the loop of `inv` fails at its first block entry.
theorem inv_go_error {e : SPVError} (htx : n.db.transaction w.db = .error e) (v : List Inventory) (ask : Bool) :
    inv.go n peer w v ask =
      match v with
      | [] => inv.go n peer w [] ask
      | i :: _ => if i.invType == .Block then ⟨.error e, w, []⟩ else ⟨.ok (.Ban 10), w, []⟩ := by
  cases v with
  | nil => rfl
  | cons i v => by_cases h : i.invType = .Block <;> simp [inv.go, h, htx]

-- With transactions succeeding, the loop returns at its first entry that is not a block; before
-- it, it only notes whether some announced hash is unknown to the transaction.
theorem inv_go_ok {tx : τ} (htx : n.db.transaction w.db = .ok tx) (v : List Inventory) (ask : Bool) :
    inv.go n peer w v ask =
      if v.all (·.invType == .Block) then inv.go n peer w [] (ask || v.any fun i => (n.db.getHeader tx i.hash).isNone)
      else ⟨.ok (.Ban 10), w, []⟩ := by
  induction v generalizing ask with
  | nil => simp
  | cons i v ih =>
    by_cases h : i.invType = .Block
    · simp [inv.go, h, htx, ih, Bool.or_assoc]
    · simp [inv.go, h]

-- `get_headers` leaves the node as it was: its `download_blocks` has nothing to add.
theorem getHeaders_world : (n.getHeaders peer w).2.1 = w :=
  (n.getHeaders_spec peer w).1

theorem inv_go_nil (ask : Bool) :
    inv.go n peer w [] ask =
      if ask then ⟨(n.getHeaders peer w).1.map fun _ => .Ack, w, (n.getHeaders peer w).2.2⟩
      else ⟨.ok .Ignored, w, []⟩ := by
  have hw := n.getHeaders_world peer w
  unfold inv.go
  split
  · rcases h : n.getHeaders peer w with ⟨_ | _, w', es⟩ <;> rw [h] at hw <;> (dsimp only at hw; subst hw; rfl)
  · rfl

theorem inv_eq_error {e : SPVError} (htx : n.db.transaction w.db = .error e) (v : List Inventory) :
    n.inv v peer w = match v with
      | [] => ⟨.ok .Ignored, w, []⟩
      | i :: _ => if i.invType == .Block then ⟨.error e, w, []⟩ else ⟨.ok (.Ban 10), w, []⟩ := by
  rw [inv, inv_go_error n peer w htx]
  cases v <;> rfl

theorem inv_eq_ok {tx : τ} (htx : n.db.transaction w.db = .ok tx) (v : List Inventory) :
    n.inv v peer w =
      if v.all (·.invType == .Block) then
        if v.any (fun i => (n.db.getHeader tx i.hash).isNone) then
          ⟨(n.getHeaders peer w).1.map fun _ => .Ack, w, (n.getHeaders peer w).2.2⟩
        else ⟨.ok .Ignored, w, []⟩
      else ⟨.ok (.Ban 10), w, []⟩ := by
  rw [inv, inv_go_ok n peer w htx, inv_go_nil, Bool.false_or]

-- What `inv` passes on from `get_headers` is `Ack` or a failure, never a ban or `Ignored`.
theorem map_ack_ne (r : Except SPVError ProcessResult) (p : ProcessResult) (hp : p ≠ .Ack) :
    r.map (fun _ => ProcessResult.Ack) ≠ .ok p := by
  cases r <;> simp [Except.map, Ne.symm hp]

-- `Node::inv` changes nothing and opens a transaction for each block entry, which it drops. When
-- transactions fail, it fails at the first entry if that is a block and bans otherwise. When they
-- succeed, it bans by 10 exactly when some entry is not a block, answers `Ignored` sending nothing
-- exactly when every hash is known, and otherwise passes on what `get_headers` did: asking for the
-- front of the download queue if a block is queued, for headers if not.
theorem inv_answers (v : List Inventory) :
    (n.inv v peer w).world = w ∧
    (∀ e, n.db.transaction w.db = .error e →
      n.inv v peer w = match v with
        | [] => ⟨.ok .Ignored, w, []⟩
        | i :: _ => if i.invType == .Block then ⟨.error e, w, []⟩ else ⟨.ok (.Ban 10), w, []⟩) ∧
    ∀ tx, n.db.transaction w.db = .ok tx →
      ((n.inv v peer w).result = .ok (.Ban 10) ∧ (n.inv v peer w).events = [] ↔ ∃ i ∈ v, i.invType ≠ .Block) ∧
      ((∀ i ∈ v, i.invType = .Block) →
        ((∃ i ∈ v, n.db.getHeader tx i.hash = none) →
          (n.inv v peer w).result = (n.getHeaders peer w).1.map (fun _ => .Ack) ∧
          (n.inv v peer w).events = (n.getHeaders peer w).2.2) ∧
        ((n.inv v peer w).result = .ok .Ignored ∧ (n.inv v peer w).events = [] ↔
          ∀ i ∈ v, (n.db.getHeader tx i.hash).isSome)) := by
  refine ⟨?_, fun e htx => inv_eq_error n peer w htx v, fun tx htx => ?_⟩
  · rcases htx : n.db.transaction w.db with e | tx
    · rw [inv_eq_error n peer w htx]
      cases v with
      | nil => rfl
      | cons i v => dsimp only; split <;> rfl
    · rw [inv_eq_ok n peer w htx]
      split
      · split <;> rfl
      · rfl
  rw [inv_eq_ok n peer w htx]
  by_cases hb : v.all (·.invType == .Block)
  · have hb' : ¬∃ i ∈ v, i.invType ≠ .Block := by simpa using hb
    by_cases hu : v.any fun i => (n.db.getHeader tx i.hash).isNone
    · have hu' : ¬∀ i ∈ v, (n.db.getHeader tx i.hash).isSome := by simpa using hu
      rw [if_pos hb, if_pos hu]
      exact ⟨by simp [hb', map_ack_ne _ (.Ban 10) nofun], fun _ => ⟨fun _ => ⟨rfl, rfl⟩,
        by simp [hu', map_ack_ne _ .Ignored nofun]⟩⟩
    · have hu' : ∀ i ∈ v, (n.db.getHeader tx i.hash).isSome := by simpa [Option.isSome_iff_ne_none] using hu
      rw [if_pos hb, if_neg hu]
      exact ⟨by simp [hb'], fun _ => ⟨fun ⟨i, hi, hn⟩ => absurd (hu' i hi) (by simp [hn]), iff_of_true ⟨rfl, rfl⟩ hu'⟩⟩
  · have hb' : ∃ i ∈ v, i.invType ≠ .Block := by simpa using hb
    rw [if_neg hb]
    exact ⟨by simp [hb'], fun h => absurd h (by simpa using hb')⟩

end Murmel.Node
