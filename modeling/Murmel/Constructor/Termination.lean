import Murmel.Constructor.Poll

namespace Murmel.KeepConnected

-- The stored records whose socket address was not dialled yet.
def untried (stored : List Address) (earlier : List SocketAddr) : List Address :=
  stored.filter fun a => match a.socketAddr with
    | .ok sock => decide (sock ∉ earlier)
    | .error _ => false

-- What `poll`'s loop spends: the stored addresses not dialled yet, then the connections.
def progress (stored : List Address) (s : KeepConnected) : Nat × Nat :=
  ((untried stored s.earlier).length, s.connections.length)

-- Dialling an untried stored address leaves fewer untried.
theorem untried_insert_lt {stored : List Address} {earlier : List SocketAddr} {a : Address}
    {sock : SocketAddr} (ha : a ∈ stored) (hsock : a.socketAddr = .ok sock) (hnew : sock ∉ earlier) :
    (untried stored (earlier.insert sock)).length < (untried stored earlier).length := by
  have hsub : (untried stored (earlier.insert sock)).Sublist (untried stored earlier) :=
    stored.monotone_filter_right fun b => by
      cases b.socketAddr <;> simp_all [List.mem_insert_iff]
  have hin : a ∈ untried stored earlier := by simp [untried, ha, hsock, hnew]
  have hout : a ∉ untried stored (earlier.insert sock) := by simp [untried, hsock]
  exact lt_of_le_of_ne hsub.length_le fun he => hout (hsub.eq_of_length he ▸ hin)

section Store

variable {τ : Type} (db : ConfigDB τ) (state : τ) (env : Env) {stored : List Address}
  (hstore : ∀ tx, db.transaction state = .ok tx → ∀ exclude a, db.getAPeer tx exclude = .ok a →
    a ∈ stored ∧ ∀ sock, a.socketAddr = .ok sock → sock ∉ exclude)
include hstore

-- `peers_from_db` keeps `nodns`, only adds connections, and pays for each with an untried address.
theorem peersFromDb_progress (s : KeepConnected) :
    (peersFromDb db state s).nodns = s.nodns ∧
    s.connections.length ≤ (peersFromDb db state s).connections.length ∧
    (untried stored (peersFromDb db state s).earlier).length + (peersFromDb db state s).connections.length ≤
      (untried stored s.earlier).length + s.connections.length := by
  induction s using peersFromDb.induct db state with
  | case1 s hlt tx htx peer hpeer sock hsock ih =>
    rw [peersFromDb, if_pos hlt]
    simp only [htx, hpeer, hsock]
    obtain ⟨hmem, hout⟩ := hstore tx htx s.earlier peer hpeer
    have := untried_insert_lt hmem hsock (hout sock hsock)
    obtain ⟨hn, hc, hm⟩ := ih
    simp only [List.length_append, List.length_singleton] at hc hm
    exact ⟨hn, by omega, by omega⟩
  | case2 s hlt tx htx peer hpeer e hsock =>
    rw [peersFromDb, if_pos hlt]
    simp only [htx, hpeer, hsock, le_refl, and_self]
  | case3 s hlt tx htx e hpeer =>
    rw [peersFromDb, if_pos hlt]
    simp only [htx, hpeer, le_refl, and_self]
  | case4 s hlt e htx =>
    rw [peersFromDb, if_pos hlt]
    simp only [htx, le_refl, and_self]
  | case5 s hlt =>
    rw [peersFromDb, if_neg hlt]
    simp only [le_refl, and_self]

-- With DNS off, the refill is `peers_from_db` alone.
theorem refill_nodns (s : KeepConnected) (hnodns : s.nodns = true) (fuel : Nat) :
    refill db state env fuel s = some (peersFromDb db state s) := by
  simp [refill, (peersFromDb_progress db state hstore s).1, hnodns]

variable {s : KeepConnected} (hnodns : s.nodns = true)
include hnodns

-- A round that goes on drops a completed connection after the refill: the untried addresses the
-- refill dialled, or else that connection, make the measure drop.
theorem round_progress {fuel : Nat} {s₀ : KeepConnected} (hr : refill db state env fuel s = some s₀) {i : Nat}
    (hi : i < s₀.connections.length) :
    Prod.Lex (· < ·) (· < ·)
      (progress stored { s₀ with connections := s₀.connections.eraseIdx i, draws := s₀.draws + 1 })
      (progress stored s) := by
  rw [refill_nodns db state env hstore s hnodns, Option.some.injEq] at hr
  subst hr
  obtain ⟨-, hc, hm⟩ := peersFromDb_progress db state hstore s
  rw [Prod.lex_def]
  simp only [progress, List.length_eraseIdx_of_lt hi]
  omega

-- Each round that does not return spends an untried address or a connection.
theorem poll_isSome {fuel : Nat} (hf : (untried stored s.earlier).length + s.connections.length < fuel) :
    (poll db state env fuel s).isSome := by
  induction fuel generalizing s with
  | zero => omega
  | succ fuel ih =>
    obtain ⟨hn, hc, hm⟩ := peersFromDb_progress db state hstore s
    rw [poll, refill_nodns db state env hstore s hnodns]
    dsimp only
    split
    · rfl
    · split
      · rename_i i hi
        have hlt := List.mem_range.mp (List.mem_of_find?_eq_some hi)
        refine ih (hn.trans hnodns) ?_
        simp only [List.length_eraseIdx_of_lt hlt]
        omega
      · rfl

-- With DNS off, whatever the connections do, every round of `poll`'s loop that goes on makes the
-- measure drop, and `poll` returns within one round more than there are untried stored addresses
-- and connections.
theorem poll_terminates :
    (∀ fuel s₀ i, refill db state env fuel s = some s₀ → i < s₀.connections.length →
      Prod.Lex (· < ·) (· < ·)
        (progress stored { s₀ with connections := s₀.connections.eraseIdx i, draws := s₀.draws + 1 })
        (progress stored s)) ∧
    ∀ fuel, (progress stored s).1 + (progress stored s).2 < fuel → (poll db state env fuel s).isSome :=
  ⟨fun _ _ _ hr hi => round_progress db state env hstore hnodns hr hi,
    fun _ hf => poll_isSome db state env hstore hnodns hf⟩

end Store

theorem addressBook_getAPeer {stored : List Address} {tx : MemStore} {exclude : List SocketAddr} {a : Address}
    (h : (MemStore.addressBook stored).getAPeer tx exclude = .ok a) :
    a ∈ stored ∧ ∀ sock, a.socketAddr = .ok sock → sock ∉ exclude := by
  simp only [MemStore.addressBook] at h
  split at h
  · rename_i hfind
    cases h
    refine ⟨List.mem_of_find?_eq_some hfind, fun sock hsock => ?_⟩
    simpa [hsock] using List.find?_some hfind
  · cases h

-- Two stored peers and connections that all complete at once: `poll` dials both, drops them
-- and returns `Ready` in its third round.
open MemStore in
theorem poll_terminates_addressBook :
    (∀ tx, (addressBook addresses).transaction chain = .ok tx → ∀ exclude a,
      (addressBook addresses).getAPeer tx exclude = .ok a →
        a ∈ addresses ∧ ∀ sock, a.socketAddr = .ok sock → sock ∉ exclude) ∧
    (⟨3, [], [], [], true, 0⟩ : KeepConnected).nodns = true ∧
    (∀ fuel s₀ i, refill (addressBook addresses) chain ⟨fun _ => [], fun _ => 0, fun _ _ => true⟩ fuel
        ⟨3, [], [], [], true, 0⟩ = some s₀ → i < s₀.connections.length →
      Prod.Lex (· < ·) (· < ·)
        (progress addresses { s₀ with connections := s₀.connections.eraseIdx i, draws := s₀.draws + 1 })
        (progress addresses ⟨3, [], [], [], true, 0⟩)) ∧
    ∀ fuel, (progress addresses ⟨3, [], [], [], true, 0⟩).1 + (progress addresses ⟨3, [], [], [], true, 0⟩).2 < fuel →
      (poll (addressBook addresses) chain ⟨fun _ => [], fun _ => 0, fun _ _ => true⟩ fuel
        ⟨3, [], [], [], true, 0⟩).isSome :=
  have hstore : ∀ tx, (addressBook addresses).transaction chain = .ok tx → ∀ exclude a,
      (addressBook addresses).getAPeer tx exclude = .ok a →
        a ∈ addresses ∧ ∀ sock, a.socketAddr = .ok sock → sock ∉ exclude :=
    fun _ _ _ _ h => addressBook_getAPeer h
  ⟨hstore, rfl, poll_terminates _ _ _ hstore rfl⟩

end Murmel.KeepConnected
