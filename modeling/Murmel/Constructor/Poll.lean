import Murmel.Constructor.KeepConnected
import Murmel.Objects.MemStore

namespace Murmel.KeepConnected

variable {τ : Type} (db : ConfigDB τ) (state : τ) (env : Env)

-- Every stored peer's address has been dialled already.
def Tried (stored : List Address) (earlier : List SocketAddr) : Prop :=
  ∀ a ∈ stored, ∀ sock, a.socketAddr = .ok sock → sock ∈ earlier

theorem dnsLookup_enough {fuel : Nat} {s s' : KeepConnected} (h : dnsLookup env fuel s = some s') :
    s'.minConnections ≤ s'.connections.length := by
  induction fuel, s using dnsLookup.induct env with
  | case1 s hlt => simp [dnsLookup, hlt] at h
  | case2 s hlt | case4 fuel s hlt =>
    simp only [dnsLookup, hlt, if_false, Option.some.injEq] at h
    exact h ▸ Nat.le_of_not_lt hlt
  | case3 fuel s hlt ih =>
    rw [dnsLookup, if_pos hlt] at h
    exact ih h

-- With an empty `dns` cache and a seed that answers nothing, a round changes only `draws`.
theorem dnsRound_no_seed (s : KeepConnected) (hdns : s.dns = [])
    (hseed : env.dnsSeed s.draws = []) : dnsRound env s = { s with draws := s.draws + 1 } := by
  simp [dnsRound, hdns, hseed]

-- `dns_lookup` never returns when `dns_seed` answers nothing and a connection is missing.
theorem dnsLookup_no_seed (fuel : Nat) :
    dnsLookup ⟨fun _ => [], fun _ => 0, fun _ _ => false⟩ fuel ⟨1, [], [], [], false, 0⟩ = none := by
  suffices ∀ draws, dnsLookup ⟨fun _ => [], fun _ => 0, fun _ _ => false⟩ fuel ⟨1, [], [], [], false, draws⟩ = none from
    this 0
  induction fuel with
  | zero => intro; rfl
  | succ fuel ih =>
    intro draws
    simp only [dnsLookup, List.length_nil, Nat.one_pos, if_true]
    rw [dnsRound_no_seed _ _ rfl rfl]
    exact ih (draws + 1)

section Store

variable {stored : List Address} {tx : τ} (htx : db.transaction state = .ok tx)
  (hroutable : ∀ a ∈ stored, a.socketAddr.isOk)
  (hget : ∀ exclude, ¬Tried stored exclude → ∃ a ∈ stored, db.getAPeer tx exclude = .ok a)
include htx hroutable hget

-- `peers_from_db` stops short of `min_connections` only once every stored peer was dialled.
theorem peersFromDb_enough (s : KeepConnected) :
    (peersFromDb db state s).minConnections ≤ (peersFromDb db state s).connections.length ∨
      Tried stored (peersFromDb db state s).earlier := by
  induction s using peersFromDb.induct db state with
  | case1 s hlt tx' htx' peer hpeer sock hsock ih =>
    rw [peersFromDb, if_pos hlt]
    simp only [htx', hpeer, hsock]
    exact ih
  | case2 s hlt tx' htx' peer hpeer e hsock =>
    rw [peersFromDb, if_pos hlt]
    simp only [htx', hpeer, hsock]
    refine .inr (Classical.not_not.mp fun hn => ?_)
    obtain ⟨a, ha, hget'⟩ := hget s.earlier hn
    cases htx.symm.trans htx'
    rw [hpeer, Except.ok.injEq] at hget'
    subst hget'
    simpa [hsock] using hroutable _ ha
  | case3 s hlt tx' htx' e hpeer =>
    rw [peersFromDb, if_pos hlt]
    simp only [htx', hpeer]
    refine .inr (Classical.not_not.mp fun hn => ?_)
    obtain ⟨a, -, hget'⟩ := hget s.earlier hn
    cases htx.symm.trans htx'
    cases hget'.symm.trans hpeer
  | case4 s hlt e htx' => cases htx.symm.trans htx'
  | case5 s hlt =>
    rw [peersFromDb, if_neg hlt]
    exact .inl (Nat.le_of_not_lt hlt)

theorem refill_enough {fuel : Nat} {s s' : KeepConnected} (h : refill db state env fuel s = some s') :
    s'.minConnections ≤ s'.connections.length ∨ (s'.nodns ∧ Tried stored s'.earlier) := by
  simp only [refill] at h
  split at h
  · exact .inl (dnsLookup_enough env h)
  · rename_i hdns
    cases h
    simp only [Bool.not_eq_true', Bool.not_eq_false] at hdns
    exact (peersFromDb_enough db state htx hroutable hget s).imp_right (⟨hdns, ·⟩)

-- Each `poll` that returns `Pending` leaves enough connections, unless DNS is off and every
-- stored peer was dialled; it returns `Ready` only when a refill ended with no connection.
theorem poll_pending_ready {fuel : Nat} {s s' : KeepConnected} :
    (poll db state env fuel s = some (.pending, s') →
      s'.minConnections ≤ s'.connections.length ∨ (s'.nodns ∧ Tried stored s'.earlier)) ∧
    (poll db state env fuel s = some (.ready, s') →
      ∃ fuel' s₀, refill db state env fuel' s₀ = some s' ∧ s'.connections = []) := by
  induction fuel generalizing s with
  | zero => simp [poll]
  | succ fuel ih =>
    rw [poll]
    rcases hr : refill db state env fuel s with _ | s₁
    · simp
    · simp only
      by_cases h₀ : s₁.connections.length = 0
      · simp only [h₀, beq_self_eq_true, if_true, Option.some.injEq, Prod.mk.injEq]
        refine ⟨fun h => (nomatch h.1), fun ⟨_, h⟩ => ?_⟩
        subst h
        exact ⟨fuel, s, hr, List.length_eq_zero.mp h₀⟩
      · simp only [beq_iff_eq, h₀, if_false]
        split
        · exact ih
        · simp only [Option.some.injEq, Prod.mk.injEq]
          refine ⟨fun ⟨_, h⟩ => ?_, fun h => (nomatch h.1)⟩
          subst h
          exact (refill_enough db state env htx hroutable hget hr :)

end Store

-- The address book hands out a stored peer whenever one was not dialled yet.
theorem addressBook_getAPeer_untried {stored : List Address} {tx : MemStore} {exclude : List SocketAddr}
    (h : ¬Tried stored exclude) : ∃ a ∈ stored, (MemStore.addressBook stored).getAPeer tx exclude = .ok a := by
  simp only [Tried, not_forall] at h
  obtain ⟨a, ha, sock, hsock, hn⟩ := h
  simp only [MemStore.addressBook]
  split
  · rename_i a' hfind
    exact ⟨a', List.mem_of_find?_eq_some hfind, rfl⟩
  · have hnone := List.find?_eq_none.mp ‹_› a ha
    rw [hsock] at hnone
    simp [hn] at hnone

-- The address book of two peers fills a keeper that wants two connections.
open MemStore in
theorem peersFromDb_addressBook :
    peersFromDb (addressBook addresses) chain ⟨2, [], [], [], true, 0⟩ =
      ⟨2, [⟨[1], 8333⟩, ⟨[2], 8333⟩], [], [⟨[2], 8333⟩, ⟨[1], 8333⟩], true, 0⟩ := by
  rw [peersFromDb, if_pos (by decide)]
  change peersFromDb (addressBook addresses) chain ⟨2, [⟨[1], 8333⟩], [], [⟨[1], 8333⟩], true, 0⟩ = _
  rw [peersFromDb, if_pos (by decide)]
  change peersFromDb (addressBook addresses) chain
    ⟨2, [⟨[1], 8333⟩, ⟨[2], 8333⟩], [], [⟨[2], 8333⟩, ⟨[1], 8333⟩], true, 0⟩ = _
  rw [peersFromDb, if_neg (by decide)]

-- A keeper that wants two connections, with DNS off, over the address book of two peers whose
-- connections stay open: its first `poll` dials both and returns `Pending` with enough of them.
open MemStore in
theorem poll_pending_ready_addressBook :
    (addressBook addresses).transaction chain = .ok chain ∧
    (∀ a ∈ addresses, a.socketAddr.isOk) ∧
    (∀ exclude, ¬Tried addresses exclude → ∃ a ∈ addresses, (addressBook addresses).getAPeer chain exclude = .ok a) ∧
    poll (addressBook addresses) chain ⟨fun _ => [], fun _ => 0, fun _ _ => false⟩ 1 ⟨2, [], [], [], true, 0⟩ =
      some (.pending, ⟨2, [⟨[1], 8333⟩, ⟨[2], 8333⟩], [], [⟨[2], 8333⟩, ⟨[1], 8333⟩], true, 1⟩) ∧
    ((⟨2, [⟨[1], 8333⟩, ⟨[2], 8333⟩], [], [⟨[2], 8333⟩, ⟨[1], 8333⟩], true, 1⟩ : KeepConnected).minConnections ≤
        (⟨2, [⟨[1], 8333⟩, ⟨[2], 8333⟩], [], [⟨[2], 8333⟩, ⟨[1], 8333⟩], true, 1⟩ : KeepConnected).connections.length ∨
      ((⟨2, [⟨[1], 8333⟩, ⟨[2], 8333⟩], [], [⟨[2], 8333⟩, ⟨[1], 8333⟩], true, 1⟩ : KeepConnected).nodns ∧
        Tried addresses [⟨[2], 8333⟩, ⟨[1], 8333⟩])) :=
  have htx : (addressBook addresses).transaction chain = .ok chain := rfl
  have hroutable : ∀ a ∈ addresses, a.socketAddr.isOk := by decide
  have hget : ∀ exclude, ¬Tried addresses exclude →
      ∃ a ∈ addresses, (addressBook addresses).getAPeer chain exclude = .ok a :=
    fun _ h => addressBook_getAPeer_untried h
  have hpoll : poll (addressBook addresses) chain ⟨fun _ => [], fun _ => 0, fun _ _ => false⟩ 1
      ⟨2, [], [], [], true, 0⟩ =
        some (.pending, ⟨2, [⟨[1], 8333⟩, ⟨[2], 8333⟩], [], [⟨[2], 8333⟩, ⟨[1], 8333⟩], true, 1⟩) := by
    rw [poll, refill, peersFromDb_addressBook]
    rfl
  ⟨htx, hroutable, hget, hpoll, (poll_pending_ready _ _ _ htx hroutable hget).1 hpoll⟩

end Murmel.KeepConnected
