import Mathlib.Data.List.Nodup
import Murmel.Constructor.Termination

namespace Murmel.KeepConnected

-- The task `keep_connected` returns: the initial peers dialled, nothing from DNS or the store yet.
def keepConnected (minConnections : Nat) (peers : List SocketAddr) (nodns : Bool) : KeepConnected :=
  ⟨minConnections, peers, [], [], nodns, 0⟩

variable {τ : Type} (db : ConfigDB τ)

-- The executor polling the keeper again and again: each `poll` returns, on the store state and
-- with the connection futures and seed answers of its moment.
inductive Polls : KeepConnected → List Async → KeepConnected → Prop
  | nil (s : KeepConnected) : Polls s [] s
  | cons {s s' s'' : KeepConnected} {state : τ} {env : Env} {fuel : Nat} {r : Async} {rs : List Async}
      (h : poll db state env fuel s = some (r, s')) (rest : Polls s' rs s'') : Polls s (r :: rs) s''

-- `new`, dialled in this order, are stored peers' addresses, none of them in `earlier`, each once.
structure Fresh (stored : List Address) (earlier new : List SocketAddr) : Prop where
  nodup : new.Nodup
  untried : ∀ x ∈ new, x ∉ earlier
  stored : ∀ x ∈ new, ∃ a ∈ stored, a.socketAddr = .ok x

namespace Fresh

variable {stored : List Address} {earlier new new' : List SocketAddr}

theorem nil (stored : List Address) (earlier : List SocketAddr) : Fresh stored earlier [] :=
  ⟨List.nodup_nil, fun _ h => (nomatch h), fun _ h => (nomatch h)⟩

theorem append (h : Fresh stored earlier new) (h' : Fresh stored (new.reverse ++ earlier) new') :
    Fresh stored earlier (new ++ new') where
  nodup := List.nodup_append.mpr ⟨h.nodup, h'.nodup, fun x hx hx' =>
    h'.untried x hx' (List.mem_append_left _ (List.mem_reverse.mpr hx))⟩
  untried x hx := (List.mem_append.mp hx).elim (h.untried x) fun hx' hx'' =>
    h'.untried x hx' (List.mem_append_right _ hx'')
  stored x hx := (List.mem_append.mp hx).elim (h.stored x) (h'.stored x)

end Fresh

theorem Fresh.trans {stored : List Address} {a b c : List SocketAddr}
    (h : ∃ new, b = new.reverse ++ a ∧ Fresh stored a new) (h' : ∃ new, c = new.reverse ++ b ∧ Fresh stored b new) :
    ∃ new, c = new.reverse ++ a ∧ Fresh stored a new :=
  let ⟨new, hb, hf⟩ := h
  let ⟨new', hc, hf'⟩ := h'
  ⟨new ++ new', by simp [hc, hb], hf.append (hb ▸ hf')⟩

theorem dnsRound_earlier (env : Env) (s : KeepConnected) : (dnsRound env s).earlier = s.earlier := by
  unfold dnsRound
  dsimp only
  repeat' split
  all_goals rfl

theorem dnsLookup_earlier (env : Env) {fuel : Nat} {s s' : KeepConnected} (h : dnsLookup env fuel s = some s') :
    s'.earlier = s.earlier := by
  induction fuel, s using dnsLookup.induct env with
  | case1 s hlt => simp [dnsLookup, hlt] at h
  | case2 s hlt | case4 fuel s hlt =>
    simp only [dnsLookup, hlt, if_false, Option.some.injEq] at h
    rw [h]
  | case3 fuel s hlt ih =>
    rw [dnsLookup, if_pos hlt] at h
    rw [ih h, dnsRound_earlier]

section Loops

variable (state : τ) (env : Env)

-- The shape of `peers_from_db`: each round dials the address of a peer the store hands out for
-- `earlier` and remembers it, until `min_connections` is reached or a store call fails.
@[elab_as_elim]
theorem peersFromDb_induction {motive : KeepConnected → KeepConnected → Prop} (stop : ∀ s, motive s s)
    (dial : ∀ s tx peer sock r, s.connections.length < s.minConnections → db.transaction state = .ok tx →
      db.getAPeer tx s.earlier = .ok peer → peer.socketAddr = .ok sock →
      motive { s with earlier := s.earlier.insert sock, connections := s.connections ++ [sock] } r → motive s r)
    (s : KeepConnected) : motive s (peersFromDb db state s) := by
  induction s using peersFromDb.induct db state with
  | case1 s hlt tx htx peer hpeer sock hsock ih =>
    rw [peersFromDb, if_pos hlt]
    simp only [htx, hpeer, hsock]
    exact dial s tx peer sock _ hlt htx hpeer hsock ih
  | case5 s hlt =>
    rw [peersFromDb, if_neg hlt]
    exact stop s
  -- a failed store call returns the keeper as it was
  | _ =>
    rw [peersFromDb, if_pos ‹_›]
    simp only [*]

-- The shape of a call of `poll`: refill, then drop a completed connection and go round again,
-- until no connection is left or none has completed.
@[elab_as_elim]
theorem poll_induction {motive : KeepConnected → KeepConnected → Prop} {fuel : Nat} (s s' : KeepConnected)
    {r : Async} (h : poll db state env fuel s = some (r, s'))
    (trans : ∀ {a b c}, motive a b → motive b c → motive a c)
    (refilled : ∀ {fuel a b}, refill db state env fuel a = some b → motive a b)
    (dropped : ∀ a i, motive a { a with connections := a.connections.eraseIdx i, draws := a.draws + 1 })
    (pending : ∀ a, motive a { a with draws := a.draws + 1 }) : motive s s' := by
  induction fuel generalizing s with
  | zero => cases h
  | succ fuel ih =>
    rw [poll] at h
    rcases hr : refill db state env fuel s with _ | s₁
    · rw [hr] at h; cases h
    · rw [hr] at h
      dsimp only at h
      split at h
      · cases h; exact refilled hr
      · split at h
        · exact trans (refilled hr) (trans (dropped s₁ _) (ih _ h))
        · cases h; exact trans (refilled hr) (pending s₁)

end Loops

section Bound

variable (state : τ) (env : Env)

theorem peersFromDb_bound (s : KeepConnected) :
    (peersFromDb db state s).minConnections = s.minConnections ∧
      (peersFromDb db state s).connections.length ≤ max s.connections.length s.minConnections := by
  refine peersFromDb_induction db state (fun _ => ⟨rfl, le_max_left _ _⟩) ?_ s
  intro s _ _ _ _ hlt _ _ _ ⟨hm, hl⟩
  simp only [List.length_append, List.length_singleton] at hl
  exact ⟨hm, by omega⟩

theorem dnsRound_bound (s : KeepConnected) :
    (dnsRound env s).minConnections = s.minConnections ∧
      (dnsRound env s).connections.length ≤ s.connections.length + 1 := by
  unfold dnsRound
  dsimp only
  repeat' split
  all_goals simp

theorem dnsLookup_bound {fuel : Nat} {s s' : KeepConnected} (h : dnsLookup env fuel s = some s') :
    s'.minConnections = s.minConnections ∧ s'.connections.length ≤ max s.connections.length s.minConnections := by
  induction fuel, s using dnsLookup.induct env with
  | case1 s hlt => simp [dnsLookup, hlt] at h
  | case2 s hlt | case4 fuel s hlt =>
    simp only [dnsLookup, hlt, if_false, Option.some.injEq] at h
    exact h ▸ ⟨rfl, le_max_left _ _⟩
  | case3 fuel s hlt ih =>
    rw [dnsLookup, if_pos hlt] at h
    obtain ⟨hm, hl⟩ := ih h
    obtain ⟨hm', hl'⟩ := dnsRound_bound env s
    exact ⟨hm.trans hm', by omega⟩

theorem refill_bound {fuel : Nat} {s s' : KeepConnected} (h : refill db state env fuel s = some s') :
    s'.minConnections = s.minConnections ∧ s'.connections.length ≤ max s.connections.length s.minConnections := by
  obtain ⟨hm, hl⟩ := peersFromDb_bound db state s
  simp only [refill] at h
  split at h
  · obtain ⟨hm', hl'⟩ := dnsLookup_bound env h
    exact ⟨hm'.trans hm, by omega⟩
  · cases h
    exact ⟨hm, hl⟩

theorem poll_bound {fuel : Nat} {s s' : KeepConnected} {r : Async} (h : poll db state env fuel s = some (r, s')) :
    s'.minConnections = s.minConnections ∧ s'.connections.length ≤ max s.connections.length s.minConnections :=
  poll_induction db state env s s' h (fun ⟨hm, hl⟩ ⟨hm', hl'⟩ => ⟨hm'.trans hm, by omega⟩)
    (refill_bound db state env) (fun a i => ⟨rfl, (List.length_eraseIdx_le a.connections i).trans (le_max_left _ _)⟩)
    (fun _ => ⟨rfl, le_max_left _ _⟩)

end Bound

-- Over any run of polls, whatever the store holds and whatever the connection futures and the DNS
-- seeds do, `min_connections` stays as it was and the keeper never holds more connections than it
-- started with or than `min_connections`.
theorem Polls.connections_bound {s s' : KeepConnected} {rs : List Async} (h : Polls db s rs s') :
    s'.minConnections = s.minConnections ∧ s'.connections.length ≤ max s.connections.length s.minConnections := by
  induction h with
  | nil => exact ⟨rfl, le_max_left _ _⟩
  | cons hpoll _ ih =>
    obtain ⟨hm, hl⟩ := poll_bound db _ _ hpoll
    obtain ⟨hm', hl'⟩ := ih
    exact ⟨hm'.trans hm, by omega⟩

section Store

variable {stored : List Address}
  (hstore : ∀ state tx, db.transaction state = .ok tx → ∀ exclude a, db.getAPeer tx exclude = .ok a →
    a ∈ stored ∧ ∀ sock, a.socketAddr = .ok sock → sock ∉ exclude)
include hstore

theorem peersFromDb_dials (state : τ) (s : KeepConnected) :
    ∃ new, (peersFromDb db state s).connections = s.connections ++ new ∧
      (peersFromDb db state s).earlier = new.reverse ++ s.earlier ∧ Fresh stored s.earlier new := by
  refine peersFromDb_induction db state (fun _ => ⟨[], by simp, by simp, Fresh.nil _ _⟩) ?_ s
  rintro s tx peer sock _ - htx hpeer hsock ⟨new, hc, he, hf⟩
  obtain ⟨hmem, hout⟩ := hstore state tx htx s.earlier peer hpeer
  have hnew := hout sock hsock
  have hins : s.earlier.insert sock = sock :: s.earlier := List.insert_of_not_mem hnew
  have hsock' : Fresh stored s.earlier [sock] :=
    ⟨List.nodup_singleton _, by simpa using hnew, by simpa using ⟨peer, hmem, hsock⟩⟩
  exact ⟨sock :: new, by simp [hc], by simp [he, hins], hsock'.append (by simpa [hins] using hf)⟩

theorem refill_dials (state : τ) (env : Env) {fuel : Nat} {s s' : KeepConnected} (h : refill db state env fuel s = some s') :
    ∃ new, s'.earlier = new.reverse ++ s.earlier ∧ Fresh stored s.earlier new := by
  obtain ⟨new, -, he, hf⟩ := peersFromDb_dials db hstore state s
  refine ⟨new, ?_, hf⟩
  simp only [refill] at h
  split at h
  · rw [dnsLookup_earlier env h, he]
  · cases h; exact he

theorem poll_dials (state : τ) (env : Env) {fuel : Nat} {s s' : KeepConnected} {r : Async} (h : poll db state env fuel s = some (r, s')) :
    ∃ new, s'.earlier = new.reverse ++ s.earlier ∧ Fresh stored s.earlier new :=
  poll_induction db state env s s' h Fresh.trans (refill_dials db hstore state env)
    (fun _ _ => ⟨[], rfl, Fresh.nil _ _⟩) (fun _ => ⟨[], rfl, Fresh.nil _ _⟩)

theorem Polls.dials {s s' : KeepConnected} {rs : List Async} (h : Polls db s rs s') :
    ∃ new, s'.earlier = new.reverse ++ s.earlier ∧ Fresh stored s.earlier new := by
  induction h with
  | nil => exact ⟨[], rfl, Fresh.nil _ _⟩
  | cons hpoll _ ih => exact Fresh.trans (poll_dials db hstore _ _ hpoll) ih

-- `peers_from_db` dials, after the connections it had, stored addresses outside `earlier`, each
-- once, and remembers exactly those; so over any run of polls `earlier` grows only by stored
-- addresses, each once, none of them in it before. `dns_lookup` and the initial peers dial without
-- looking at `earlier`, so they may dial such an address again.
theorem store_dials_fresh :
    (∀ state s, ∃ new, (peersFromDb db state s).connections = s.connections ++ new ∧
      (peersFromDb db state s).earlier = new.reverse ++ s.earlier ∧ Fresh stored s.earlier new) ∧
    ∀ s rs s', Polls db s rs s' → ∃ new, s'.earlier = new.reverse ++ s.earlier ∧ Fresh stored s.earlier new :=
  ⟨peersFromDb_dials db hstore, fun _ _ _ h => Polls.dials db hstore h⟩

end Store

open MemStore in
theorem connections_bound_addressBook :
    Polls (addressBook addresses) (keepConnected 2 [] true) [.pending]
      ⟨2, [⟨[1], 8333⟩, ⟨[2], 8333⟩], [], [⟨[2], 8333⟩, ⟨[1], 8333⟩], true, 1⟩ ∧
    (⟨2, [⟨[1], 8333⟩, ⟨[2], 8333⟩], [], [⟨[2], 8333⟩, ⟨[1], 8333⟩], true, 1⟩ : KeepConnected).minConnections =
      (keepConnected 2 [] true).minConnections ∧
    (⟨2, [⟨[1], 8333⟩, ⟨[2], 8333⟩], [], [⟨[2], 8333⟩, ⟨[1], 8333⟩], true, 1⟩ : KeepConnected).connections.length ≤
      max (keepConnected 2 [] true).connections.length (keepConnected 2 [] true).minConnections :=
  have hpoll : poll (addressBook addresses) chain ⟨fun _ => [], fun _ => 0, fun _ _ => false⟩ 1 (keepConnected 2 [] true) =
      some (.pending, ⟨2, [⟨[1], 8333⟩, ⟨[2], 8333⟩], [], [⟨[2], 8333⟩, ⟨[1], 8333⟩], true, 1⟩) := by
    rw [poll, refill, keepConnected, peersFromDb_addressBook]
    rfl
  have h := Polls.cons hpoll (.nil _)
  ⟨h, Polls.connections_bound _ h⟩

open MemStore in
theorem store_dials_fresh_addressBook :
    (∀ state tx, (addressBook addresses).transaction state = .ok tx → ∀ exclude a,
      (addressBook addresses).getAPeer tx exclude = .ok a →
        a ∈ addresses ∧ ∀ sock, a.socketAddr = .ok sock → sock ∉ exclude) ∧
    (∀ state s, ∃ new, (peersFromDb (addressBook addresses) state s).connections = s.connections ++ new ∧
      (peersFromDb (addressBook addresses) state s).earlier = new.reverse ++ s.earlier ∧
      Fresh addresses s.earlier new) ∧
    ∀ s rs s', Polls (addressBook addresses) s rs s' →
      ∃ new, s'.earlier = new.reverse ++ s.earlier ∧ Fresh addresses s.earlier new :=
  have hstore : ∀ state tx, (addressBook addresses).transaction state = .ok tx → ∀ exclude a,
      (addressBook addresses).getAPeer tx exclude = .ok a →
        a ∈ addresses ∧ ∀ sock, a.socketAddr = .ok sock → sock ∉ exclude :=
    fun _ _ _ _ _ h => addressBook_getAPeer h
  ⟨hstore, store_dials_fresh _ hstore⟩

end Murmel.KeepConnected
