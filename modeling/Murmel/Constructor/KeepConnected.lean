import Murmel.Objects.Store

namespace Murmel

-- constructor.rs's `KeepConnected`; `draws` counts the answers read from `Env` so far.
structure KeepConnected where
  minConnections : Nat
  connections : List SocketAddr
  dns : List SocketAddr
  earlier : List SocketAddr
  nodns : Bool
  draws : Nat
  deriving DecidableEq, Repr

namespace KeepConnected

-- What the keeper reads from outside, indexed by `draws`: the answers of `dns_seed`, of the
-- thread's random source and, at each scan, whether the `j`-th connection future has completed.
structure Env where
  dnsSeed : Nat → List SocketAddr
  nextU64 : Nat → UInt64
  ready : Nat → Nat → Bool

inductive Async
  | pending
  | ready
  deriving DecidableEq, Repr

variable {τ : Type} (db : ConfigDB τ) (state : τ) (env : Env)

-- Each round dials a stored peer that was not tried yet; the transaction is never committed.
def peersFromDb (s : KeepConnected) : KeepConnected :=
  if s.connections.length < s.minConnections then
    match db.transaction state with
    | .ok tx =>
      match db.getAPeer tx s.earlier with
      | .ok peer =>
        match peer.socketAddr with
        | .ok sock => peersFromDb { s with earlier := s.earlier.insert sock, connections := s.connections ++ [sock] }
        | .error _ => s
      | .error _ => s
    | .error _ => s
  else s
termination_by s.minConnections - s.connections.length

-- One round of `dns_lookup`'s loop.
def dnsRound (s : KeepConnected) : KeepConnected :=
  let s := if s.dns.length == 0 then { s with dns := env.dnsSeed s.draws, draws := s.draws + 1 } else s
  if h : 0 < s.dns.length then
    let addr := s.dns.get ⟨(env.nextU64 s.draws).toNat % s.dns.length, Nat.mod_lt _ h⟩
    { s with connections := s.connections ++ [addr], draws := s.draws + 1 }
  else s

-- `dns_lookup`, allowed `fuel` rounds; `none` is a loop still running after them.
def dnsLookup : Nat → KeepConnected → Option KeepConnected
  | 0, s => if s.connections.length < s.minConnections then none else some s
  | fuel + 1, s =>
    if s.connections.length < s.minConnections then dnsLookup fuel (dnsRound env s) else some s

-- The refill at the head of `poll`'s loop.
def refill (fuel : Nat) (s : KeepConnected) : Option KeepConnected :=
  let s := peersFromDb db state s
  if !s.nodns then dnsLookup env fuel s else some s

-- `poll`, allowed `fuel` rounds of its loop (and of each `dns_lookup` in it).
def poll : Nat → KeepConnected → Option (Async × KeepConnected)
  | 0, _ => none
  | fuel + 1, s =>
    match refill db state env fuel s with
    | none => none
    | some s =>
      if s.connections.length == 0 then some (.ready, s)
      else
        match (List.range s.connections.length).find? (env.ready s.draws) with
        | some i => poll fuel { s with connections := s.connections.eraseIdx i, draws := s.draws + 1 }
        | none => some (.pending, { s with draws := s.draws + 1 })

end KeepConnected

end Murmel
