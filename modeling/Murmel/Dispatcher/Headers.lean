import Murmel.Dispatcher.Basic

namespace Murmel.Dispatcher

variable {σ τ : Type}

-- The locals of `headers` that live across its loops, with the store and the calls made so far.
structure HeadersLoop (σ : Type) where
  chaindb : σ
  events : List Event
  height : UInt32
  someNew : Bool
  movedTip : Option Sha256dHash

namespace HeadersLoop

def record (st : HeadersLoop σ) (chaindb : σ) (e : Event) : HeadersLoop σ :=
  { st with chaindb, events := st.events ++ [e] }

-- `some_new`, `moved_tip` and `height` once `add_header` has stored a header.
def stored (st : HeadersLoop σ) (added : HeaderAdded) : HeadersLoop σ :=
  { st with
    someNew := true
    movedTip := match added.forwards with
      | some forwards => forwards.getLast?
      | none => st.movedTip
    height := added.stored.height }

def outcome (st : HeadersLoop σ) (w : World σ τ) (result : Except SPVError ProcessResult) :
    Outcome (World σ τ) :=
  ⟨result, { w with chaindb := st.chaindb }, st.events⟩

end HeadersLoop

-- How one round of the inner `while let` ends.
inductive Step (σ : Type)
  | next (st : HeadersLoop σ)
  | reorg (disconnected : List BlockHeader) (st : HeadersLoop σ)
  | ret (result : Except SPVError ProcessResult) (st : HeadersLoop σ)
  | panic

-- How the inner `while let` ends: the headers still queued and those to notify, or a return.
inductive Inner (σ : Type)
  | exit (rest : List LoneBlockHeader) (disconnected : List BlockHeader) (st : HeadersLoop σ)
  | ret (result : Except SPVError ProcessResult) (st : HeadersLoop σ)
  | panic

def unwindTips (db : ChainDB σ) :
    List Sha256dHash → HeadersLoop σ → Except SPVError Unit × HeadersLoop σ
  | [], st => (.ok (), st)
  | h :: unwinds, st =>
    let (r, chaindb) := db.unwindTip st.chaindb h
    let st := st.record chaindb (.unwindTip h)
    match r with
    | .ok _ => unwindTips db unwinds st
    | .error e => (.error e, st)

-- A reorg's `unwind_tip` calls and the unwound headers to notify; `.next` when there was none.
def reorgStep (db : ChainDB σ) (unwinds : Option (List Sha256dHash)) (st : HeadersLoop σ) : Step σ :=
  match unwinds with
  | none => .next st
  | some unwinds =>
    match unwindTips db unwinds st with
    | (.error e, st) => .ret (.error e) st
    | (.ok (), st) =>
      match unwinds.mapM (db.getHeader st.chaindb) with
      | some stored => .reorg (stored.map (·.header)) st
      | none => .panic

def addStep (db : ChainDB σ) (header : LoneBlockHeader) (st : HeadersLoop σ) : Step σ :=
  let (r, chaindb) := db.addHeader st.chaindb header.header
  let st := st.record chaindb (.addHeader header.header r)
  match r with
  | .ok (some added) =>
    -- `forwards.last().unwrap()` panics on an empty list
    if added.forwards = some [] then .panic
    else reorgStep db added.unwinds (st.stored added)
  | .ok none => .next st
  | .error .SpvBadProofOfWork => .ret (.ok (.Ban 100)) st
  | .error _ => .ret (.ok .Ignored) st

def inner (db : ChainDB σ) : List LoneBlockHeader → HeadersLoop σ → Inner σ
  | [], st => .exit [] [] st
  | header :: rest, st =>
    match addStep db header st with
    | .next st => inner db rest st
    | .reorg disconnected st => .exit rest disconnected st
    | .ret result st => .ret result st
    | .panic => .panic

theorem inner_exit_length {db : ChainDB σ} {header : LoneBlockHeader} {rest rest' : List LoneBlockHeader}
    {st st' : HeadersLoop σ} {disconnected : List BlockHeader}
    (h : inner db (header :: rest) st = .exit rest' disconnected st') : rest'.length ≤ rest.length := by
  induction rest generalizing header st with
  | nil =>
    rw [inner] at h
    split at h <;> simp_all [inner]
  | cons header' rest ih =>
    rw [inner] at h
    split at h
    · exact (ih h).trans (Nat.le_succ _)
    · cases h; rfl
    all_goals cases h

-- `chaindb.batch()?`, then the notification loop for the iteration's disconnected headers.
def flush (db : ChainDB σ) (disconnected : List BlockHeader) (st : HeadersLoop σ) :
    Except SPVError Unit × HeadersLoop σ :=
  let (r, chaindb) := db.batch st.chaindb
  let st := st.record chaindb .batch
  match r with
  | .ok () => (.ok (), { st with events := st.events ++ disconnected.map .blockDisconnected })
  | .error e => (.error e, st)

-- What `headers` does once its loops are done.
def finish (d : Dispatcher σ τ) (peer : PeerId) (w : World σ τ) (st : HeadersLoop σ) :
    Outcome (World σ τ) :=
  let result := if st.movedTip.isSome then .ok (.Height st.height) else .ok .Ack
  if st.someNew then
    let (r, events) := d.getHeaders peer { w with chaindb := st.chaindb }
    let st := { st with events := st.events ++ events }
    match r with
    | .ok _ => st.outcome w result
    | .error e => st.outcome w (.error e)
  else st.outcome w result

def outer (d : Dispatcher σ τ) (peer : PeerId) (w : World σ τ) :
    List LoneBlockHeader → HeadersLoop σ → Option (Outcome (World σ τ))
  | [], st => some (d.finish peer w st)
  | header :: rest, st =>
    match _h : inner d.chaindb (header :: rest) st with
    | .exit rest' disconnected st =>
      match flush d.chaindb disconnected st with
      | (.ok (), st) => d.outer peer w rest' st
      | (.error e, st) => some (st.outcome w (.error e))
    | .ret result st => some (st.outcome w result)
    | .panic => none
termination_by queue => queue.length
decreasing_by exact Nat.lt_succ_of_le (inner_exit_length _h)

-- `none` is a panic: an empty `forwards` list or an unwound header the store cannot return.
def headers (d : Dispatcher σ τ) (headers : List LoneBlockHeader) (peer : PeerId)
    (w : World σ τ) : Option (Outcome (World σ τ)) :=
  if headers.length > 0 then
    match d.chaindb.tip w.chaindb with
    | some tip => d.outer peer w headers ⟨w.chaindb, [], tip.height, false, none⟩
    | none => some ⟨.error .NoTip, w, []⟩
  else some ⟨.ok .Ignored, w, []⟩

end Murmel.Dispatcher
