import Murmel.Dispatcher.Headers

namespace Murmel.Dispatcher

variable {σ τ : Type} (d : Dispatcher σ τ) (peer : PeerId) (w : World σ τ)

/-- `headers`' two loops read as §4.4.1 states them, one header at a time: each header is offered to
`add_header` once and in order; after a reorg the store is flushed by `batch` and the unwound
headers are delivered, in the order `get_header` returned them, before the next header is offered,
so nothing is pending when `add_header` is called. `unflushed` records whether headers were added
since the last `batch`, which is then run once more at the end. -/
def fold : List LoneBlockHeader → HeadersLoop σ → Bool → Option (Outcome (World σ τ))
  | [], st, unflushed =>
    if unflushed then
      match flush d.chaindb [] st with
      | (.ok (), st) => some (d.finish peer w st)
      | (.error e, st) => some (st.outcome w (.error e))
    else some (d.finish peer w st)
  | header :: rest, st, _ =>
    match addStep d.chaindb header st with
    | .next st => fold rest st true
    | .reorg disconnected st =>
      match flush d.chaindb disconnected st with
      | (.ok (), st) => fold rest st false
      | (.error e, st) => some (st.outcome w (.error e))
    | .ret result st => some (st.outcome w result)
    | .panic => none

theorem outer_cons (header : LoneBlockHeader) (rest : List LoneBlockHeader) (st : HeadersLoop σ) :
    d.outer peer w (header :: rest) st =
      match inner d.chaindb (header :: rest) st with
      | .exit rest' disconnected st =>
        match flush d.chaindb disconnected st with
        | (.ok (), st) => d.outer peer w rest' st
        | (.error e, st) => some (st.outcome w (.error e))
      | .ret result st => some (st.outcome w result)
      | .panic => none := by
  rw [outer]
  split <;> rename_i h <;> rewrite [h] <;> rfl

theorem outer_nil (st : HeadersLoop σ) : d.outer peer w [] st = some (d.finish peer w st) := by
  rw [outer]

theorem outer_cons_eq_fold (header : LoneBlockHeader) (rest : List LoneBlockHeader) (st : HeadersLoop σ) :
    d.outer peer w (header :: rest) st = fold d peer w (header :: rest) st true := by
  induction rest generalizing header st with
  | nil =>
    rw [outer_cons, fold, inner]
    cases addStep d.chaindb header st <;> simp [inner, fold, outer_nil]
  | cons header' rest ih =>
    rw [outer_cons, fold, inner]
    cases addStep d.chaindb header st with
    | next st => simp only [← outer_cons, ih]
    | reorg disconnected st =>
      simp only
      split <;> simp only [ih, fold]
    | ret => rfl
    | panic => rfl

theorem outer_eq_fold (queue : List LoneBlockHeader) (st : HeadersLoop σ) :
    d.outer peer w queue st = fold d peer w queue st false := by
  cases queue with
  | nil => simp [outer_nil, fold]
  | cons header rest => exact outer_cons_eq_fold d peer w header rest st

end Murmel.Dispatcher
