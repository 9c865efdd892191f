import Mathlib.Logic.Function.Basic
import Mathlib.Order.Monotone.Defs
import Mathlib.Order.Lattice
import Mathlib.Data.Int.Order.Basic
import Mathlib.Data.Nat.Basic

/-!
# Bar feeds

Forming period bars and the live feed over them: `FormingBarAggregator` folds the intraday bars
of a symbol into the bar of the period in progress, and `FormingBarFeed` yields a snapshot of all
forming bars when every subscribed symbol has reported for the same timestamp. Dictionaries keyed
by symbol are functions, and prices are any linearly ordered type.
-/

namespace LlamaTrade

variable {T K : Type} [LinearOrder T] [LinearOrder K]

structure Bar (T K : Type) where
  timestamp : T
  opening : K
  high : K
  low : K
  close : K
  volume : ℤ
  deriving DecidableEq

/-- `PeriodStart`: the start of the period that a timestamp belongs to, as `daily_period_start`
computes it. -/
structure PeriodGrid (T : Type) [LinearOrder T] where
  start : T → T
  monotone : Monotone start
  start_start : ∀ t, start (start t) = start t

/-- A map from symbols to bars. -/
abbrev Snapshot (T K : Type) := String → Option (Bar T K)

/-- The bar that a period starts with. -/
def openBar (period : T) (bar : Bar T K) : Bar T K := { bar with timestamp := period }

/-- The forming bar after another bar of its period. -/
def extendBar (current bar : Bar T K) : Bar T K where
  timestamp := current.timestamp
  opening := current.opening
  high := max current.high bar.high
  low := min current.low bar.low
  close := bar.close
  volume := current.volume + bar.volume

/-- `FormingBarAggregator.update`: the forming bar of the symbol. -/
def formingBar (grid : PeriodGrid T) (current : Option (Bar T K)) (bar : Bar T K) : Bar T K :=
  match current with
  | none => openBar (grid.start bar.timestamp) bar
  | some current =>
    if grid.start current.timestamp ≠ grid.start bar.timestamp then
      openBar (grid.start bar.timestamp) bar
    else extendBar current bar

/-- What a live loop keeps: the aggregator's forming bars, the latest forming bar and timestamp
of each symbol, and the timestamp that was evaluated last. -/
structure FeedState (T K : Type) where
  forming : Snapshot T K
  latest : Snapshot T K
  latestTs : String → Option T
  lastEvaluated : Option T

/-- A feed with the seed of its aggregator. -/
def FeedState.fresh (seed : Snapshot T K) : FeedState T K := ⟨seed, fun _ => none, fun _ => none, none⟩

namespace FeedState

variable (grid : PeriodGrid T) (symbols : List String) (st : FeedState T K)

/-- The bar is folded into the forming bar of its symbol. -/
def receive (symbol : String) (bar : Bar T K) : FeedState T K :=
  let forming := formingBar grid (st.forming symbol) bar
  { st with
    forming := Function.update st.forming symbol (some forming)
    latest := Function.update st.latest symbol (some forming)
    latestTs := Function.update st.latestTs symbol (some bar.timestamp) }

/-- Every subscribed symbol has reported for the timestamp. -/
def reported (ts : T) : Bool := symbols.all fun s => decide (st.latestTs s = some ts)

/-- One turn of `FormingBarFeed._iterate`, with the answer of the gate. -/
def iterate (gate : Bool) (symbol : String) (bar : Bar T K) :
    FeedState T K × Option (T × Snapshot T K) :=
  if symbol ∈ symbols then
    let st := st.receive grid symbol bar
    let ts := bar.timestamp
    if !st.reported symbols ts then (st, none)
    else if st.lastEvaluated = some ts then (st, none)
    else
      let st := { st with lastEvaluated := some ts }
      if !gate then (st, none)
      else (st, some (ts, st.latest))
  else (st, none)

end FeedState

namespace Sample

/-- Days of 1440 minutes. -/
def days : PeriodGrid ℕ where
  start t := t / 1440 * 1440
  monotone _ _ h := Nat.mul_le_mul_right _ (Nat.div_le_div_right h)
  start_start t := by rw [Nat.mul_div_cancel _ (by decide : 0 < 1440)]

end Sample

end LlamaTrade
