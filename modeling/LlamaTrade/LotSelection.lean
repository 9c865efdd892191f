import LlamaTrade.LedgerPostings
import Mathlib.Data.List.Sort

/-!
# FIFO lots

A lot is a quantity bought at one time with its total cost. `selectLotsFifo`
(`ledger/sizing.py`) consumes the oldest lots first to cover a sale and splits at
most the last one it reaches.
-/

namespace LlamaTrade

structure Lot (D : Type) where
  qty : D
  costBasis : D
  openedSeq : ℤ
  deriving DecidableEq, Repr

structure FifoResult (D : Type) where
  closedCostBasis : D
  consumedQty : D
  remainingLots : List (Lot D)

section Selection

variable {D : Type} [Arithmetic D]

open Arithmetic

/-- `sorted(lots, key=lambda lot: lot.opened_seq)`, which is stable. -/
def sortLots (lots : List (Lot D)) : List (Lot D) :=
  lots.insertionSort fun a b => a.openedSeq ≤ b.openedSeq

/-- The loop of `select_lots_fifo`, from the open quantity and the closed cost so
far to their final values and the lots kept. -/
def selectLoop (remaining closed : D) : List (Lot D) → Except PyError (D × D × List (Lot D))
  | [] => pure (remaining, closed, [])
  | lot :: lots => do
    if ← le remaining zero then do
      let (r, c, out) ← selectLoop remaining closed lots
      return (r, c, lot :: out)
    else if ← le lot.qty remaining then do
      let closed ← add closed lot.costBasis
      let remaining ← sub remaining lot.qty
      selectLoop remaining closed lots
    else do
      let unit ← div lot.costBasis lot.qty
      let closed ← add closed (← mul unit remaining)
      let qty ← sub lot.qty remaining
      let cost ← sub lot.costBasis (← mul unit remaining)
      let (r, c, out) ← selectLoop zero closed lots
      return (r, c, ⟨qty, cost, lot.openedSeq⟩ :: out)

def selectLotsFifo (lots : List (Lot D)) (sellQty : D) : Except PyError (FifoResult D) := do
  if ← le sellQty zero then
    .error (.valueError "ValueError" ("sell_qty must be positive, got " ++ text sellQty))
  else do
    let (remaining, closed, out) ← selectLoop sellQty zero (sortLots lots)
    if ← lt zero remaining then
      .error (.valueError "ValueError"
        ("insufficient lots: short " ++ text remaining ++ " of " ++ text sellQty))
    else return ⟨closed, sellQty, out⟩

end Selection

end LlamaTrade
