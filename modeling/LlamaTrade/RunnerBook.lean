import LlamaTrade.FillPublishing

/-!
# The book of a strategy runner

A runner tracks positions in memory (`runner/runner.py`). The trade events of the account
move them: the part of an order's cumulative filled quantity that was not applied before is
added to the position of its symbol. The book starts empty with every runner, and the
reconciliation with the broker does not write it for a session with a sleeve. Quantities
and prices are exact.
-/

namespace LlamaTrade

inductive PositionSide where
  | long | short
  deriving DecidableEq, Repr

/-- `RunnerPosition`, kept under its symbol. -/
structure RunnerPosition where
  side : PositionSide
  quantity : ℚ
  entryPrice : ℚ
  entryDate : ℤ
  deriving DecidableEq

/-- The fields of `FillData` that the book reads. -/
structure FillData where
  clientOrderId : String
  symbol : String
  side : OrderSide
  fillQty : ℚ
  fillPrice : ℚ
  totalFilledQty : ℚ
  deriving DecidableEq

/-- The fields of a `TradeEvent` that the book reads. -/
structure BookEvent where
  eventType : TradeEventType
  clientOrderId : String
  symbol : String
  timestamp : ℤ
  fill : Option FillData
  deriving DecidableEq

/-- `_positions`, `_applied_fill_qty` and `_terminal_order_ids`, the last oldest first. -/
structure RunnerBook where
  positions : String → Option RunnerPosition
  appliedFillQty : String → Option ℚ
  terminalOrderIds : List String

namespace RunnerBook

def empty : RunnerBook := ⟨fun _ => none, fun _ => none, []⟩

/-- The queue of terminal ids holds 512 of them; beyond that the oldest falls out. -/
def appendTerminal (ids : List String) (clientOrderId : String) : List String :=
  let ids := ids ++ [clientOrderId]
  if 512 < ids.length then ids.tail else ids

/-- `_clear_fill_tracking`. -/
def clearFillTracking (book : RunnerBook) (clientOrderId : String) : RunnerBook :=
  { book with
    appliedFillQty := Function.update book.appliedFillQty clientOrderId none
    terminalOrderIds := appendTerminal book.terminalOrderIds clientOrderId }

/-- `_unapplied_fill_delta`: the quantity still to apply, and the tracking afterwards. -/
def unappliedFillDelta (book : RunnerBook) (eventType : TradeEventType) (fill : FillData) :
    ℚ × RunnerBook :=
  if fill.clientOrderId ∈ book.terminalOrderIds then (0, book)
  else
    let applied := (book.appliedFillQty fill.clientOrderId).getD 0
    let cumulative := if 0 < fill.totalFilledQty then fill.totalFilledQty else applied + fill.fillQty
    let tracked :=
      if eventType = .fill then book.clearFillTracking fill.clientOrderId
      else if applied < cumulative then
        { book with
          appliedFillQty := Function.update book.appliedFillQty fill.clientOrderId (some cumulative) }
      else book
    (cumulative - applied, tracked)

/-- The position that a filled quantity leaves. A fill that closes a position and exceeds it
deletes it; the excess opens nothing. -/
def filledPosition (old : Option RunnerPosition) (side : OrderSide) (qty price : ℚ) (now : ℤ) :
    Option RunnerPosition :=
  match side, old with
  | .buy, some ⟨.long, held, entry, date⟩ =>
    some ⟨.long, held + qty, (entry * held + price * qty) / (held + qty), date⟩
  | .buy, some ⟨.short, held, entry, date⟩ =>
    if held - qty ≤ 0 then none else some ⟨.short, held - qty, entry, date⟩
  | .buy, none => some ⟨.long, qty, price, now⟩
  | .sell, some ⟨.long, held, entry, date⟩ =>
    if held - qty ≤ 0 then none else some ⟨.long, held - qty, entry, date⟩
  | .sell, some ⟨.short, held, entry, date⟩ =>
    some ⟨.short, held + qty, (entry * held + price * qty) / (held + qty), date⟩
  | .sell, none => some ⟨.short, qty, price, now⟩

/-- `_handle_fill_event`. -/
def handleFillEvent (book : RunnerBook) (event : BookEvent) : RunnerBook :=
  match event.fill with
  | none => book
  | some fill =>
    let (qty, tracked) := book.unappliedFillDelta event.eventType fill
    if qty ≤ 0 then tracked
    else
      { tracked with
        positions := Function.update tracked.positions fill.symbol
          (filledPosition (tracked.positions fill.symbol) fill.side qty fill.fillPrice
            event.timestamp) }

/-- `_handle_trade_event`, in what it does to the book. The stream is the account's; an event
is checked against the symbols of the runner only. -/
def handleEvent (symbols : List String) (book : RunnerBook) (event : BookEvent) : RunnerBook :=
  if event.symbol ∈ symbols then
    match event.eventType with
    | .fill | .partialFill => book.handleFillEvent event
    | .canceled | .expired | .rejected => book.clearFillTracking event.clientOrderId
    | _ => book
  else book

/-- The holdings that `_evaluate_session` passes on: the positive quantities. The side of a
position is not read. -/
def holdings (book : RunnerBook) (symbol : String) : Option ℚ :=
  match book.positions symbol with
  | some position => if 0 < position.quantity then some position.quantity else none
  | none => none

end RunnerBook

end LlamaTrade
