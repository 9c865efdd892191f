import LlamaTrade.FillMessages
import LlamaTrade.TradingOrders

/-!
# Publishers of the fill stream

The messages that trading builds for terminal orders (`ledger_events.py`) and the two places
that publish them: a strategy runner for every trade event of the account on one of its
symbols, and the order executor for the rows that a REST sync finds terminal.
-/

namespace LlamaTrade

open Arithmetic

inductive TradeEventType where
  | new | fill | partialFill | canceled | expired | doneForDay | replaced | rejected | pendingNew
  | stopped | pendingCancel | pendingReplace | calculated | suspended | orderReplaceRejected
  | orderCancelRejected
  deriving DecidableEq, Repr

/-- The fields of a `trade_updates` event that the ledger path reads. -/
structure TradeEvent where
  eventType : TradeEventType
  clientOrderId : String
  symbol : String
  side : OrderSide
  filledQty : Decimal
  filledAvgPrice : Option Decimal
  timestamp : String

/-- The fields of `RunnerConfig` that the ledger path reads. -/
structure RunnerConfig where
  tenantId : UUID
  symbols : List String
  sleeveId : Option UUID
  accountId : Option UUID

/-! ## Message builders -/

/-- `build_fill_payload`. -/
def buildFillPayload (tenant account sleeve : UUID) (clientOrderId symbol side : String)
    (qty price : Decimal) (filledAt : String) (orderId : Option UUID) : LedgerFill where
  tenantId := tenant.text
  accountId := account.text
  sleeveId := sleeve.text
  clientOrderId := clientOrderId
  orderId := orderId.elim "" UUID.text
  symbol := symbol
  side := side
  qty := text qty
  price := text price
  fees := ""
  costBasis := ""
  realizedPnl := ""
  filledAt := filledAt

/-- The average price of a filled quantity, absent when nothing was filled. -/
def filledPrice (qty : Decimal) (price : Option Decimal) : Except PyError (Option Decimal) := do
  if ← le qty zero then return none
  return price

/-- A full fill, or one of `_TERMINAL_WITH_FILL`. -/
def TradeEventType.closesOrder : TradeEventType → Bool
  | .fill | .canceled | .expired => true
  | _ => false

/-- `build_ledger_fill_payload`. -/
def buildLedgerFillPayload (tenant account sleeve : UUID) (event : TradeEvent)
    (orderId : Option UUID) : Except PyError (Option LedgerFill) :=
  if event.eventType.closesOrder then do
    let price ← filledPrice event.filledQty event.filledAvgPrice
    return price.map fun price => buildFillPayload tenant account sleeve event.clientOrderId
      event.symbol (orderSideToStr event.side) event.filledQty price event.timestamp orderId
  else return none

/-- A filled row, or one of `_TERMINAL_STATUSES_WITH_FILL`. -/
def OrderStatus.closesOrder : OrderStatus → Bool
  | .filled | .cancelled | .expired => true
  | _ => false

/-- `build_ledger_fill_payload_from_order`. -/
def buildLedgerFillPayloadFromOrder (now : String) (order : OrderRow) :
    Except PyError (Option LedgerFill) :=
  match order.sleeveId, order.accountId with
  | some sleeve, some account =>
    if order.status.closesOrder then do
      let price ← filledPrice order.filledQty order.filledAvgPrice
      return price.map fun price => buildFillPayload order.tenantId account sleeve
        order.clientOrderId order.symbol (orderSideToStr order.side) order.filledQty price
        ((order.filledAt.or order.canceledAt).getD now) (some order.id)
    else return none
  | _, _ => return none

/-- `build_ledger_lifecycle_payload`. -/
def buildLedgerLifecyclePayload (kind : String) (tenant account sleeve : UUID)
    (clientOrderId symbol side : String) (reserved : Option Decimal) (orderId : Option UUID) :
    LedgerReservation where
  tenantId := tenant.text
  accountId := account.text
  sleeveId := sleeve.text
  clientOrderId := clientOrderId
  eventType := kind
  reserved := reserved.elim "" text
  symbol := symbol
  side := side
  orderId := orderId.elim "" UUID.text

/-! ## Publishers -/

/-- The reservation release of a trade event. -/
def releaseOfEvent (tenant account sleeve : UUID) (event : TradeEvent) : List FillMessage :=
  let release := fun kind => [.reservation (buildLedgerLifecyclePayload kind tenant account sleeve
    event.clientOrderId event.symbol (orderSideToStr event.side) none none)]
  match event.eventType with
  | .rejected => release "order_rejected"
  | .canceled | .expired => release "order_cancelled"
  | _ => []

/-- `StrategyRunner._handle_trade_event` up to `_publish_ledger_fill`: the messages that the
runner publishes, in order. The event is checked against the runner's symbols only. -/
def handleTradeEvent (config : RunnerConfig) (event : TradeEvent) :
    Except PyError (List FillMessage) :=
  if event.symbol ∈ config.symbols then
    match config.sleeveId, config.accountId with
    | some sleeve, some account => do
      let payload ← buildLedgerFillPayload config.tenantId account sleeve event none
      return (payload.map FillMessage.fill).toList ++
        releaseOfEvent config.tenantId account sleeve event
    | _, _ => return []
  else return []

/-- The reservation release of a terminal row. -/
def releaseOfOrder (account sleeve : UUID) (order : OrderRow) : List FillMessage :=
  let release := fun kind => [.reservation (buildLedgerLifecyclePayload kind order.tenantId account
    sleeve order.clientOrderId order.symbol (orderSideToStr order.side) none (some order.id))]
  match order.status with
  | .rejected => release "order_rejected"
  | .cancelled | .expired => release "order_cancelled"
  | _ => []

/-- `OrderExecutor._backfill_order_attribution`: the row with the attribution that was
resolved for it. -/
def backfillOrderAttribution (resolved : Option (UUID × UUID)) (order : OrderRow) :
    Option OrderRow :=
  resolved.map fun (sleeve, account) =>
    { order with sleeveId := some sleeve, accountId := some account }

/-- The row that `_emit_ledger_for_terminal` works on: attributed, or attributed now. -/
def attributedOrder (resolved : Option (UUID × UUID)) (order : OrderRow) : Option OrderRow :=
  if order.sleeveId = none ∨ order.accountId = none then backfillOrderAttribution resolved order
  else some order

/-- `OrderExecutor._emit_ledger_for_terminal` on an attributed row: the messages that are
published, in order. An exception is logged, and nothing is published. -/
def emitLedgerForTerminal (now : String) (order : OrderRow) : List FillMessage :=
  match order.sleeveId, order.accountId, buildLedgerFillPayloadFromOrder now order with
  | some sleeve, some account, .ok payload =>
    (payload.map FillMessage.fill).toList ++ releaseOfOrder account sleeve order
  | _, _, _ => []

end LlamaTrade
