import LlamaTrade.PythonUuid
import LlamaTrade.Arithmetic

/-!
# Orders of the trading service

The rows of the `orders` table, the statuses that the broker reports for an order, and how
`OrderSubmissionMixin` reads them.
-/

namespace LlamaTrade

/-- `OrderStatus` of `llamatrade_alpaca`. -/
inductive AlpacaStatus where
  | new | partiallyFilled | filled | doneForDay | canceled | expired | replaced | pendingCancel
  | pendingReplace | pendingNew | accepted | acceptedForBidding | stopped | rejected | suspended
  | calculated
  deriving DecidableEq, Repr

/-- `OrderStatus` of the trading protocol. -/
inductive OrderStatus where
  | pending | submitted | accepted | partiallyFilled | filled | cancelled | rejected | expired
  deriving DecidableEq, Repr

/-- `_ALPACA_STATUS_MAP`. -/
def mapAlpacaStatus : AlpacaStatus → OrderStatus
  | .new => .submitted
  | .accepted => .accepted
  | .pendingNew => .pending
  | .acceptedForBidding => .accepted
  | .stopped => .cancelled
  | .rejected => .rejected
  | .suspended => .pending
  | .calculated => .pending
  | .partiallyFilled => .partiallyFilled
  | .filled => .filled
  | .doneForDay => .expired
  | .canceled => .cancelled
  | .expired => .expired
  | .replaced => .cancelled
  | .pendingCancel => .pending
  | .pendingReplace => .pending

inductive OrderSide where
  | buy | sell
  deriving DecidableEq, Repr

/-- `order_side_to_str`. -/
def orderSideToStr : OrderSide → String
  | .buy => "buy"
  | .sell => "sell"

inductive BracketType where
  | stopLoss | takeProfit
  deriving DecidableEq, Repr

/-- The columns of `orders` that are read; times are ISO texts. -/
structure OrderRow where
  id : UUID
  tenantId : UUID
  sessionId : UUID
  alpacaOrderId : Option String
  clientOrderId : String
  symbol : String
  side : OrderSide
  qty : Decimal
  status : OrderStatus
  filledQty : Decimal
  filledAvgPrice : Option Decimal
  filledAt : Option String
  canceledAt : Option String
  sleeveId : Option UUID
  accountId : Option UUID
  parentOrderId : Option UUID
  bracketType : Option BracketType
  stopLossPrice : Option Decimal
  takeProfitPrice : Option Decimal
  deriving DecidableEq

end LlamaTrade
