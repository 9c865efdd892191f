import LlamaTrade.DecimalQuantize
import LlamaTrade.LedgerPlanners

/-!
# Splitting a dividend

One dividend of the broker is split over the holding sleeves in proportion to their
quantities (`split_dividend` in `ledger/corporate.py`). Every share but the one of the
largest holder is rounded to cents; the largest holder takes the remainder.
-/

namespace LlamaTrade

open Arithmetic

/-- The holders with a positive quantity. -/
def positiveHolders : List (UUID × Decimal) → Except PyError (List (UUID × Decimal))
  | [] => pure []
  | (sleeve, qty) :: rest => do
    let positive ← lt zero qty
    let others ← positiveHolders rest
    return if positive then (sleeve, qty) :: others else others

/-- The comparison of the sort keys `(qty, str(sleeve_id))`. -/
def holderLess (x y : UUID × Decimal) : Except PyError Bool := do
  if ← eq x.2 y.2 then return x.1.text < y.1.text
  lt x.2 y.2

/-- Put a holder before the first one that is not larger. -/
def insertHolder (x : UUID × Decimal) :
    List (UUID × Decimal) → Except PyError (List (UUID × Decimal))
  | [] => pure [x]
  | y :: ys => do
    if ← holderLess x y then return y :: (← insertHolder x ys)
    else return x :: y :: ys

/-- The holders, the largest first. -/
def orderHolders : List (UUID × Decimal) → Except PyError (List (UUID × Decimal))
  | [] => pure []
  | x :: xs => do insertHolder x (← orderHolders xs)

/-- One share, rounded to cents. -/
def dividendShare (totalAmount totalQty qty : Decimal) : Except PyError Decimal := do
  (← div (← mul totalAmount qty) totalQty).quantize defaultContext .halfUp (-2)

/-- The shares of the holders after the largest, and their sum. -/
def dividendShares (totalAmount totalQty allocated : Decimal) :
    List (UUID × Decimal) → Except PyError (List (UUID × Decimal) × Decimal)
  | [] => pure ([], allocated)
  | (sleeve, qty) :: rest => do
    let amount ← dividendShare totalAmount totalQty qty
    let (shares, sum) ← dividendShares totalAmount totalQty (← add allocated amount) rest
    return ((sleeve, amount) :: shares, sum)

def dividendEvent (symbol payId : String) (share : UUID × Decimal) : PlannedCorporateEvent where
  eventType := .dividendReceived
  sleeveId := share.1
  data := [("sleeve_id", .str share.1.text), ("amount", .str (text share.2))]
  dedupKey := "div:" ++ symbol ++ ":" ++ payId ++ ":" ++ share.1.text

/-- The events once the holders are ordered; the remainder is assigned last. -/
def dividendEvents (symbol payId : String) (totalAmount totalQty : Decimal) :
    List (UUID × Decimal) → Except PyError (List PlannedCorporateEvent)
  | [] => pure []
  | largest :: others => do
    let (shares, allocated) ← dividendShares totalAmount totalQty zero others
    let remainder ← sub totalAmount allocated
    return (shares ++ [(largest.1, remainder)]).map (dividendEvent symbol payId)

/-- `split_dividend`. -/
def splitDividend (symbol : String) (totalAmount : Decimal) (holders : List (UUID × Decimal))
    (payId : String) : Except PyError (List PlannedCorporateEvent) := do
  if ← le totalAmount zero then
    .error (.valueError "ValueError" ("dividend amount must be positive, got " ++
      text totalAmount))
  else do
    let positive ← positiveHolders holders
    let totalQty ← sum (positive.map (·.2))
    if ← eq totalQty zero then return []
    else dividendEvents symbol payId totalAmount totalQty (← orderHolders positive)

end LlamaTrade
