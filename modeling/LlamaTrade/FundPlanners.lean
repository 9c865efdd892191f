import LlamaTrade.DecimalQuantize
import LlamaTrade.LedgerPlanners

/-!
# Planned capital operations

Deposits, withdrawals, allocations and transfers are planned as balanced events
(`ledger/funds.py`), with the free cash checked by the planner. A transfer from an illiquid
sleeve plans the sells that raise the cash, the position of the largest value first.
-/

namespace LlamaTrade

/-- `FundError`, a `ValueError`. -/
def fundError (message : String) : PyError := .valueError "FundError" message

/-- `PlannedFundEvent`. -/
structure PlannedFundEvent where
  eventType : LedgerEventType
  data : Payload

/-- `RaiseCashSell`. -/
structure RaiseCashSell where
  symbol : String
  qty : Decimal
  estPrice : Decimal
  deriving DecidableEq, Repr

/-- `TransferPlan`. -/
structure TransferPlan where
  transfer : PlannedFundEvent
  raiseCash : List RaiseCashSell

open Arithmetic

/-- `_require_positive`. -/
def requirePositive (amount : Decimal) : Except PyError Unit := do
  if ← le amount zero then
    .error (fundError ("amount must be positive, got " ++ text amount))
  else pure ()

/-- The check of `plan_withdraw` and `plan_allocate`. -/
def requireFreeCash (freeCash amount : Decimal) : Except PyError Unit := do
  if ← lt freeCash amount then
    .error (fundError ("insufficient free cash: have " ++ text freeCash ++ ", need " ++
      text amount))
  else pure ()

/-- The data of an event that moves an amount in or out of one sleeve. -/
def sleeveAmount (sleeve : UUID) (amount : Decimal) : Payload :=
  [("sleeve_id", .str sleeve.text), ("amount", .str (text amount))]

/-- The data of an event that moves an amount from one sleeve to another. -/
def movedAmount (frm dest : UUID) (amount : Decimal) : Payload :=
  [("from_sleeve_id", .str frm.text), ("to_sleeve_id", .str dest.text),
    ("amount", .str (text amount))]

def planDeposit (unallocated : UUID) (amount : Decimal) :
    Except PyError (List PlannedFundEvent) := do
  requirePositive amount
  return [⟨.fundsDeposited, sleeveAmount unallocated amount⟩]

def planWithdraw (sleeve : UUID) (amount freeCash : Decimal) :
    Except PyError (List PlannedFundEvent) := do
  requirePositive amount
  requireFreeCash freeCash amount
  return [⟨.fundsWithdrawn, sleeveAmount sleeve amount⟩]

def planAllocate (frm dest : UUID) (amount freeCash : Decimal) :
    Except PyError (List PlannedFundEvent) := do
  requirePositive amount
  requireFreeCash freeCash amount
  return [⟨.capitalAllocated, movedAmount frm dest amount⟩]

/-! ## Raising cash -/

/-- A position of `from_positions` with its value, the key of the sort. -/
structure ValuedPosition where
  symbol : String
  qty : Decimal
  price : Decimal
  value : Decimal

def valuePositions : List (String × Decimal × Decimal) → Except PyError (List ValuedPosition)
  | [] => pure []
  | (symbol, qty, price) :: rest => do
    let value ← mul qty price
    return ⟨symbol, qty, price, value⟩ :: (← valuePositions rest)

/-- Put a position before the first one whose value is not larger. -/
def insertByValue (p : ValuedPosition) : List ValuedPosition → Except PyError (List ValuedPosition)
  | [] => pure [p]
  | q :: qs => do
    if ← lt p.value q.value then return q :: (← insertByValue p qs)
    else return p :: q :: qs

/-- `sorted(..., reverse=True)` by value: descending and stable. A comparison with a NaN
raises. -/
def sortByValue : List ValuedPosition → Except PyError (List ValuedPosition)
  | [] => pure []
  | p :: ps => do insertByValue p (← sortByValue ps)

/-- `qty <= ZERO or price <= ZERO`. -/
def unsellable (p : ValuedPosition) : Except PyError Bool := do
  if ← le p.qty zero then return true
  le p.price zero

/-- The loop of `_raise_cash`: the sells and what remains to be raised. -/
def raiseCashLoop (remaining : Decimal) :
    List ValuedPosition → Except PyError (List RaiseCashSell × Decimal)
  | [] => pure ([], remaining)
  | p :: ps => do
    if ← le remaining zero then return ([], remaining)
    else if ← unsellable p then raiseCashLoop remaining ps
    else if ← le p.value remaining then do
      let (sells, rest) ← raiseCashLoop (← sub remaining p.value) ps
      return (⟨p.symbol, p.qty, p.price⟩ :: sells, rest)
    else do
      let qty ← (← div remaining p.price).quantize defaultContext .up (-8)
      let (sells, rest) ← raiseCashLoop zero ps
      return (⟨p.symbol, qty, p.price⟩ :: sells, rest)

/-- `_raise_cash`. -/
def raiseCash (positions : List (String × Decimal × Decimal)) (shortfall : Decimal) :
    Except PyError (List RaiseCashSell) := do
  let ordered ← sortByValue (← valuePositions positions)
  let (sells, remaining) ← raiseCashLoop shortfall ordered
  if ← lt zero remaining then
    .error (fundError ("cannot raise " ++ text shortfall ++ ": short by " ++ text remaining ++
      " after liquidating positions"))
  else return sells

/-- `plan_transfer`. -/
def planTransfer (frm dest : UUID) (amount freeCash : Decimal)
    (positions : List (String × Decimal × Decimal)) : Except PyError TransferPlan := do
  requirePositive amount
  let transfer : PlannedFundEvent := ⟨.capitalTransferred, movedAmount frm dest amount⟩
  if ← le amount freeCash then return ⟨transfer, []⟩
  else return ⟨transfer, ← raiseCash positions (← sub amount freeCash)⟩

end LlamaTrade
