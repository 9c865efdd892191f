import LlamaTrade.JsonValue

/-!
# Double-entry postings

Every ledger event expands into signed legs over the buckets cash, position,
realized P&L and external (`ledger/postings.py`). `assertBalanced` is the
conservation checksum: the legs must sum to zero, in the arithmetic at hand, and
no position leg may move shares against its cost.
-/

namespace LlamaTrade

/-- `LedgerEventType`. -/
inductive LedgerEventType where
  | fundsDeposited | fundsWithdrawn | capitalAllocated | capitalTransferred
  | orderIntended | orderSubmitted | orderAccepted | orderRejected | orderFilled | orderCancelled
  | lotOpened | lotIncreased | lotReduced | lotClosed
  | cashDebited | cashCredited | dividendReceived | feeCharged | interestAccrued
  | splitApplied | symbolChanged
  | externalTradeDetected | driftCorrected | reconciliationAdjusted
  | sleeveOpened | sleeveClosed | sleeveFrozen | sleeveResumed
  deriving DecidableEq, Repr

namespace LedgerEventType

def all : List LedgerEventType :=
  [fundsDeposited, fundsWithdrawn, capitalAllocated, capitalTransferred, orderIntended,
    orderSubmitted, orderAccepted, orderRejected, orderFilled, orderCancelled, lotOpened,
    lotIncreased, lotReduced, lotClosed, cashDebited, cashCredited, dividendReceived, feeCharged,
    interestAccrued, splitApplied, symbolChanged, externalTradeDetected, driftCorrected,
    reconciliationAdjusted, sleeveOpened, sleeveClosed, sleeveFrozen, sleeveResumed]

def value : LedgerEventType → String
  | fundsDeposited => "funds_deposited"
  | fundsWithdrawn => "funds_withdrawn"
  | capitalAllocated => "capital_allocated"
  | capitalTransferred => "capital_transferred"
  | orderIntended => "order_intended"
  | orderSubmitted => "order_submitted"
  | orderAccepted => "order_accepted"
  | orderRejected => "order_rejected"
  | orderFilled => "order_filled"
  | orderCancelled => "order_cancelled"
  | lotOpened => "lot_opened"
  | lotIncreased => "lot_increased"
  | lotReduced => "lot_reduced"
  | lotClosed => "lot_closed"
  | cashDebited => "cash_debited"
  | cashCredited => "cash_credited"
  | dividendReceived => "dividend_received"
  | feeCharged => "fee_charged"
  | interestAccrued => "interest_accrued"
  | splitApplied => "split_applied"
  | symbolChanged => "symbol_changed"
  | externalTradeDetected => "external_trade_detected"
  | driftCorrected => "drift_corrected"
  | reconciliationAdjusted => "reconciliation_adjusted"
  | sleeveOpened => "sleeve_opened"
  | sleeveClosed => "sleeve_closed"
  | sleeveFrozen => "sleeve_frozen"
  | sleeveResumed => "sleeve_resumed"

/-- `LedgerEventType(value)`, as `_coerce` applies it to the stored text. -/
def coerce (s : String) : Except PyError LedgerEventType :=
  match all.find? fun t => t.value = s with
  | some t => .ok t
  | none => .error (.valueError "ValueError" (s ++ " is not a valid LedgerEventType"))

@[simp] theorem coerce_value (t : LedgerEventType) : coerce t.value = .ok t := by
  cases t <;> rfl

end LedgerEventType

inductive Bucket where
  | cash | position | pnl | external
  deriving DecidableEq, Repr

/-- One signed leg; `sleeveId` is `none` for the account boundary. -/
structure Posting (D : Type) where
  sleeveId : Option String
  bucket : Bucket
  amount : D
  symbol : Option String := none
  qty : Option D := none
  deriving DecidableEq, Repr

section Postings

variable {D : Type} [Arithmetic D]

open Arithmetic

/-- `UnbalancedEventError`, a `ValueError`. -/
def unbalanced (message : String) : PyError := .valueError "UnbalancedEventError" message

/-- The sign check of one leg; the comparisons short-circuit as `and` and `or` do. -/
def checkSigns (p : Posting D) : Except PyError Unit :=
  match p.bucket, p.qty with
  | .position, some qty => do
    let up ← lt zero p.amount
    let bad ← if up then lt qty zero else pure false
    let bad ← if bad then pure true else do
      let down ← lt p.amount zero
      if down then lt zero qty else pure false
    if bad then .error (unbalanced ("position leg " ++ p.symbol.elim "None" Json.quoteText ++
      " has opposite-signed qty=" ++ text qty ++ " and amount=" ++ text p.amount))
    else pure ()
  | _, _ => pure ()

def checkAllSigns : List (Posting D) → Except PyError Unit
  | [] => pure ()
  | p :: ps => do
    checkSigns p
    checkAllSigns ps

def assertBalanced (postings : List (Posting D)) : Except PyError Unit := do
  let total ← sum (postings.map (·.amount))
  let isZero ← eq total zero
  if isZero then checkAllSigns postings
  else .error (unbalanced ("postings sum to " ++ text total ++ ", expected 0"))

/-- `Decimal(val)` for the types `_d` accepts; a `bool` is an `int`. -/
def toNumber (key : String) : Json → Except PyError D
  | .str s => parse s
  | .int n => .ok (ofInt n)
  | .bool b => .ok (ofInt (if b then 1 else 0))
  | .float f => parse f.repr
  | x => .error (.typeError ("field " ++ key ++ " is not numeric: " ++ x.repr))

/-- `_d`: a number of the payload. -/
def number (data : Payload) (key : String) : Except PyError D := do
  toNumber key (← data.item key)

/-- `_d(data, key) if key in data else ZERO`. -/
def numberOrZero (data : Payload) (key : String) : Except PyError D :=
  if data.has key then number data key else pure zero

/-- `_d` on an entry of a list, which need not be a dictionary. -/
def entryNumber (entry : Json) (key : String) : Except PyError D := do
  toNumber key (← entry.subscript key)

def entryText (entry : Json) (key : String) : Except PyError String := do
  return (← entry.subscript key).pyStr

def buyPostings (sleeve symbol : String) (qty notional fees : D) :
    Except PyError (List (Posting D)) := do
  let out ← neg (← add notional fees)
  return [⟨some sleeve, .cash, out, none, none⟩,
    ⟨some sleeve, .position, notional, some symbol, some qty⟩,
    ⟨some sleeve, .pnl, fees, none, none⟩]

def sellPostings (sleeve symbol : String) (qty notional fees cost : D) :
    Except PyError (List (Posting D)) := do
  let realized ← sub (← sub notional cost) fees
  let closed ← neg cost
  let sold ← neg qty
  let proceeds ← sub notional fees
  let gain ← neg realized
  return [⟨some sleeve, .position, closed, some symbol, some sold⟩,
    ⟨some sleeve, .cash, proceeds, none, none⟩,
    ⟨some sleeve, .pnl, gain, none, none⟩]

/-- `_order_filled_postings`: a sell without a resolved cost basis is refused. -/
def orderFilledPostings (data : Payload) : Except PyError (List (Posting D)) := do
  let sleeve ← data.text "sleeve_id"
  let symbol ← data.text "symbol"
  let side := PyText.lower (← data.text "side")
  let qty : D ← number data "qty"
  let price ← number data "price"
  let fees ← numberOrZero data "fees"
  let notional ← mul qty price
  if side = "buy" then buyPostings sleeve symbol qty notional fees
  else if side = "sell" then
    if data.has "cost_basis" then do
      sellPostings sleeve symbol qty notional fees (← number data "cost_basis")
    else .error (.valueError "ValueError"
      "sell ORDER_FILLED missing cost_basis (FIFO enrichment did not run)")
  else .error (.valueError "ValueError" ("unknown order side: " ++ Json.quoteText side))

/-- The two legs that move one position of a closing sleeve. -/
def rehomePosting (frm dest : String) (entry : Json) : Except PyError (List (Posting D)) := do
  let symbol ← entryText entry "symbol"
  let qty : D ← entryNumber entry "qty"
  let cost ← entryNumber entry "cost_basis"
  let costOut ← neg cost
  let qtyOut ← neg qty
  return [⟨some frm, .position, costOut, some symbol, some qtyOut⟩,
    ⟨some dest, .position, cost, some symbol, some qty⟩]

def rehomePostings (frm dest : String) : List Json → Except PyError (List (Posting D))
  | [] => pure []
  | entry :: entries => do
    let legs ← rehomePosting frm dest entry
    return legs ++ (← rehomePostings frm dest entries)

/-- The position legs of a close, none when no positions are listed. -/
def closedPositionLegs (frm : String) (data : Payload) : Except PyError (List (Posting D)) :=
  if (data.get "positions").truthy then do
    let dest ← data.text "to_position_sleeve_id"
    let entries ← (data.get "positions").iter
    rehomePostings frm dest entries
  else pure []

/-- `_sleeve_closed_postings`: positions and then cash move out of the sleeve. -/
def sleeveClosedPostings (data : Payload) : Except PyError (List (Posting D)) := do
  let frm ← data.text "sleeve_id"
  let moved ← closedPositionLegs frm data
  let cash : D ← numberOrZero data "cash"
  if ← eq cash zero then return moved
  else do
    let dest ← data.text "to_cash_sleeve_id"
    let out ← neg cash
    return moved ++ [⟨some frm, .cash, out, none, none⟩, ⟨some dest, .cash, cash, none, none⟩]

def buildPostings (t : LedgerEventType) (data : Payload) : Except PyError (List (Posting D)) :=
  match t with
  | .capitalAllocated | .capitalTransferred => do
    let amount : D ← number data "amount"
    let frm ← data.text "from_sleeve_id"
    let dest ← data.text "to_sleeve_id"
    return [⟨some frm, .cash, ← neg amount, none, none⟩, ⟨some dest, .cash, amount, none, none⟩]
  | .fundsDeposited => do
    let amount : D ← number data "amount"
    let sleeve ← data.text "sleeve_id"
    return [⟨none, .external, ← neg amount, none, none⟩, ⟨some sleeve, .cash, amount, none, none⟩]
  | .fundsWithdrawn => do
    let amount : D ← number data "amount"
    let sleeve ← data.text "sleeve_id"
    return [⟨some sleeve, .cash, ← neg amount, none, none⟩, ⟨none, .external, amount, none, none⟩]
  | .orderFilled => orderFilledPostings data
  | .dividendReceived | .interestAccrued => do
    let amount : D ← number data "amount"
    let sleeve ← data.text "sleeve_id"
    return [⟨some sleeve, .cash, amount, none, none⟩, ⟨some sleeve, .pnl, ← neg amount, none, none⟩]
  | .feeCharged => do
    let amount : D ← number data "amount"
    let sleeve ← data.text "sleeve_id"
    return [⟨some sleeve, .cash, ← neg amount, none, none⟩, ⟨some sleeve, .pnl, amount, none, none⟩]
  | .splitApplied => do
    let sleeve ← data.text "sleeve_id"
    let symbol ← data.text "symbol"
    let qtyDelta : D ← number data "qty_delta"
    return [⟨some sleeve, .position, zero, some symbol, some qtyDelta⟩]
  | .symbolChanged => do
    let sleeve ← data.text "sleeve_id"
    let oldSymbol ← data.text "old_symbol"
    let newSymbol ← data.text "new_symbol"
    let qty : D ← number data "qty"
    let cost ← number data "cost_basis"
    return [⟨some sleeve, .position, ← neg cost, some oldSymbol, some (← neg qty)⟩,
      ⟨some sleeve, .position, cost, some newSymbol, some qty⟩]
  | .externalTradeDetected => do
    let sleeve ← data.text "sleeve_id"
    let symbol ← data.text "symbol"
    let qty : D ← number data "qty"
    let price ← number data "price"
    let notional ← mul qty price
    return [⟨none, .external, ← neg notional, none, none⟩,
      ⟨some sleeve, .position, notional, some symbol, some qty⟩]
  | .sleeveClosed => sleeveClosedPostings data
  | _ => pure []

end Postings

end LlamaTrade
