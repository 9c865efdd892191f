import LlamaTrade.LedgerStore

/-!
# Messages of the fill stream

The messages that trading publishes and their translation into ledger appends
(`ledger/ingestion.py`). Every field is text; an empty scalar means absent. A sell whose
publisher resolved no cost basis is enriched with the FIFO cost of the open lots.
-/

namespace LlamaTrade

structure LedgerFill where
  tenantId : String
  accountId : String
  sleeveId : String
  clientOrderId : String
  orderId : String
  symbol : String
  side : String
  qty : String
  price : String
  fees : String
  costBasis : String
  realizedPnl : String
  filledAt : String

structure LedgerReservation where
  tenantId : String
  accountId : String
  sleeveId : String
  clientOrderId : String
  eventType : String
  reserved : String
  symbol : String
  side : String
  orderId : String

inductive FillMessage where
  | fill (fill : LedgerFill)
  | reservation (reservation : LedgerReservation)

/-- `_require`: a required scalar must not be empty. -/
def require (value name : String) : Except PyError String :=
  if value = "" then
    .error (.valueError "ValueError" ("ledger payload missing required field: " ++ name))
  else pure value

/-- The loop that keeps the optional scalars that are not empty. -/
def optionalFields (fields : List (String × String)) : Payload :=
  (fields.filter fun f => f.2 ≠ "").map fun f => (f.1, .str f.2)

/-- `fill_to_append`. -/
def fillToAppend (env : Platform) (fill : LedgerFill) : Except PyError LedgerAppend := do
  let clientOrderId ← require fill.clientOrderId "client_order_id"
  let sleeveId ← require fill.sleeveId "sleeve_id"
  let symbol ← require fill.symbol "symbol"
  let side ← require fill.side "side"
  let qty ← require fill.qty "qty"
  let price ← require fill.price "price"
  let data : Payload := [("sleeve_id", .str sleeveId), ("symbol", .str symbol),
    ("side", .str (PyText.lower side)), ("qty", .str qty), ("price", .str price),
    ("client_order_id", .str clientOrderId)] ++
    optionalFields [("fees", fill.fees), ("cost_basis", fill.costBasis),
      ("realized_pnl", fill.realizedPnl), ("order_id", fill.orderId)]
  let tenant ← UUID.parse (← require fill.tenantId "tenant_id")
  let account ← UUID.parse (← require fill.accountId "account_id")
  let sleeve ← UUID.parse sleeveId
  return ⟨tenant, account, some sleeve, .orderFilled, data, env.digest clientOrderId,
    some fill.filledAt⟩

/-- `LIFECYCLE_EVENT_TYPES`. -/
def lifecycleEventType (kind : String) : Except PyError LedgerEventType :=
  if kind = "order_submitted" then pure .orderSubmitted
  else if kind = "order_cancelled" then pure .orderCancelled
  else if kind = "order_rejected" then pure .orderRejected
  else .error (.valueError "ValueError"
    ("unknown ledger reservation event_type: " ++ Json.quoteText kind))

/-- `reservation_to_append`. -/
def reservationToAppend (env : Platform) (reservation : LedgerReservation) :
    Except PyError LedgerAppend := do
  let kind := PyText.lower (← require reservation.eventType "event_type")
  let eventType ← lifecycleEventType kind
  let clientOrderId ← require reservation.clientOrderId "client_order_id"
  let sleeveId ← require reservation.sleeveId "sleeve_id"
  let data : Payload := [("sleeve_id", .str sleeveId), ("client_order_id", .str clientOrderId)] ++
    optionalFields [("symbol", reservation.symbol), ("side", reservation.side),
      ("reserved", reservation.reserved), ("order_id", reservation.orderId)]
  let tenant ← UUID.parse (← require reservation.tenantId "tenant_id")
  let account ← UUID.parse (← require reservation.accountId "account_id")
  let sleeve ← UUID.parse sleeveId
  return ⟨tenant, account, some sleeve, eventType, data,
    env.digest (clientOrderId ++ ":" ++ kind), none⟩

/-- `append_from_message`. -/
def appendFromMessage (env : Platform) : FillMessage → Except PyError LedgerAppend
  | .fill fill => fillToAppend env fill
  | .reservation reservation => reservationToAppend env reservation

/-- `data.get(key) == text`. -/
def Payload.isText (data : Payload) (key text : String) : Bool :=
  match data.get key with
  | .str s => s = text
  | _ => false

/-- `needs_cost_basis`. -/
def needsCostBasis (a : LedgerAppend) : Bool :=
  a.eventType == .orderFilled && a.data.isText "side" "sell" && !a.data.has "cost_basis"

section Enrichment

variable {D : Type} [Arithmetic D]

open Arithmetic

/-- `data.setdefault(key, value)`. -/
def Payload.setDefault (data : Payload) (key : String) (value : Json) : Payload :=
  if data.has key then data else data ++ [(key, value)]

theorem Payload.lookup_setDefault {data : Payload} {key other : String} (value : Json)
    (h : other ≠ key) : (data.setDefault key value).lookup other = data.lookup other := by
  unfold Payload.setDefault
  split_ifs
  · rfl
  · have hne : (other == key) = false := by simpa using h
    rw [List.lookup_append]
    simp [List.lookup_cons, hne]

/-- `Decimal(data[key])`. -/
def decimalItem (data : Payload) (key : String) : Except PyError D := do
  toNumber key (← data.item key)

/-- The `except ValueError` of `enrich_sell_fill`. -/
def quarantineValueError {α : Type} (a : LedgerAppend) (qty : D) :
    Except PyError α → Except PyError α
  | .error (.valueError _ message) => .error (.service .fillQuarantine
      ("cannot resolve FIFO cost basis for sell (sleeve=" ++ a.sleeveId.elim "None" UUID.text ++
        " symbol=" ++ (a.data.get "symbol").pyStr ++ " qty=" ++ text qty ++ "): " ++ message))
  | x => x

/-- `Decimal(data["fees"]) if "fees" in data else Decimal("0")`. -/
def feesOrZero (data : Payload) : Except PyError D :=
  if data.has "fees" then decimalItem data "fees" else pure zero

/-- The data of the enriched append. -/
def enrichedData (a : LedgerAppend) (lots : List (Lot D)) : Except PyError Payload := do
  let qty : D ← decimalItem a.data "qty"
  let result ← quarantineValueError a qty (selectLotsFifo lots qty)
  let price ← decimalItem a.data "price"
  let fees ← feesOrZero a.data
  let realized ← sub (← sub (← mul qty price) result.closedCostBasis) fees
  return ((a.data.set "cost_basis" (.str (text result.closedCostBasis))).setDefault "realized_pnl"
    (.str (text realized)))

/-- `enrich_sell_fill`. -/
def enrichSellFill (a : LedgerAppend) (lots : List (Lot D)) : Except PyError LedgerAppend :=
  if needsCostBasis a then do
    return { a with data := ← enrichedData a lots }
  else pure a

end Enrichment

end LlamaTrade
