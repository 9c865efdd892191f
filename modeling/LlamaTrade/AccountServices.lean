import LlamaTrade.DividendSplit
import LlamaTrade.FillIngestion
import LlamaTrade.FundPlanners

/-!
# The services of an account

Capital operations (`services/fund_service.py`), sleeve provisioning
(`services/sleeve_service.py`), the close of a sleeve
(`services/sleeve_lifecycle_service.py`) and corporate actions
(`services/corporate_action_service.py`). Each runs in one transaction: it returns the
database it commits, or the exception that rolls it back.
-/

namespace LlamaTrade

open Arithmetic

/-! ## Invariants at the end of a write -/

def sleevesViolations (acc : AccountProjection Decimal) :
    List String → Except PyError (List InvariantViolation)
  | [] => pure []
  | id :: ids => do
    let violations ← checkSleeveInvariants (acc.sleeve id)
    return violations ++ (← sleevesViolations acc ids)

/-- `assert_write_invariants`. -/
def assertWriteInvariants (acc : AccountProjection Decimal) (ids : List String) :
    Except PyError Unit := do
  let sleeves ← sleevesViolations acc ids
  let account ← checkAccountInvariants acc
  if (sleeves ++ account).isEmpty then pure ()
  else .error (.service .ledgerInvariant (InvariantViolation.describe (sleeves ++ account)))

/-! ## Capital operations -/

/-- What the capital operations have in common: the caller's request and the ids that
`uuid4` draws for it. -/
structure FundRequest where
  tenantId : UUID
  accountId : UUID
  amount : Decimal
  requestId : String
  fresh : ℕ → UUID

/-- `SleeveView`. -/
structure SleeveView where
  sleeve : Sleeve
  cash : Decimal

/-- What an operation appends, the sleeves whose invariants it asserts, and those it
returns. -/
structure FundPlan where
  op : String
  events : List PlannedFundEvent
  touched : List UUID
  shown : List Sleeve

section Funds

variable (env : Platform) (db : Database) (r : FundRequest)

/-- `_require_unallocated`. -/
def requireUnallocated : Except PyError Sleeve :=
  match db.getSleeveByType r.tenantId r.accountId .unallocated with
  | some sleeve => .ok sleeve
  | none => .error (fundError "account has no Unallocated sleeve; bootstrap the account first")

/-- `_require_sleeve`. -/
def requireSleeve (id : UUID) : Except PyError Sleeve :=
  match db.getSleeve r.tenantId id with
  | some sleeve =>
    if sleeve.accountId = r.accountId then .ok sleeve
    else .error (fundError ("sleeve " ++ id.text ++ " not found in account " ++ r.accountId.text))
  | none =>
    .error (fundError ("sleeve " ++ id.text ++ " not found in account " ++ r.accountId.text))

/-- `_free_cash`. -/
def freeCash (id : UUID) : Except PyError Decimal :=
  let s := (db.projectAccount r.tenantId r.accountId).sleeve id.text
  sub s.cash s.reserved

/-- `_fund_event_id`, or a fresh id for a request without an id. -/
def fundEventId (op : String) (index : ℕ) : UUID :=
  if r.requestId = "" then r.fresh index
  else env.digest (r.accountId.text ++ ":" ++ op ++ ":" ++ r.requestId ++ ":" ++
    PyText.intText index)

def fundAppend (op : String) (index : ℕ) (ev : PlannedFundEvent) : LedgerAppend :=
  ⟨r.tenantId, r.accountId, none, ev.eventType, ev.data, fundEventId env r op index, none⟩

/-- `_append_all`. -/
def appendFundEvents (op : String) : Database → ℕ → List PlannedFundEvent → Except PyError Database
  | db, _, [] => pure db
  | db, index, ev :: evs => do
    let appended ← db.append env (fundAppend env r op index ev)
    appendFundEvents op appended.1 (index + 1) evs

/-- What every operation does with its plan: append, project again and assert. -/
def executeFundPlan (plan : Except PyError FundPlan) :
    Except PyError (Database × List SleeveView) := do
  let plan ← plan
  let db ← appendFundEvents env r plan.op db 0 plan.events
  let acc := db.projectAccount r.tenantId r.accountId
  assertWriteInvariants acc (plan.touched.map UUID.text)
  return (db, plan.shown.map fun s => ⟨s, (acc.sleeve s.id.text).cash⟩)

def depositPlan : Except PyError FundPlan := do
  let unallocated ← requireUnallocated db r
  let events ← planDeposit unallocated.id r.amount
  return ⟨"deposit", events, [unallocated.id], [unallocated]⟩

def withdrawPlan : Except PyError FundPlan := do
  let unallocated ← requireUnallocated db r
  let free ← freeCash db r unallocated.id
  let events ← planWithdraw unallocated.id r.amount free
  return ⟨"withdraw", events, [unallocated.id], [unallocated]⟩

/-- The comparison before the planner's own only feeds a metric. -/
def allocatePlan (dest : UUID) : Except PyError FundPlan := do
  let unallocated ← requireUnallocated db r
  let sleeve ← requireSleeve db r dest
  let free ← freeCash db r unallocated.id
  let _ ← lt free r.amount
  let events ← planAllocate unallocated.id dest r.amount free
  return ⟨"allocate", events, [unallocated.id, dest], [sleeve]⟩

/-- Only liquid transfers are supported, so no positions are passed to the planner. -/
def transferPlan (frm dest : UUID) : Except PyError FundPlan := do
  let fromSleeve ← requireSleeve db r frm
  let destSleeve ← requireSleeve db r dest
  let free ← freeCash db r frm
  if ← lt free r.amount then
    .error (fundError ("transfer requires raising cash by selling positions, which is not " ++
      "yet supported; transfer only liquid (free-cash) amounts"))
  else do
    let plan ← planTransfer frm dest r.amount free []
    return ⟨"transfer", [plan.transfer], [frm, dest], [fromSleeve, destSleeve]⟩

def deposit : Except PyError (Database × List SleeveView) :=
  executeFundPlan env db r (depositPlan db r)

def withdraw : Except PyError (Database × List SleeveView) :=
  executeFundPlan env db r (withdrawPlan db r)

def allocate (dest : UUID) : Except PyError (Database × List SleeveView) :=
  executeFundPlan env db r (allocatePlan db r dest)

def transfer (frm dest : UUID) : Except PyError (Database × List SleeveView) :=
  executeFundPlan env db r (transferPlan db r frm dest)

end Funds

/-! ## Provisioning -/

section Provisioning

variable (db : Database) (tenant account : UUID)

/-- `_new_sleeve`. -/
def newSleeve (type : SleeveType) (execution : Option UUID) (id : UUID) : Sleeve :=
  ⟨id, tenant, account, type, .active, execution⟩

/-- One base sleeve of `ensure_base_sleeves`. -/
def ensureBaseSleeve (type : SleeveType) (fresh : UUID) : Except PyError (Database × Sleeve) :=
  match db.getSleeveByType tenant account type with
  | some sleeve => pure (db, sleeve)
  | none => do
    let sleeve := newSleeve tenant account type none fresh
    return (← db.addSleeve sleeve, sleeve)

/-- `ensure_base_sleeves`. -/
def ensureBaseSleeves (fresh : ℕ → UUID) : Except PyError (Database × List Sleeve) := do
  let (db, unallocated) ← ensureBaseSleeve db tenant account .unallocated (fresh 0)
  let (db, manual) ← ensureBaseSleeve db tenant account .manual (fresh 1)
  let (db, unmanaged) ← ensureBaseSleeve db tenant account .unmanaged (fresh 2)
  return (db, [unallocated, manual, unmanaged])

/-- `get_or_create_strategy_sleeve`. -/
def getOrCreateStrategySleeve (execution fresh : UUID) : Except PyError (Database × Sleeve) :=
  match db.getStrategySleeve tenant account execution with
  | some sleeve => pure (db, sleeve)
  | none => do
    let sleeve := newSleeve tenant account .strategy (some execution) fresh
    return (← db.addSleeve sleeve, sleeve)

end Provisioning

/-- `allocate_capital` without a target sleeve: open or reuse the sleeve of an execution and
fund it. -/
def allocateToStrategy (env : Platform) (db : Database) (r : FundRequest) (execution fresh : UUID) :
    Except PyError (Database × List SleeveView) := do
  let (db, sleeve) ← getOrCreateStrategySleeve db r.tenantId r.accountId execution fresh
  allocate env db r sleeve.id

/-! ## Closing a sleeve -/

/-- `SleeveCloseError`, a `ValueError`. -/
def sleeveCloseError (message : String) : PyError := .valueError "SleeveCloseError" message

/-- `CloseResult`. -/
structure CloseResult where
  sleeve : Sleeve
  rehomedPositions : List (RehomedPosition Decimal)
  rehomedCash : Decimal
  alreadyClosed : Bool

section Close

variable (env : Platform) (db : Database) (tenant account : UUID)

/-- The sleeve to close: in the account and not a re-home target. -/
def closeableSleeve (id : UUID) : Except PyError Sleeve :=
  match db.getSleeve tenant id with
  | none =>
    .error (sleeveCloseError ("sleeve " ++ id.text ++ " not found in account " ++ account.text))
  | some sleeve =>
    if sleeve.accountId ≠ account then
      .error (sleeveCloseError ("sleeve " ++ id.text ++ " not found in account " ++ account.text))
    else if sleeve.type = .unallocated ∨ sleeve.type = .unmanaged then
      .error (sleeveCloseError ("cannot close a base " ++ sleeve.type.value ++ " sleeve"))
    else .ok sleeve

/-- The Unmanaged and the Unallocated sleeve. -/
def rehomeTargets : Except PyError (Sleeve × Sleeve) :=
  match db.getSleeveByType tenant account .unmanaged,
    db.getSleeveByType tenant account .unallocated with
  | some unmanaged, some unallocated => .ok (unmanaged, unallocated)
  | _, _ => .error (sleeveCloseError ("account " ++ account.text ++
      " is missing base sleeves; bootstrap it first"))

/-- What `close_sleeve` plans for a sleeve that is not closed yet, and the two targets. A
sleeve with cash reserved is refused. -/
def closePlan (id : UUID) (reason : Option String) :
    Except PyError (ClosePlan Decimal × Sleeve × Sleeve) := do
  let s := (db.projectAccount tenant account).sleeve id.text
  if ← eq s.reserved zero then do
    let (unmanaged, unallocated) ← rehomeTargets db tenant account
    let positions ← rehomedPositions (db.openLots tenant account id) s.positions.toList
    let plan ← planSleeveClose id positions s.cash unmanaged.id unallocated.id reason
    return (plan, unmanaged, unallocated)
  else .error (sleeveCloseError ("sleeve " ++ id.text ++ " has " ++ text s.reserved ++
    " reserved for in-flight orders; retry after they reach a terminal state"))

/-- `close_event_id`. -/
def closeEventId (id : UUID) : UUID := env.digest (id.text ++ ":close")

def closeAppend (id : UUID) (data : Payload) : LedgerAppend :=
  ⟨tenant, account, some id, .sleeveClosed, data, closeEventId env id, none⟩

/-- `close_sleeve`. -/
def closeSleeve (id : UUID) (reason : Option String) :
    Except PyError (Database × CloseResult) := do
  let sleeve ← closeableSleeve db tenant account id
  if sleeve.status = .closed then return (db, ⟨sleeve, [], zero, true⟩)
  else do
    let (plan, unmanaged, unallocated) ← closePlan db tenant account id reason
    let appended ← db.append env (closeAppend env tenant account id plan.eventData)
    let db := appended.1.setSleeveStatus id .closed
    assertWriteInvariants (db.projectAccount tenant account)
      [id.text, unmanaged.id.text, unallocated.id.text]
    return (db, ⟨{ sleeve with status := .closed }, plan.positions, plan.cash, false⟩)

end Close

/-! ## Corporate actions -/

section Corporate

variable (env : Platform) (db : Database) (tenant account : UUID)

/-- A dictionary entry: a key that is there keeps its place. -/
def setHolder {α : Type} (holders : List (UUID × α)) (id : UUID) (held : α) : List (UUID × α) :=
  if holders.any fun h => h.1 = id then holders.map fun h => if h.1 = id then (id, held) else h
  else holders ++ [(id, held)]

/-- The comprehension over the projected sleeves; the sleeve's key is parsed as an id. -/
def collectHolders {α : Type} (held : SleeveProjection Decimal → Except PyError (Option α)) :
    List (UUID × α) → List (String × SleeveProjection Decimal) → Except PyError (List (UUID × α))
  | holders, [] => pure holders
  | holders, (key, s) :: rest => do
    match ← held s with
    | none => collectHolders held holders rest
    | some x => do
      let id ← UUID.parse key
      collectHolders held (setHolder holders id x) rest

/-- The sleeve's position in a symbol, if it has one whose quantity is not zero. -/
def heldPosition (symbol : String) (s : SleeveProjection Decimal) :
    Except PyError (Option (PositionState Decimal)) :=
  match s.positions[symbol]? with
  | none => pure none
  | some pos => do
    if ← eq pos.qty zero then return none
    else return some pos

def heldQty (symbol : String) (s : SleeveProjection Decimal) : Except PyError (Option Decimal) := do
  return (← heldPosition symbol s).map (·.qty)

/-- The sleeve's quantity of a symbol, if it is positive. -/
def positiveQty (symbol : String) (s : SleeveProjection Decimal) :
    Except PyError (Option Decimal) :=
  match s.positions[symbol]? with
  | none => pure none
  | some pos => do
    if ← lt zero pos.qty then return some pos.qty
    else return none

def holdersOf {α : Type} (held : SleeveProjection Decimal → Except PyError (Option α)) :
    Except PyError (List (UUID × α)) :=
  collectHolders held [] (db.projectAccount tenant account).sleeves.toList

def corporateAppend (ev : PlannedCorporateEvent) : LedgerAppend :=
  ⟨tenant, account, some ev.sleeveId, ev.eventType, ev.data, env.digest ev.dedupKey, none⟩

def appendCorporateEvents : Database → List PlannedCorporateEvent → Except PyError Database
  | db, [] => pure db
  | db, ev :: evs => do
    let appended ← db.append env (corporateAppend env tenant account ev)
    appendCorporateEvents appended.1 evs

/-- `sorted(touched)`, without duplicates. -/
def touchedSleeves (events : List PlannedCorporateEvent) : List String :=
  ((events.map fun ev => ev.sleeveId.text).insertionSort (· ≤ ·)).dedup

/-- `_append_all`: returns the number of planned events. -/
def applyCorporateEvents (events : List PlannedCorporateEvent) :
    Except PyError (Database × ℕ) := do
  let db ← appendCorporateEvents env tenant account db events
  if events.isEmpty then return (db, 0)
  else do
    assertWriteInvariants (db.projectAccount tenant account) (touchedSleeves events)
    return (db, events.length)

/-- `apply_split`. -/
def CorporateActionService.applySplit (symbol : String) (ratio : Decimal) (externalId : String) :
    Except PyError (Database × ℕ) := do
  let holders ← holdersOf db tenant account (heldQty symbol)
  applyCorporateEvents env db tenant account (← planSplit symbol ratio holders externalId)

/-- `apply_symbol_change`. -/
def CorporateActionService.applySymbolChange (oldSymbol newSymbol externalId : String) :
    Except PyError (Database × ℕ) := do
  let holders ← holdersOf db tenant account (heldPosition oldSymbol)
  applyCorporateEvents env db tenant account
    (← planSymbolChange oldSymbol newSymbol holders externalId)

/-- `apply_dividend`. -/
def CorporateActionService.applyDividend (symbol : String) (totalAmount : Decimal) (payId : String) :
    Except PyError (Database × ℕ) := do
  let holders ← holdersOf db tenant account (positiveQty symbol)
  applyCorporateEvents env db tenant account (← splitDividend symbol totalAmount holders payId)

end Corporate

end LlamaTrade
