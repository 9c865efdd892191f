import LlamaTrade.AccountServices
import LlamaTrade.TransitionRuns

/-!
# Onboarding of an account

`get_or_create_account` of the ledger's servicer with the onboarding behind it
(`services/onboarding_service.py`, `services/sleeve_service.py`, `ledger/backfill.py`). The whole
call is one transaction. The onboarding reads the broker, resolves the account and seeds a new book;
an exception in it is swallowed, and what it has written so far stays in the transaction. Only an
error of the database ends the call, since every later statement of the transaction raises then.
-/

namespace LlamaTrade

open Arithmetic

/-- The columns of `ledger_accounts` that are read. -/
structure Account where
  id : UUID
  tenantId : UUID
  credentialsId : UUID
  alpacaAccountId : Option String
  deriving DecidableEq

/-- `BrokerHolding`, and `BrokerPosition` of the planner. -/
structure BrokerHolding where
  symbol : String
  qty : Decimal
  avgPrice : Decimal

structure BrokerSnapshot where
  cash : Decimal
  holdings : List BrokerHolding
  brokerAccountId : Option String

/-- `PlannedEvent`. -/
structure PlannedEvent where
  eventType : LedgerEventType
  sleeveId : UUID
  data : Payload
  dedupKey : String

structure AccountTables where
  accounts : List Account
  ledger : Database

/-- What a call meets: the answer of the broker, what the appends raise besides their own checks,
what the commit raises, and the ids that it draws. The later ones are for an account that is created
after the onboarding has failed. -/
structure OnboardingCall where
  snapshot : Except PyError BrokerSnapshot
  appendFault : ℕ → Option PyError
  commitFault : Option PyError
  accountId : UUID
  sleeveIds : ℕ → UUID
  laterAccountId : UUID
  laterSleeveIds : ℕ → UUID

/-- After an error of the database the transaction takes no further statement. -/
def PyError.aborts : PyError → Bool
  | .service .database _ => true
  | _ => false

def uniqueViolation : PyError :=
  .service .database "duplicate key value violates unique constraint"

namespace AccountTables

variable (tables : AccountTables) (tenant : UUID)

def getAccountByCredentials (credentials : UUID) : Option Account :=
  tables.accounts.find? fun a => a.tenantId = tenant ∧ a.credentialsId = credentials

def getAccountByBrokerId (broker : String) : Option Account :=
  tables.accounts.find? fun a => a.tenantId = tenant ∧ a.alpacaAccountId = some broker

/-- `add_account`, with the unique constraints of the table. -/
def addAccount (account : Account) : Except PyError AccountTables :=
  if tables.accounts.any fun a => a.id = account.id ∨ a.credentialsId = account.credentialsId ∨
      (a.tenantId = account.tenantId ∧ a.alpacaAccountId.isSome ∧
        a.alpacaAccountId = account.alpacaAccountId) then
    .error uniqueViolation
  else .ok { tables with accounts := tables.accounts ++ [account] }

/-- `set_account_credentials`. -/
def setAccountCredentials (id credentials : UUID) : Except PyError AccountTables :=
  if tables.accounts.any fun a => a.id ≠ id ∧ a.credentialsId = credentials then
    .error uniqueViolation
  else .ok { tables with
    accounts := tables.accounts.map fun a =>
      if a.id = id then { a with credentialsId := credentials } else a }

/-- `set_account_broker_id`. -/
def setAccountBrokerId (id : UUID) (broker : String) : Except PyError AccountTables :=
  if tables.accounts.any fun a => a.id ≠ id ∧ a.tenantId = tenant ∧
      a.alpacaAccountId = some broker then
    .error uniqueViolation
  else .ok { tables with
    accounts := tables.accounts.map fun a =>
      if a.id = id then { a with alpacaAccountId := some broker } else a }

/-- `_adopt_broker_id`. -/
def adoptBrokerId (account : Account) (broker : String) : Except PyError AccountTables :=
  match account.alpacaAccountId with
  | some _ => .ok tables
  | none =>
    match tables.getAccountByBrokerId account.tenantId broker with
    | some _ => .ok tables
    | none => tables.setAccountBrokerId account.tenantId account.id broker

/-- The account with a given broker account, if the snapshot names one. -/
def relinked (broker : Option String) : Option Account :=
  broker.bind (tables.getAccountByBrokerId tenant)

/-- `resolve_account`; the flag is `true` when the account was created. -/
def resolveAccount (credentials : UUID) (broker : Option String) (fresh : UUID) :
    Except PyError (AccountTables × Account × Bool) :=
  match tables.getAccountByCredentials tenant credentials with
  | some account => do
    let adopted ← match broker with
      | some broker => tables.adoptBrokerId account broker
      | none => pure tables
    return (adopted, account, false)
  | none =>
    match tables.relinked tenant broker with
    | some account => do
      return (← tables.setAccountCredentials account.id credentials, account, false)
    | none => do
      let account := ⟨fresh, tenant, credentials, broker⟩
      return (← tables.addAccount account, account, true)

/-- `resolve_account` and `ensure_base_sleeves`. -/
def bootstrap (credentials : UUID) (broker : Option String) (fresh : UUID) (sleeveIds : ℕ → UUID) :
    Except PyError (AccountTables × Account × Bool × List Sleeve) := do
  let (tables, account, created) ← tables.resolveAccount tenant credentials broker fresh
  let (ledger, base) ← ensureBaseSleeves tables.ledger tenant account.id sleeveIds
  return ({ tables with ledger }, account, created, base)

end AccountTables

/-! ## The seeds -/

def cashSeed (unallocated : UUID) (cash : Decimal) : PlannedEvent where
  eventType := .fundsDeposited
  sleeveId := unallocated
  data := [("sleeve_id", .str unallocated.text), ("amount", .str (text cash))]
  dedupKey := "backfill:cash"

def positionSeed (unmanaged : UUID) (h : BrokerHolding) : PlannedEvent where
  eventType := .externalTradeDetected
  sleeveId := unmanaged
  data := [("sleeve_id", .str unmanaged.text), ("symbol", .str h.symbol), ("qty", .str (text h.qty)),
    ("price", .str (text h.avgPrice))]
  dedupKey := "backfill:pos:" ++ h.symbol

/-- The loop over the broker's positions; positions of quantity zero are skipped. -/
def positionSeeds (unmanaged : UUID) : List BrokerHolding → Except PyError (List PlannedEvent)
  | [] => pure []
  | h :: hs => do
    if ← eq h.qty zero then positionSeeds unmanaged hs
    else return positionSeed unmanaged h :: (← positionSeeds unmanaged hs)

/-- `plan_backfill`. -/
def planBackfill (s : BrokerSnapshot) (unallocated unmanaged : UUID) :
    Except PyError (List PlannedEvent) := do
  let funded ← lt zero s.cash
  let positions ← positionSeeds unmanaged s.holdings
  return (if funded then [cashSeed unallocated s.cash] else []) ++ positions

section Onboarding

variable (env : Platform) (tenant credentials : UUID)

/-- `_backfill_event_id`. -/
def backfillEventId (account : UUID) (dedupKey : String) : UUID :=
  env.digest (account.text ++ ":" ++ dedupKey)

def seedAppend (account : UUID) (ev : PlannedEvent) : LedgerAppend :=
  ⟨tenant, account, some ev.sleeveId, ev.eventType, ev.data, backfillEventId env account ev.dedupKey,
    none⟩

/-- The appends of `onboard`, up to the first one that raises. -/
def appendSeeds (account : UUID) (fault : ℕ → Option PyError) :
    Database → ℕ → List PlannedEvent → Attempt Database
  | db, _, [] => (db, none)
  | db, n, ev :: evs =>
    match fault n with
    | some e => (db, some e)
    | none =>
      .guarded db (db.append env (seedAppend env tenant account ev)) fun appended =>
        appendSeeds account fault appended.1 (n + 1) evs

/-- The seeding of a new book. -/
def seedBook (tables : AccountTables) (call : OnboardingCall) (s : BrokerSnapshot) (account : UUID) :
    List Sleeve → Attempt AccountTables
  | [unallocated, _, unmanaged] =>
    .guarded tables (planBackfill s unallocated.id unmanaged.id) fun events =>
      let seeded := appendSeeds env tenant account call.appendFault tables.ledger 0 events
      ({ tables with ledger := seeded.1 }, seeded.2)
  | _ => (tables, some (.keyError "unallocated"))

/-- `onboard`: the tables as the transaction sees them afterwards, and the account or what was
raised. -/
def onboard (tables : AccountTables) (call : OnboardingCall) :
    AccountTables × Except PyError Account :=
  match call.snapshot with
  | .error e => (tables, .error e)
  | .ok s =>
    match tables.bootstrap tenant credentials s.brokerAccountId call.accountId call.sleeveIds with
    | .error e => (tables, .error e)
    | .ok (tables, account, false, _) => (tables, .ok account)
    | .ok (tables, account, true, base) =>
      match seedBook env tenant tables call s account.id base with
      | (tables, none) => (tables, .ok account)
      | (tables, some e) => (tables, .error e)

/-- The end of a call: the base sleeves and the commit. -/
def finishCall (tables : AccountTables) (call : OnboardingCall) (account : Account) :
    Except PyError AccountTables := do
  let (ledger, _) ← ensureBaseSleeves tables.ledger tenant account.id call.laterSleeveIds
  match call.commitFault with
  | some e => .error e
  | none => return { tables with ledger }

/-- A call whose account is new, or has no broker account on record yet. -/
def backfillCall (tables : AccountTables) (call : OnboardingCall) (existing : Option Account) :
    Except PyError AccountTables :=
  match onboard env tenant credentials tables call, existing with
  | (after, .ok account), _ => finishCall tenant after call account
  | (after, .error e), some account =>
    if e.aborts then .error e else finishCall tenant after call account
  | (after, .error e), none =>
    if e.aborts then .error e
    else do
      let (after, account, _) ← after.resolveAccount tenant credentials none call.laterAccountId
      finishCall tenant after call account

/-- `get_or_create_account`: the tables that it commits, or the exception that rolls it back. -/
def getOrCreateAccount (tables : AccountTables) (call : OnboardingCall) :
    Except PyError AccountTables :=
  match tables.getAccountByCredentials tenant credentials with
  | none => backfillCall env tenant credentials tables call none
  | some account =>
    if account.alpacaAccountId.isSome then finishCall tenant tables call account
    else backfillCall env tenant credentials tables call (some account)

/-- The tables after a call; a call that raises leaves them as they are. -/
def onboardingStep (tables : AccountTables) (call : OnboardingCall) : Option AccountTables :=
  match getOrCreateAccount env tenant credentials tables call with
  | .ok after => some after
  | .error _ => some tables

/-- The snapshot that a call gets, if it asks the broker. -/
def readSnapshot (tables : AccountTables) (call : OnboardingCall) : Option BrokerSnapshot :=
  match tables.getAccountByCredentials tenant credentials with
  | none => call.snapshot.toOption
  | some account => if account.alpacaAccountId.isSome then none else call.snapshot.toOption

end Onboarding

end LlamaTrade
