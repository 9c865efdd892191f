import LlamaTrade.FillMessages

/-!
# Fill ingestion

The consumer of the fill stream (`tasks/fill_ingestion.py`): a message is translated,
rerouted when its sleeve is closed, enriched when it is a sell without a cost basis and
appended; after a fill the sleeve is frozen if its balances are impossible. Everything
happens in one transaction, so an exception leaves the database as it was.
-/

namespace LlamaTrade

/-- `InvariantViolation`. -/
structure InvariantViolation where
  kind : String
  detail : String

section Invariants

variable {D : Type} [Arithmetic D]

open Arithmetic

def negativePositions : List (String × PositionState D) →
    Except PyError (List InvariantViolation)
  | [] => pure []
  | (symbol, pos) :: rest => do
    let negative ← lt pos.qty zero
    let violations ← negativePositions rest
    return if negative then ⟨"negative_position", symbol ++ " qty=" ++ text pos.qty⟩ :: violations
      else violations

/-- `reserved > ZERO and reserved > cash`. -/
def reservedExceeds (s : SleeveProjection D) : Except PyError Bool := do
  if ← lt zero s.reserved then lt s.cash s.reserved else pure false

/-- `check_sleeve_invariants`; positions are taken in order of their symbols. -/
def checkSleeveInvariants (s : SleeveProjection D) : Except PyError (List InvariantViolation) := do
  let overdrawn ← lt s.cash zero
  let exceeds ← reservedExceeds s
  let negative ← negativePositions s.positions.toList
  return (if overdrawn then [⟨"negative_cash", "cash=" ++ text s.cash⟩] else []) ++
    (if exceeds then
      [⟨"reserved_exceeds_cash", "reserved=" ++ text s.reserved ++ " cash=" ++ text s.cash⟩]
      else []) ++ negative

/-- `check_account_invariants`. -/
def checkAccountInvariants (acc : AccountProjection D) :
    Except PyError (List InvariantViolation) := do
  let total ← sum (acc.sleeves.toList.map fun s => s.2.cash)
  if ← lt total zero then return [⟨"negative_account_cash", "total_cash=" ++ text total⟩]
  else return []

end Invariants

def InvariantViolation.describe (violations : List InvariantViolation) : String :=
  String.intercalate "; " (violations.map fun v => v.kind ++ "(" ++ v.detail ++ ")")

section Ingestion

variable (env : Platform) (db : Database)

/-- `_reroute_if_sleeve_closed`. -/
def rerouteIfSleeveClosed (a : LedgerAppend) : LedgerAppend :=
  match a.sleeveId.bind fun id => db.getSleeve a.tenantId id with
  | none => a
  | some sleeve =>
    if sleeve.status = .closed then
      match db.getSleeveByType a.tenantId a.accountId .unmanaged with
      | none => a
      | some unmanaged =>
        { a with
          sleeveId := some unmanaged.id
          data := a.data.set "sleeve_id" (.str unmanaged.id.text) }
    else a

/-- The open lots of the sleeve and symbol of a sell. -/
def lotsFor (a : LedgerAppend) : Except PyError (List (Lot Decimal)) := do
  let symbol ← a.data.text "symbol"
  return a.sleeveId.elim [] fun sleeve => db.openLots a.tenantId a.accountId sleeve symbol

/-- The append that `persist_append` hands to the writer. -/
def preparedAppend (a : LedgerAppend) : Except PyError LedgerAppend := do
  let a := rerouteIfSleeveClosed db a
  if needsCostBasis a then enrichSellFill a (← lotsFor db a) else pure a

/-- The violations of the sleeve of an append. -/
def sleeveViolations (a : LedgerAppend) : Except PyError (List InvariantViolation) :=
  checkSleeveInvariants
    ((db.projectAccount a.tenantId a.accountId).sleeve (a.sleeveId.elim "None" UUID.text))

/-- The `SLEEVE_FROZEN` event of an invariant violation. -/
def freezeAppend (a : LedgerAppend) (violations : List InvariantViolation) : LedgerAppend where
  tenantId := a.tenantId
  accountId := a.accountId
  sleeveId := a.sleeveId
  eventType := .sleeveFrozen
  data := [("sleeve_id", .str (a.sleeveId.elim "None" UUID.text)),
    ("reason", .str ("invariant violation — " ++ InvariantViolation.describe violations))]
  eventId := env.digest (a.eventId.text ++ ":invariant_freeze")
  occurredAt := none

/-- `_freeze_if_invariant_violated`. -/
def freezeIfInvariantViolated (a : LedgerAppend) : Except PyError Database := do
  let violations ← sleeveViolations db a
  if violations.isEmpty then pure db
  else
    match a.sleeveId.bind fun id => db.getSleeve a.tenantId id with
    | none => pure db
    | some sleeve =>
      if sleeve.status = .frozen then pure db
      else do
        let r ← (db.setSleeveStatus sleeve.id .frozen).append env (freezeAppend env a violations)
        return r.1

/-- `persist_append`. -/
def persistAppend (a : LedgerAppend) : Except PyError Database := do
  let a ← preparedAppend db a
  let r ← db.append env a
  if a.eventType = .orderFilled then freezeIfInvariantViolated env r.1 a else pure r.1

/-- What becomes of a message: it is handled, parked on the dead-letter stream, or retried
in place. -/
inductive Outcome where
  | completed (db : Database)
  | poison (cause : PyError)
  | transient (cause : PyError)

namespace Outcome

def isCompleted : Outcome → Bool
  | completed _ => true
  | _ => false

def isPoison : Outcome → Bool
  | poison _ => true
  | _ => false

def isTransient : Outcome → Bool
  | transient _ => true
  | _ => false

/-- The database after the message: as before, unless it was handled. -/
def database (db : Database) : Outcome → Database
  | completed db' => db'
  | _ => db

theorem eq_completed {outcome : Outcome} (h : outcome.isCompleted = true) (db : Database) :
    outcome = .completed (outcome.database db) := by
  cases outcome with
  | completed db' => rfl
  | poison cause => cases h
  | transient cause => cases h

end Outcome

/-- The entry handler and `classify_fill_error`: only a `PoisonError`, raised for an
untranslatable message and for a quarantined fill, is poison. -/
def entryHandler (message : FillMessage) : Outcome :=
  match appendFromMessage env message with
  | .error e => .poison e
  | .ok a =>
    match persistAppend env db a with
    | .ok db => .completed db
    | .error (.service .fillQuarantine message) => .poison (.service .fillQuarantine message)
    | .error e => .transient e

end Ingestion

end LlamaTrade
