import LlamaTrade.AccountServices

/-!
# The drift policy

What reconciliation does about material drift (`tasks/drift_policy.py`): a holding that only
the broker has is adopted into the Unmanaged sleeve, a contradicted one freezes the sleeves
that hold the symbol, and sustained cash drift freezes the account.
-/

namespace LlamaTrade

open Arithmetic

/-- `DriftKind`. -/
inductive DriftKind where
  | ok | dust | missingAtBroker | missingInLedger | qtyMismatch
  deriving DecidableEq, Repr

def DriftKind.value : DriftKind → String
  | ok => "ok"
  | dust => "dust"
  | missingAtBroker => "missing_at_broker"
  | missingInLedger => "missing_in_ledger"
  | qtyMismatch => "qty_mismatch"

/-- `Drift`. -/
structure Drift where
  symbol : String
  ledgerQty : Decimal
  brokerQty : Decimal
  kind : DriftKind

/-- `_q`. -/
def scaledQty (value : Decimal) : Except PyError String := do
  return text (← value.quantize defaultContext .halfEven (-8))

section Policy

variable (env : Platform) (db : Database) (tenant account : UUID)

/-- `_drift_event_id`. -/
def driftEventId (owner : UUID) (drift : Drift) (kind onDate : String) : Except PyError UUID := do
  let ledgerQty ← scaledQty drift.ledgerQty
  let brokerQty ← scaledQty drift.brokerQty
  return env.digest (owner.text ++ ":" ++ kind ++ ":" ++ drift.symbol ++ ":" ++ ledgerQty ++ ":" ++
    brokerQty ++ ":" ++ onDate)

/-- Freeze one sleeve and record it. -/
def freezeSleeve (sleeve : Sleeve) (reason : String) (eventId : UUID) : Except PyError Database := do
  let appended ← (db.setSleeveStatus sleeve.id .frozen).append env
    { tenantId := tenant
      accountId := account
      sleeveId := some sleeve.id
      eventType := .sleeveFrozen
      data := [("sleeve_id", .str sleeve.id.text), ("reason", .str reason)]
      eventId
      occurredAt := none }
  return appended.1

/-- `position is None or position.qty == 0`. -/
def holdsNone (acc : AccountProjection Decimal) (sleeve : Sleeve) (symbol : String) :
    Except PyError Bool :=
  match (acc.sleeve sleeve.id.text).positions[symbol]? with
  | none => pure true
  | some pos => eq pos.qty zero

/-- The loop of `_freeze_holding_sleeves` over the sleeves that were listed, with the
projection read before it; returns the number of sleeves frozen. -/
def freezeHolding (acc : AccountProjection Decimal) (drift : Drift) (onDate : String) :
    Database → List Sleeve → Except PyError (Database × ℕ)
  | db, [] => pure (db, 0)
  | db, sleeve :: sleeves => do
    if ← holdsNone acc sleeve drift.symbol then freezeHolding acc drift onDate db sleeves
    else if sleeve.status = .frozen then freezeHolding acc drift onDate db sleeves
    else do
      let eventId ← driftEventId env sleeve.id drift "freeze" onDate
      let db ← freezeSleeve env db tenant account sleeve
        (drift.kind.value ++ ": " ++ drift.symbol ++ " ledger=" ++ text drift.ledgerQty ++
          " broker=" ++ text drift.brokerQty) eventId
      let (db, frozen) ← freezeHolding acc drift onDate db sleeves
      return (db, frozen + 1)

/-- `_freeze_holding_sleeves`. -/
def freezeHoldingSleeves (drift : Drift) (onDate : String) : Except PyError (Database × ℕ) :=
  freezeHolding env tenant account (db.projectAccount tenant account) drift onDate db
    (db.listSleeves tenant account)

/-- The loop of `freeze_account_for_cash_drift`. -/
def freezeUnfrozen (cashDrift : Decimal) (onDate : String) :
    Database → List Sleeve → Except PyError (Database × ℕ)
  | db, [] => pure (db, 0)
  | db, sleeve :: sleeves => do
    if sleeve.status = .frozen then freezeUnfrozen cashDrift onDate db sleeves
    else do
      let db ← freezeSleeve env db tenant account sleeve
        ("sustained cash drift: broker − ledger = " ++ text cashDrift)
        (env.digest (sleeve.id.text ++ ":cash_drift_freeze:" ++ onDate))
      let (db, frozen) ← freezeUnfrozen cashDrift onDate db sleeves
      return (db, frozen + 1)

/-- `freeze_account_for_cash_drift`. -/
def freezeAccountForCashDrift (cashDrift : Decimal) (onDate : String) :
    Except PyError (Database × ℕ) :=
  freezeUnfrozen env tenant account cashDrift onDate db (db.listSleeves tenant account)

/-- What the broker and the order table answer while a holding is adopted: recent order
activity, and the average price of the holding in a snapshot that could be read. -/
structure AdoptionReads where
  recentActivity : Bool
  holding : Option Decimal

/-- `_adopt_external_trade`: returns the action taken. -/
def adoptExternalTrade (drift : Drift) (reads : AdoptionReads) (onDate : String) :
    Except PyError (Database × String) :=
  if reads.recentActivity then pure (db, "deferred")
  else
    match db.getSleeveByType tenant account .unmanaged, reads.holding with
    | some unmanaged, some avgPrice => do
      let delta ← sub drift.brokerQty drift.ledgerQty
      let eventId ← driftEventId env account drift "adopt" onDate
      let appended ← db.append env
        { tenantId := tenant
          accountId := account
          sleeveId := some unmanaged.id
          eventType := .externalTradeDetected
          data := [("sleeve_id", .str unmanaged.id.text), ("symbol", .str drift.symbol),
            ("qty", .str (text delta)), ("price", .str (text avgPrice))]
          eventId
          occurredAt := none }
      return (appended.1, if appended.2 then "adopted" else "deduped")
    | _, _ => pure (db, "skipped")

/-- `apply_drift_action`. -/
def applyDriftAction (drift : Drift) (reads : AdoptionReads) (onDate : String) :
    Except PyError (Database × String) :=
  match drift.kind with
  | .missingInLedger => adoptExternalTrade env db tenant account drift reads onDate
  | .missingAtBroker | .qtyMismatch => do
    let (db, frozen) ← freezeHoldingSleeves env db tenant account drift onDate
    return (db, "froze:" ++ PyText.intText frozen)
  | .ok | .dust => pure (db, "observed")

end Policy

end LlamaTrade
