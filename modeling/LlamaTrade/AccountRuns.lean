import LlamaTrade.DriftPolicy
import LlamaTrade.TransitionRuns
import LlamaTrade.WriterSpec

/-!
# Runs of an account

The operations that write an account, one transaction each. An operation that raises is
rolled back, so a run goes on from the database it found.
-/

namespace LlamaTrade

/-- An operation with its arguments; `fresh` ids are those that `uuid4` draws. -/
inductive Operation where
  | deposit (r : FundRequest)
  | withdraw (r : FundRequest)
  | allocate (r : FundRequest) (dest : UUID)
  | allocateToStrategy (r : FundRequest) (execution fresh : UUID)
  | transfer (r : FundRequest) (frm dest : UUID)
  | ensureBaseSleeves (tenant account : UUID) (fresh : ℕ → UUID)
  | openStrategySleeve (tenant account execution fresh : UUID)
  | closeSleeve (tenant account id : UUID) (reason : Option String)
  | ingest (message : FillMessage)
  | driftAction (tenant account : UUID) (drift : Drift) (reads : AdoptionReads) (onDate : String)
  | freezeForCashDrift (tenant account : UUID) (cashDrift : Decimal) (onDate : String)
  | split (tenant account : UUID) (symbol : String) (ratio : Decimal) (externalId : String)
  | symbolChange (tenant account : UUID) (oldSymbol newSymbol externalId : String)
  | dividend (tenant account : UUID) (symbol : String) (totalAmount : Decimal) (payId : String)

namespace Operation

/-- The database that the operation commits. -/
def commit (env : Platform) (db : Database) : Operation → Except PyError Database
  | deposit r => (LlamaTrade.deposit env db r).map (·.1)
  | withdraw r => (LlamaTrade.withdraw env db r).map (·.1)
  | allocate r dest => (LlamaTrade.allocate env db r dest).map (·.1)
  | allocateToStrategy r execution fresh =>
    (LlamaTrade.allocateToStrategy env db r execution fresh).map (·.1)
  | transfer r frm dest => (LlamaTrade.transfer env db r frm dest).map (·.1)
  | ensureBaseSleeves tenant account fresh =>
    (LlamaTrade.ensureBaseSleeves db tenant account fresh).map (·.1)
  | openStrategySleeve tenant account execution fresh =>
    (getOrCreateStrategySleeve db tenant account execution fresh).map (·.1)
  | closeSleeve tenant account id reason =>
    (LlamaTrade.closeSleeve env db tenant account id reason).map (·.1)
  | ingest message => appendFromMessage env message >>= persistAppend env db
  | driftAction tenant account drift reads onDate =>
    (applyDriftAction env db tenant account drift reads onDate).map (·.1)
  | freezeForCashDrift tenant account cashDrift onDate =>
    (freezeAccountForCashDrift env db tenant account cashDrift onDate).map (·.1)
  | split tenant account symbol ratio externalId =>
    (CorporateActionService.applySplit env db tenant account symbol ratio externalId).map (·.1)
  | symbolChange tenant account oldSymbol newSymbol externalId =>
    (CorporateActionService.applySymbolChange env db tenant account oldSymbol newSymbol
      externalId).map (·.1)
  | dividend tenant account symbol totalAmount payId =>
    (CorporateActionService.applyDividend env db tenant account symbol totalAmount payId).map (·.1)

/-- The database after the operation: the one it found, if it raises. -/
def perform (env : Platform) (db : Database) (op : Operation) : Database :=
  match op.commit env db with
  | .ok db' => db'
  | .error _ => db

theorem perform_of_commit {env : Platform} {db db' : Database} {op : Operation}
    (h : op.commit env db = .ok db') : op.perform env db = db' := by
  unfold perform
  rw [h]

theorem commit_of_isOk {env : Platform} {db : Database} {op : Operation}
    (h : (op.commit env db).isOk = true) : op.commit env db = .ok (op.perform env db) := by
  unfold perform
  cases hop : op.commit env db with
  | ok db' => rfl
  | error e =>
    rw [hop] at h
    cases h

/-- What every commit keeps, every operation keeps. -/
theorem perform_induction {env : Platform} {db : Database} {op : Operation} {P : Database → Prop}
    (h : P db) (hcommit : ∀ db', op.commit env db = .ok db' → P db') : P (op.perform env db) := by
  unfold perform
  cases hop : op.commit env db with
  | ok db' => exact hcommit db' hop
  | error e => exact h

end Operation

/-- The step of a run. -/
def accountStep (env : Platform) (db : Database) (op : Operation) : Option Database :=
  some (op.perform env db)

theorem map_eq_ok {α β : Type} {x : Except PyError α} {f : α → β} {b : β} :
    x.map f = .ok b ↔ ∃ a, x = .ok a ∧ f a = b := by
  cases x with
  | error e => simp [Except.map]
  | ok a => simp [Except.map]

end LlamaTrade
