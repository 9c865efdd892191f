import LlamaTrade.LedgerPlanners

/-!
# The tables of the ledger

The event log and the sleeves, the queries of `repositories.py` on them and the writer
of `ledger/writer.py`. A database value is what one transaction sees: the log in order of
its sequence numbers and the sleeves in order of creation, with the unique index on the
event ids and the primary key of the sleeves as invariants. Numbers a conflicting insert consumes leave gaps, which no
reader notices.
-/

namespace LlamaTrade

/-- What the service takes from outside: the digest of `hashlib`, cut to an id, and the
timestamps that the database driver can store. -/
structure Platform where
  digest : String → UUID
  storesTimestamp : String → Bool

inductive SleeveType where
  | strategy | manual | unmanaged | unallocated
  deriving DecidableEq, Repr

namespace SleeveType

def value : SleeveType → String
  | strategy => "strategy"
  | manual => "manual"
  | unmanaged => "unmanaged"
  | unallocated => "unallocated"

end SleeveType

inductive SleeveStatus where
  | active | frozen | closed
  deriving DecidableEq, Repr

/-- The columns of `ledger_sleeves` that are read. -/
structure Sleeve where
  id : UUID
  tenantId : UUID
  accountId : UUID
  type : SleeveType
  status : SleeveStatus
  strategyExecutionId : Option UUID
  deriving DecidableEq

/-- The columns of `ledger_events` that are read. -/
structure EventRow where
  eventId : UUID
  tenantId : UUID
  accountId : UUID
  sleeveId : Option UUID
  event : LedgerEvent

structure Database where
  events : List EventRow
  sleeves : List Sleeve
  uniqueIds : (events.map (·.eventId)).Nodup
  uniqueSleeves : (sleeves.map (·.id)).Nodup

/-- The resolved arguments of an append; `occurredAt` is the text that `_parse_ts` reads,
`none` for the current time. -/
structure LedgerAppend where
  tenantId : UUID
  accountId : UUID
  sleeveId : Option UUID
  eventType : LedgerEventType
  data : Payload
  eventId : UUID
  occurredAt : Option String

namespace Json

mutual

/-- No string of the document has a NUL character, which `jsonb` cannot store. -/
def storable : Json → Bool
  | str s => !s.toList.contains '\x00'
  | list items => storableItems items
  | obj fields => storableFields fields
  | _ => true

def storableItems : List Json → Bool
  | [] => true
  | x :: xs => storable x && storableItems xs

def storableFields : List (String × Json) → Bool
  | [] => true
  | (k, v) :: xs => !k.toList.contains '\x00' && storable v && storableFields xs

end

end Json

namespace Database

/-! ## Queries -/

def getSleeve (db : Database) (tenant id : UUID) : Option Sleeve :=
  db.sleeves.find? fun s => s.tenantId = tenant ∧ s.id = id

def getSleeveByType (db : Database) (tenant account : UUID) (type : SleeveType) : Option Sleeve :=
  db.sleeves.find? fun s =>
    s.tenantId = tenant ∧ s.accountId = account ∧ s.type = type ∧ s.strategyExecutionId = none

def getStrategySleeve (db : Database) (tenant account execution : UUID) : Option Sleeve :=
  db.sleeves.find? fun s =>
    s.tenantId = tenant ∧ s.accountId = account ∧ s.type = .strategy ∧
      s.strategyExecutionId = some execution

def listSleeves (db : Database) (tenant account : UUID) : List Sleeve :=
  db.sleeves.filter fun s => s.tenantId = tenant ∧ s.accountId = account

def readAccountEvents (db : Database) (tenant account : UUID) : List LedgerEvent :=
  (db.events.filter fun row => row.tenantId = tenant ∧ row.accountId = account).map (·.event)

/-- `project_account`, and the incremental projection, which folds the same events. -/
def projectAccount (db : Database) (tenant account : UUID) : AccountProjection Decimal :=
  fold (db.readAccountEvents tenant account)

/-- `open_lots` and `open_lots_incremental`. -/
def openLots (db : Database) (tenant account sleeve : UUID) (symbol : String) :
    List (Lot Decimal) :=
  LlamaTrade.openLots (db.readAccountEvents tenant account) sleeve.text symbol

/-! ## Writes -/

def setSleeveStatus (db : Database) (id : UUID) (status : SleeveStatus) : Database :=
  { db with
    sleeves := db.sleeves.map fun s => if s.id = id then { s with status } else s
    uniqueSleeves := by
      have hids : (fun s : Sleeve => s.id) ∘ (fun s => if s.id = id then { s with status } else s) =
          fun s => s.id := by
        funext s
        by_cases h : s.id = id <;> simp [h]
      rw [List.map_map, hids]
      exact db.uniqueSleeves }

/-- `add_sleeve`; the primary key refuses an id that is taken. -/
def addSleeve (db : Database) (sleeve : Sleeve) : Except PyError Database :=
  if h : sleeve.id ∈ db.sleeves.map (·.id) then
    .error (.service .database "duplicate key value violates unique constraint")
  else .ok
    { db with
      sleeves := db.sleeves ++ [sleeve]
      uniqueSleeves := by
        rw [List.map_append, List.nodup_append]
        refine ⟨db.uniqueSleeves, by simp, ?_⟩
        intro id hid id' hid'
        rw [List.map_singleton, List.mem_singleton] at hid'
        exact fun heq => h (hid' ▸ heq ▸ hid) }

def nextSequence (db : Database) : ℕ := maxSequence (db.events.map (·.event)) + 1

def findEvent (db : Database) (id : UUID) : Option EventRow :=
  db.events.find? fun row => row.eventId = id

theorem findEvent_eq_none {db : Database} {id : UUID} :
    db.findEvent id = none ↔ id ∉ db.events.map (·.eventId) := by
  simp [findEvent, List.find?_eq_none]

/-- The row that `INSERT ... ON CONFLICT DO NOTHING` adds. -/
def newRow (db : Database) (a : LedgerAppend) : EventRow :=
  ⟨a.eventId, a.tenantId, a.accountId, a.sleeveId, ⟨db.nextSequence, a.eventType.value, a.data⟩⟩

def insertRow (db : Database) (a : LedgerAppend) (h : db.findEvent a.eventId = none) : Database :=
  { db with
    events := db.events ++ [db.newRow a]
    uniqueIds := by
      rw [List.map_append, List.nodup_append]
      refine ⟨db.uniqueIds, by simp, ?_⟩
      intro id hid id' hid'
      rw [List.map_singleton, List.mem_singleton] at hid'
      have hnew : id' = a.eventId := hid'
      exact fun heq => findEvent_eq_none.mp h (hnew ▸ heq ▸ hid) }

/-- What the driver and `jsonb` can store of an append. -/
def stores (env : Platform) (a : LedgerAppend) : Bool :=
  Json.storableFields a.data && a.occurredAt.all env.storesTimestamp

/-- `LedgerWriter.append`: the balance check, the insert and, on a conflict, the select of
the existing row, which row-level security limits to the tenant's own rows. Returns the
database and whether a row was inserted. -/
def append (env : Platform) (db : Database) (a : LedgerAppend) :
    Except PyError (Database × Bool) := do
  assertBalanced (← buildPostings (D := Decimal) a.eventType a.data)
  if stores env a then
    match h : db.findEvent a.eventId with
    | none => pure (db.insertRow a h, true)
    | some row =>
      if row.tenantId = a.tenantId then pure (db, false)
      else .error (.service .runtime
        ("event " ++ a.eventId.text ++ " conflicted on insert but is absent"))
  else .error (.service .database "invalid input for a column of ledger_events")

end Database

end LlamaTrade
