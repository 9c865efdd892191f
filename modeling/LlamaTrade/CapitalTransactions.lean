import LlamaTrade.AccountServices
import LlamaTrade.TransitionRuns

/-!
# Capital requests as transactions

The handlers of `grpc/ledger_servicer.py` run each request in one transaction under READ
COMMITTED: a statement sees the committed rows and those of its own transaction. The fund
handlers take the advisory lock of the account first; `close_sleeve` takes none. Rows of the
log are in order of their sequence numbers, which an insert draws, so a row may become
visible after later ones.
-/

namespace LlamaTrade

open Arithmetic

/-- The requests on an account that move capital. -/
inductive CapitalRequest where
  | deposit (r : FundRequest)
  | withdraw (r : FundRequest)
  | allocate (r : FundRequest) (dest : UUID)
  | transfer (r : FundRequest) (frm dest : UUID)
  | close (tenant account id : UUID) (reason : Option String)

/-- What a request appends, and the sleeves whose invariants it asserts. -/
structure CapitalPlan where
  appends : List LedgerAppend
  touched : List UUID

section Plans

variable (env : Platform) (db : Database)

def fundAppends (r : FundRequest) (plan : FundPlan) : CapitalPlan where
  appends := plan.events.mapIdx fun index ev => fundAppend env r plan.op index ev
  touched := plan.touched

/-- What `close_sleeve` appends once it has found the sleeve. The lots of the positions are
read by statements of their own, so they are taken as they come. -/
def closeAppends (tenant account id : UUID) (reason : Option String)
    (lotsOf : String → List (Lot Decimal)) : Except PyError CapitalPlan := do
  let s := (db.projectAccount tenant account).sleeve id.text
  if ← eq s.reserved zero then do
    let (unmanaged, unallocated) ← rehomeTargets db tenant account
    let positions ← rehomedPositions lotsOf s.positions.toList
    let plan ← planSleeveClose id positions s.cash unmanaged.id unallocated.id reason
    return ⟨[closeAppend env tenant account id plan.eventData], [id, unmanaged.id, unallocated.id]⟩
  else .error (sleeveCloseError ("sleeve " ++ id.text ++ " has " ++ text s.reserved ++
    " reserved for in-flight orders; retry after they reach a terminal state"))

/-- With the lots of the same state, this is the plan of `close_sleeve` run alone. -/
theorem closeAppends_openLots (tenant account id : UUID) (reason : Option String) :
    closeAppends env db tenant account id reason (db.openLots tenant account id) =
      (closePlan db tenant account id reason).map fun p =>
        ⟨[closeAppend env tenant account id p.1.eventData], [id, p.2.1.id, p.2.2.id]⟩ := by
  unfold closeAppends closePlan
  simp only
  cases eq ((db.projectAccount tenant account).sleeve id.text).reserved zero with
  | error e => rfl
  | ok free =>
    cases free with
    | false => rfl
    | true =>
      simp only [ok_bind, if_true]
      cases rehomeTargets db tenant account with
      | error e => rfl
      | ok targets =>
        simp only [ok_bind]
        cases rehomedPositions (db.openLots tenant account id)
            ((db.projectAccount tenant account).sleeve id.text).positions.toList with
        | error e => rfl
        | ok positions =>
          simp only [ok_bind]
          cases planSleeveClose id positions ((db.projectAccount tenant account).sleeve id.text).cash
            targets.1.id targets.2.id reason <;> rfl

end Plans

namespace CapitalRequest

def isClose : CapitalRequest → Bool
  | close .. => true
  | _ => false

/-- The tenant and the account of a request. -/
def account : CapitalRequest → UUID × UUID
  | deposit r => (r.tenantId, r.accountId)
  | withdraw r => (r.tenantId, r.accountId)
  | allocate r _ => (r.tenantId, r.accountId)
  | transfer r _ _ => (r.tenantId, r.accountId)
  | close tenant account _ _ => (tenant, account)

/-- What the request plans from the rows it sees. -/
def plan (env : Platform) (db : Database) (lotsOf : String → List (Lot Decimal)) :
    CapitalRequest → Except PyError CapitalPlan
  | deposit r => (depositPlan db r).map (fundAppends env r)
  | withdraw r => (withdrawPlan db r).map (fundAppends env r)
  | allocate r dest => (allocatePlan db r dest).map (fundAppends env r)
  | transfer r frm dest => (transferPlan db r frm dest).map (fundAppends env r)
  | close tenant account id reason => closeAppends env db tenant account id reason lotsOf

end CapitalRequest

/-! ## Transactions -/

/-- How far a transaction is: begun; holding the account's lock, or having found a sleeve to
close; appending what it planned; writing the status of a closed sleeve; about to assert the
invariants; and ready to commit. -/
inductive Phase where
  | begun
  | ready
  | appending (a : LedgerAppend) (rest : List LedgerAppend) (touched : List UUID)
  | marking (touched : List UUID)
  | checking (touched : List UUID)
  | checked (touched : List UUID)

structure Transaction where
  request : CapitalRequest
  phase : Phase

/-- The phase after the appends: a close still has to write the status. -/
def CapitalRequest.appended (request : CapitalRequest) (touched : List UUID) : Phase :=
  if request.isClose then .marking touched else .checking touched

/-- The phase in which the given appends are still to be made. -/
def CapitalRequest.toAppend (request : CapitalRequest) (touched : List UUID) :
    List LedgerAppend → Phase
  | [] => request.appended touched
  | a :: rest => .appending a rest touched

/-- A row of the log, with the transaction that has not committed it yet. -/
structure LogRow where
  row : EventRow
  owner : Option ℕ

/-- The tables, the advisory lock of the account, the locks on sleeve rows, and the
transactions in flight. -/
structure World where
  rows : List LogRow
  sleeves : List Sleeve
  lock : Option ℕ
  rowLocks : List (UUID × ℕ)
  txn : ℕ → Option Transaction
  uniqueIds : (rows.map (·.row.eventId)).Nodup
  uniqueSleeves : (sleeves.map (·.id)).Nodup

namespace World

variable (w : World)

/-- The tables with the rows of the log that pass a test. -/
def tables (p : LogRow → Bool) : Database where
  events := (w.rows.filter p).map (·.row)
  sleeves := w.sleeves
  uniqueIds := by
    rw [List.map_map]
    exact w.uniqueIds.sublist (List.filter_sublist.map _)
  uniqueSleeves := w.uniqueSleeves

/-- What is committed. -/
def committed : Database := w.tables fun r => r.owner == none

/-- What a transaction sees. The status that a close writes is not read again in its own
transaction. -/
def view (t : ℕ) : Database := w.tables fun r => r.owner == none || r.owner == some t

def setPhase (t : ℕ) (request : CapitalRequest) (phase : Phase) : World :=
  { w with txn := Function.update w.txn t (some ⟨request, phase⟩) }

/-- The transaction is over: its locks are free. -/
def close (t : ℕ) : World :=
  { w with
    lock := if w.lock = some t then none else w.lock
    rowLocks := w.rowLocks.filter fun l => l.2 ≠ t
    txn := Function.update w.txn t none }

def rollback (t : ℕ) : World :=
  { w.close t with
    rows := w.rows.filter fun r => r.owner ≠ some t
    uniqueIds := w.uniqueIds.sublist (List.filter_sublist.map _) }

/-- The rows of the transaction become visible, and the sleeve of a close gets its status. -/
def commit (t : ℕ) (request : CapitalRequest) : World :=
  let db := match request with
    | .close _ _ id _ => w.committed.setSleeveStatus id .closed
    | _ => w.committed
  { w.close t with
    rows := w.rows.map fun r => if r.owner = some t then { r with owner := none } else r
    sleeves := db.sleeves
    uniqueIds := by
      have hids : (fun r : LogRow => r.row.eventId) ∘
          (fun r => if r.owner = some t then { r with owner := none } else r) =
            fun r => r.row.eventId := by
        funext r
        by_cases h : r.owner = some t <;> simp [h]
      rw [List.map_map, hids]
      exact w.uniqueIds
    uniqueSleeves := db.uniqueSleeves }

/-- Another transaction has a row with this id that it has not committed: the insert waits. -/
def idInFlight (t : ℕ) (id : UUID) : Bool :=
  w.rows.any fun r => r.row.eventId = id && r.owner != none && r.owner != some t

theorem notMem_of_free {t : ℕ} {a : LedgerAppend} (hflight : w.idInFlight t a.eventId = false)
    (hfind : (w.view t).findEvent a.eventId = none) : a.eventId ∉ w.rows.map (·.row.eventId) := by
  intro hmem
  obtain ⟨r, hr, hid⟩ := List.mem_map.mp hmem
  have howner : r.owner = none ∨ r.owner = some t := by
    by_contra hno
    obtain ⟨hnone, hsome⟩ := not_or.mp hno
    have hany := List.any_eq_false.mp hflight r hr
    simp [hid, hnone, hsome] at hany
  refine Database.findEvent_eq_none.mp hfind ?_
  refine List.mem_map.mpr ⟨r.row, List.mem_map.mpr ⟨r, List.mem_filter.mpr ⟨hr, ?_⟩, rfl⟩, hid⟩
  rcases howner with h | h <;> simp [h]

/-- The row of an insert draws the next sequence number of the whole log. -/
def insertRow (t : ℕ) (a : LedgerAppend) (h : a.eventId ∉ w.rows.map (·.row.eventId)) : World :=
  { w with
    rows := w.rows ++ [⟨⟨a.eventId, a.tenantId, a.accountId, a.sleeveId,
      ⟨maxSequence (w.rows.map (·.row.event)) + 1, a.eventType.value, a.data⟩⟩, some t⟩]
    uniqueIds := by
      rw [List.map_append, List.nodup_append]
      refine ⟨w.uniqueIds, by simp, ?_⟩
      intro id hid id' hid'
      rw [List.map_singleton, List.mem_singleton] at hid'
      have hnew : id' = a.eventId := hid'
      exact fun heq => h (hnew ▸ heq ▸ hid) }

end World

/-- The statements of the handlers, with the transaction that executes them. -/
inductive Statement where
  | start (t : ℕ) (request : CapitalRequest)
  | lock (t : ℕ)
  | find (t : ℕ)
  | plan (t : ℕ) (lotsOf : String → List (Lot Decimal))
  | append (t : ℕ)
  | mark (t : ℕ)
  | check (t : ℕ)
  | commit (t : ℕ)
  | rollback (t : ℕ)

section Steps

variable (env : Platform) (tenant account : UUID) (w : World)

/-- `lock_account_for_write` of the fund handlers, which waits while another transaction
holds the lock. -/
def lockStep (t : ℕ) : Transaction → Option World
  | ⟨request, .begun⟩ =>
    if request.isClose then none
    else if w.lock = none then some { w.setPhase t request .ready with lock := some t }
    else none
  | _ => none

/-- The first statement of `close_sleeve`: a sleeve that cannot be closed ends the request,
and so does one that is closed already. -/
def findStep (t : ℕ) : Transaction → Option World
  | ⟨.close tenant account id reason, .begun⟩ =>
    match closeableSleeve (w.view t) tenant account id with
    | .error _ => some (w.rollback t)
    | .ok sleeve =>
      if sleeve.status = .closed then some (w.rollback t)
      else some (w.setPhase t (.close tenant account id reason) .ready)
  | _ => none

def planStep (t : ℕ) (lotsOf : String → List (Lot Decimal)) : Transaction → Option World
  | ⟨request, .ready⟩ =>
    match request.plan env (w.view t) lotsOf with
    | .error _ => some (w.rollback t)
    | .ok plan => some (w.setPhase t request (request.toAppend plan.touched plan.appends))
  | _ => none

/-- `LedgerWriter.append`: the insert waits for a row in flight with the same id, and an
exception ends the request. -/
def appendStep (t : ℕ) : Transaction → Option World
  | ⟨request, .appending a rest touched⟩ =>
    if hflight : w.idInFlight t a.eventId = false then
      match (w.view t).append env a with
      | .error _ => some (w.rollback t)
      | .ok _ =>
        match hfind : (w.view t).findEvent a.eventId with
        | some _ => some (w.setPhase t request (request.toAppend touched rest))
        | none => some ((w.insertRow t a (w.notMem_of_free hflight hfind)).setPhase t request
            (request.toAppend touched rest))
    else none
  | _ => none

/-- `set_sleeve_status`: the update waits for a transaction that has written the row. -/
def markStep (t : ℕ) : Transaction → Option World
  | ⟨.close tenant account id reason, .marking touched⟩ =>
    if w.rowLocks.all fun l => l.1 ≠ id || l.2 = t then
      some { w.setPhase t (.close tenant account id reason) (.checking touched) with
        rowLocks := (id, t) :: w.rowLocks }
    else none
  | _ => none

/-- `assert_write_invariants` on the projection that the transaction sees. -/
def checkStep (t : ℕ) : Transaction → Option World
  | ⟨request, .checking touched⟩ =>
    match assertWriteInvariants ((w.view t).projectAccount tenant account)
        (touched.map UUID.text) with
    | .error _ => some (w.rollback t)
    | .ok _ => some (w.setPhase t request (.checked touched))
  | _ => none

def commitStep (t : ℕ) : Transaction → Option World
  | ⟨request, .checked _⟩ => some (w.commit t request)
  | _ => none

/-- One statement of one transaction; `none` when it cannot be executed or has to wait. A
transaction may be rolled back at any time. -/
def capitalStep : Statement → Option World
  | .start t request =>
    if (w.txn t).isNone ∧ request.account = (tenant, account) then
      some (w.setPhase t request .begun)
    else none
  | .lock t => (w.txn t).bind (lockStep w t)
  | .find t => (w.txn t).bind (findStep w t)
  | .plan t lotsOf => (w.txn t).bind (planStep env w t lotsOf)
  | .append t => (w.txn t).bind (appendStep env w t)
  | .mark t => (w.txn t).bind (markStep w t)
  | .check t => (w.txn t).bind (checkStep tenant account w t)
  | .commit t => (w.txn t).bind (commitStep w t)
  | .rollback t => (w.txn t).map fun _ => w.rollback t

end Steps

/-- A database on which no transaction runs. -/
def quiet (db : Database) : World where
  rows := db.events.map fun row => ⟨row, none⟩
  sleeves := db.sleeves
  lock := none
  rowLocks := []
  txn _ := none
  uniqueIds := by
    rw [List.map_map]
    exact db.uniqueIds
  uniqueSleeves := db.uniqueSleeves

end LlamaTrade
