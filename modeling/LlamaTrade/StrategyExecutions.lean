import LlamaTrade.AccountServices
import LlamaTrade.LiveSessions

/-!
# Executions of strategies and their sleeves

The life of one execution in the strategy service (`services/strategy_service.py`): it is
created PENDING, started, paused, resumed, stopped, or cancelled when its strategy is
archived. Starting it funds its sleeve, stopping it closes the sleeve; the sleeves live in
the ledger of the portfolio service, which is called over the network. Requests run side by
side, each as its own READ COMMITTED transaction that reads the row, decides and writes the
columns it changed.

A call is a message: the ledger may handle it after the client has given up, and its answer
may be lost. A request can crash wherever it waits.
-/

namespace LlamaTrade

/-- The columns of the execution that never change, and the account that
`get_or_create_account` resolves for its credentials. -/
structure ExecutionTerms where
  executionId : UUID
  tenantId : UUID
  allocatedCapital : Option Decimal
  credentialsId : Option UUID
  account : UUID

/-- The columns of the execution that requests write. -/
structure ExecutionState where
  status : ExecutionStatus
  sleeveId : Option UUID
  accountId : Option UUID
  deriving DecidableEq

/-- A call of the ledger. `allocate_capital` names no target sleeve and carries no request id. -/
inductive LedgerCall where
  | allocate (amount : Decimal)
  | close (account sleeve : UUID) (reason : String)

structure CallInFlight where
  token : ℕ
  call : LedgerCall

/-- Where a request waits. -/
inductive ExecutionPhase where
  | idle
  -- `start_execution` and `_fund_sleeve`
  | starting (loaded : ExecutionState) (amount : Decimal)
  | funding (loaded : ExecutionState) (amount : Decimal)
  | allocating (loaded : ExecutionState) (token : ℕ)
  | recordingStart (loaded : ExecutionState) (sleeve : Option UUID)
  -- `pause_execution`, `resume_execution` and `stop_execution`, past their check
  | pausing (loaded : ExecutionState)
  | resuming (loaded : ExecutionState)
  | stopping (loaded : ExecutionState)
  | refreshing
  -- `_close_sleeve`
  | closing (token : ℕ)
  | clearing
  -- `delete_strategy`, past its count, and with the execution selected
  | archiving
  | cancelling (loaded : ExecutionState)

structure ExecutionWorld where
  row : ExecutionState
  db : Database
  wire : List CallInFlight
  nextToken : ℕ
  /-- The amounts that the ledger has allocated on behalf of the execution. -/
  granted : List Decimal
  tasks : ℕ → ExecutionPhase

inductive ExecutionAction where
  | start (t : ℕ) (ledger : Bool)
  | bootstrap (t : ℕ) (ok : Bool) (fresh : ℕ → UUID)
  | allocate (t : ℕ)
  | commitStart (t : ℕ)
  | pause (t : ℕ)
  | commitPause (t : ℕ)
  | resume (t : ℕ)
  | commitResume (t : ℕ)
  | stop (t : ℕ)
  | commitStop (t : ℕ)
  /-- The row is read again, and the close of its sleeve is sent. -/
  | refresh (t : ℕ) (ledger : Bool) (reason : String)
  | sweep (t : ℕ)
  | clear (t : ℕ)
  | archive (t : ℕ)
  | select (t : ℕ)
  | cancel (t : ℕ)
  /-- The ledger handles a call; the answer reaches the request that waits for it, or nobody. -/
  | handle (token : ℕ) (fresh : ℕ → UUID) (answers : Option ℕ)
  | drop (token : ℕ)
  | giveUp (t : ℕ)
  | crash (t : ℕ)
  /-- Other operations of the ledger. -/
  | other (db : Database)

namespace ExecutionWorld

variable (w : ExecutionWorld)

def setTask (t : ℕ) (phase : ExecutionPhase) : ExecutionWorld :=
  { w with tasks := Function.update w.tasks t phase }

/-- A commit of the request. -/
def commit (t : ℕ) (row : ExecutionState) (phase : ExecutionPhase) : ExecutionWorld :=
  { w.setTask t phase with row }

def send (t : ℕ) (call : LedgerCall) (phase : ℕ → ExecutionPhase) : ExecutionWorld :=
  { w.setTask t (phase w.nextToken) with
    wire := w.wire ++ [⟨w.nextToken, call⟩]
    nextToken := w.nextToken + 1 }

end ExecutionWorld

/-- The guard of `_fund_sleeve`: what to allocate, if the execution is to be funded. -/
def fundingIntent (terms : ExecutionTerms) (loaded : ExecutionState) (ledger : Bool) :
    Option Decimal :=
  if ledger = false ∨ loaded.sleeveId ≠ none ∨ terms.credentialsId = none then none
  else terms.allocatedCapital

/-- The commit of `start_execution`. -/
def startedRow (account : UUID) (row : ExecutionState) : Option UUID → ExecutionState
  | some sleeve => ⟨.running, some sleeve, some account⟩
  | none => { row with status := .running }

/-- What the ledger commits for a call, and the sleeve it answers with. -/
def LedgerCall.serve (env : Platform) (terms : ExecutionTerms) (db : Database) (fresh : ℕ → UUID) :
    LedgerCall → Except PyError (Database × Option UUID)
  | .allocate amount => do
    let (db, views) ← allocateToStrategy env db
      ⟨terms.tenantId, terms.account, amount, "", fun i => fresh (i + 1)⟩ terms.executionId (fresh 0)
    return (db, views.head?.map (·.sleeve.id))
  | .close account sleeve reason => do
    let (db, _) ← closeSleeve env db terms.tenantId account sleeve (some reason)
    return (db, none)

/-- The amounts that a served call allocates. -/
def LedgerCall.grants : LedgerCall → List Decimal
  | .allocate amount => [amount]
  | .close _ _ _ => []

/-- The call that a request waits for. -/
def ExecutionPhase.token : ExecutionPhase → Option ℕ
  | .allocating _ token | .closing token => some token
  | _ => none

/-- Where a request goes on with the answer of a served call. -/
def afterServed (sleeve : Option UUID) : ExecutionPhase → ExecutionPhase
  | .allocating loaded _ => .recordingStart loaded sleeve
  | .closing _ => .clearing
  | phase => phase

/-- The answer goes to the request that waits for it; a failed call ends it. -/
def ExecutionWorld.answer (w : ExecutionWorld) (token : ℕ) (answers : Option ℕ)
    (next : ExecutionPhase → ExecutionPhase) : Option ExecutionWorld :=
  match answers with
  | none => some w
  | some t =>
    if (w.tasks t).token = some token then some (w.setTask t (next (w.tasks t))) else none

/-- The sleeves of the execution, and whether they are closed. -/
def sleevesOf (execution : UUID) (db : Database) : List (Sleeve × Bool) :=
  (db.sleeves.filter fun s => s.strategyExecutionId = some execution).map fun s =>
    ({ s with status := .active }, s.status = .closed)

/-- One step of the system; `none` when it is not enabled. A check that fails ends the
request. -/
def executionStep (env : Platform) (terms : ExecutionTerms) (w : ExecutionWorld) :
    ExecutionAction → Option ExecutionWorld
  | .start t ledger =>
    match w.tasks t with
    | .idle =>
      if w.row.status = .pending then
        match fundingIntent terms w.row ledger with
        | some amount => some (w.setTask t (.starting w.row amount))
        | none => some (w.setTask t (.recordingStart w.row none))
      else some w
    | _ => none
  | .bootstrap t ok fresh =>
    match w.tasks t with
    | .starting loaded amount =>
      match ok, ensureBaseSleeves w.db terms.tenantId terms.account fresh with
      | true, .ok (db, _) => some { w.setTask t (.funding loaded amount) with db }
      | _, _ => some (w.setTask t .idle)
    | _ => none
  | .allocate t =>
    match w.tasks t with
    | .funding loaded amount => some (w.send t (.allocate amount) (.allocating loaded))
    | _ => none
  | .commitStart t =>
    match w.tasks t with
    | .recordingStart _ sleeve => some (w.commit t (startedRow terms.account w.row sleeve) .idle)
    | _ => none
  | .pause t =>
    match w.tasks t with
    | .idle => if w.row.status = .running then some (w.setTask t (.pausing w.row)) else some w
    | _ => none
  | .commitPause t =>
    match w.tasks t with
    | .pausing _ => some (w.commit t { w.row with status := .paused } .idle)
    | _ => none
  | .resume t =>
    match w.tasks t with
    | .idle => if w.row.status = .paused then some (w.setTask t (.resuming w.row)) else some w
    | _ => none
  | .commitResume t =>
    match w.tasks t with
    | .resuming _ => some (w.commit t { w.row with status := .running } .idle)
    | _ => none
  | .stop t =>
    match w.tasks t with
    | .idle => if w.row.status.isLive then some (w.setTask t (.stopping w.row)) else some w
    | _ => none
  | .commitStop t =>
    match w.tasks t with
    | .stopping _ => some (w.commit t { w.row with status := .stopped } .refreshing)
    | _ => none
  | .refresh t ledger reason =>
    match w.tasks t with
    | .refreshing =>
      match ledger, w.row.sleeveId, w.row.accountId with
      | true, some sleeve, some account => some (w.send t (.close account sleeve reason) .closing)
      | _, _, _ => some (w.setTask t .idle)
    | _ => none
  | .sweep t =>
    match w.tasks t with
    | .idle =>
      match w.row.status, w.row.sleeveId, w.row.accountId with
      | .stopped, some sleeve, some account | .error, some sleeve, some account =>
        some (w.send t (.close account sleeve "reconcile stranded sleeve") .closing)
      | _, _, _ => some w
    | _ => none
  | .clear t =>
    match w.tasks t with
    | .clearing => some (w.commit t { w.row with sleeveId := none } .idle)
    | _ => none
  | .archive t =>
    match w.tasks t with
    | .idle => if w.row.status.isLive then some w else some (w.setTask t .archiving)
    | _ => none
  | .select t =>
    match w.tasks t with
    | .archiving =>
      if w.row.status = .pending then some (w.setTask t (.cancelling w.row))
      else some (w.setTask t .idle)
    | _ => none
  | .cancel t =>
    match w.tasks t with
    | .cancelling _ => some (w.commit t { w.row with status := .stopped } .idle)
    | _ => none
  | .handle token fresh answers =>
    (w.wire.find? (·.token = token)).bind fun inFlight =>
      let w₁ := { w with wire := w.wire.filter (·.token ≠ token) }
      match inFlight.call.serve env terms w.db fresh with
      | .ok (db, sleeve) =>
        { w₁ with db, granted := w.granted ++ inFlight.call.grants }.answer token answers
          (afterServed sleeve)
      | .error _ => w₁.answer token answers fun _ => .idle
  | .drop token => some { w with wire := w.wire.filter (·.token ≠ token) }
  | .giveUp t =>
    match (w.tasks t).token with
    | some _ => some (w.setTask t .idle)
    | none => none
  | .crash t => some (w.setTask t .idle)
  | .other db =>
    if sleevesOf terms.executionId db = sleevesOf terms.executionId w.db then some { w with db }
    else none

/-- An execution that was just created; the ledger knows nothing of it. -/
structure JustCreated (terms : ExecutionTerms) (w : ExecutionWorld) : Prop where
  row : w.row = ⟨.pending, none, none⟩
  sleeves : sleevesOf terms.executionId w.db = []
  wire : w.wire = []
  granted : w.granted = []
  tasks : ∀ t, w.tasks t = .idle

/-! ## What a step can do -/

/-- The moves of one request that write nothing: where it waits before and after. -/
inductive RequestMove (terms : ExecutionTerms) (w : ExecutionWorld) :
    ExecutionAction → ℕ → ExecutionPhase → ExecutionPhase → Prop
  | fund {t ledger amount} (hpending : w.row.status = .pending)
    (hintent : fundingIntent terms w.row ledger = some amount) :
    RequestMove terms w (.start t ledger) t .idle (.starting w.row amount)
  | unfunded {t ledger} (hpending : w.row.status = .pending)
    (hintent : fundingIntent terms w.row ledger = none) :
    RequestMove terms w (.start t ledger) t .idle (.recordingStart w.row none)
  | bootstrapFails {t ok fresh loaded amount} :
    RequestMove terms w (.bootstrap t ok fresh) t (.starting loaded amount) .idle
  | pause {t} (hrunning : w.row.status = .running) :
    RequestMove terms w (.pause t) t .idle (.pausing w.row)
  | resume {t} (hpaused : w.row.status = .paused) :
    RequestMove terms w (.resume t) t .idle (.resuming w.row)
  | stop {t} (hlive : w.row.status.isLive = true) :
    RequestMove terms w (.stop t) t .idle (.stopping w.row)
  | unclosed {t ledger reason} :
    RequestMove terms w (.refresh t ledger reason) t .refreshing .idle
  | archive {t} (hlive : w.row.status.isLive = false) :
    RequestMove terms w (.archive t) t .idle .archiving
  | select {t} (hpending : w.row.status = .pending) :
    RequestMove terms w (.select t) t .archiving (.cancelling w.row)
  | unselected {t} : RequestMove terms w (.select t) t .archiving .idle
  | giveUp {t phase token} (hwaits : phase.token = some token) :
    RequestMove terms w (.giveUp t) t phase .idle
  | crash {t phase} : RequestMove terms w (.crash t) t phase .idle

/-- The commits: the row they write, and where the request waits before and after. -/
inductive RowCommit (terms : ExecutionTerms) (w : ExecutionWorld) :
    ExecutionAction → ℕ → ExecutionPhase → ExecutionState → ExecutionPhase → Prop
  | start {t loaded sleeve} : RowCommit terms w (.commitStart t) t (.recordingStart loaded sleeve)
    (startedRow terms.account w.row sleeve) .idle
  | pause {t loaded} : RowCommit terms w (.commitPause t) t (.pausing loaded)
    { w.row with status := .paused } .idle
  | resume {t loaded} : RowCommit terms w (.commitResume t) t (.resuming loaded)
    { w.row with status := .running } .idle
  | stop {t loaded} : RowCommit terms w (.commitStop t) t (.stopping loaded)
    { w.row with status := .stopped } .refreshing
  | clear {t} : RowCommit terms w (.clear t) t .clearing { w.row with sleeveId := none } .idle
  | cancel {t loaded} : RowCommit terms w (.cancel t) t (.cancelling loaded)
    { w.row with status := .stopped } .idle

/-- What a step leaves behind, by the kind of the step. -/
inductive ExecutionEffect (env : Platform) (terms : ExecutionTerms) (w : ExecutionWorld) :
    ExecutionAction → ExecutionWorld → Prop
  | same {action} : ExecutionEffect env terms w action w
  | moved {action t phase} (h : RequestMove terms w action t (w.tasks t) phase) :
    ExecutionEffect env terms w action (w.setTask t phase)
  | committed {action t row phase} (h : RowCommit terms w action t (w.tasks t) row phase) :
    ExecutionEffect env terms w action (w.commit t row phase)
  | bootstrapped {t fresh loaded amount db base} (htask : w.tasks t = .starting loaded amount)
    (hdb : ensureBaseSleeves w.db terms.tenantId terms.account fresh = .ok (db, base)) :
    ExecutionEffect env terms w (.bootstrap t true fresh)
      { w.setTask t (.funding loaded amount) with db }
  | allocateSent {t loaded amount} (htask : w.tasks t = .funding loaded amount) :
    ExecutionEffect env terms w (.allocate t) (w.send t (.allocate amount) (.allocating loaded))
  | closeSent {action t account sleeve reason} (hsleeve : w.row.sleeveId = some sleeve)
    (htask : w.tasks t = .refreshing ∨ w.tasks t = .idle) :
    ExecutionEffect env terms w action (w.send t (.close account sleeve reason) .closing)
  | served {token fresh answers db sleeve tasks} (inFlight : CallInFlight)
    (hcall : inFlight ∈ w.wire) (htoken : inFlight.token = token)
    (hserve : inFlight.call.serve env terms w.db fresh = .ok (db, sleeve))
    (htasks : answers = none ∧ tasks = w.tasks ∨ ∃ t, answers = some t ∧
      (w.tasks t).token = some token ∧
      tasks = Function.update w.tasks t (afterServed sleeve (w.tasks t))) :
    ExecutionEffect env terms w (.handle token fresh answers)
      ⟨w.row, db, w.wire.filter (·.token ≠ token), w.nextToken, w.granted ++ inFlight.call.grants,
        tasks⟩
  | failed {token fresh answers tasks} (inFlight : CallInFlight) (hcall : inFlight ∈ w.wire)
    (htoken : inFlight.token = token)
    (htasks : tasks = w.tasks ∨ ∃ t, (w.tasks t).token = some token ∧
      tasks = Function.update w.tasks t .idle) :
    ExecutionEffect env terms w (.handle token fresh answers)
      { w with wire := w.wire.filter (·.token ≠ token), tasks }
  | dropped {token} : ExecutionEffect env terms w (.drop token)
      { w with wire := w.wire.filter (·.token ≠ token) }
  | other {db} (hsleeves : sleevesOf terms.executionId db = sleevesOf terms.executionId w.db) :
    ExecutionEffect env terms w (.other db) { w with db }

section Effects

variable {env : Platform} {terms : ExecutionTerms} {w w' : ExecutionWorld} {action : ExecutionAction}

theorem effect_moved {t : ℕ} {old phase : ExecutionPhase} (htask : w.tasks t = old)
    (h : RequestMove terms w action t old phase) :
    ExecutionEffect env terms w action (w.setTask t phase) := by
  apply ExecutionEffect.moved
  rw [htask]
  exact h

theorem effect_committed {t : ℕ} {old phase : ExecutionPhase} {row : ExecutionState}
    (htask : w.tasks t = old) (h : RowCommit terms w action t old row phase) :
    ExecutionEffect env terms w action (w.commit t row phase) := by
  apply ExecutionEffect.committed
  rw [htask]
  exact h

theorem handle_effected {token : ℕ} {fresh : ℕ → UUID} {answers : Option ℕ}
    (h : executionStep env terms w (.handle token fresh answers) = some w') :
    ExecutionEffect env terms w (.handle token fresh answers) w' := by
  simp only [executionStep] at h
  obtain ⟨inFlight, hfound, h⟩ := Option.bind_eq_some_iff.mp h
  have hcall : inFlight ∈ w.wire := List.mem_of_find?_eq_some hfound
  have htoken : inFlight.token = token := by simpa using List.find?_some hfound
  split at h
  · rename_i db sleeve hserve
    cases answers with
    | none =>
      cases h
      exact .served inFlight hcall htoken hserve (.inl ⟨rfl, rfl⟩)
    | some t =>
      simp only [ExecutionWorld.answer, Option.ite_none_right_eq_some, Option.some.injEq] at h
      obtain ⟨hwaits, rfl⟩ := h
      exact .served inFlight hcall htoken hserve (.inr ⟨t, rfl, hwaits, rfl⟩)
  · cases answers with
    | none =>
      cases h
      exact .failed inFlight hcall htoken (.inl rfl)
    | some t =>
      simp only [ExecutionWorld.answer, Option.ite_none_right_eq_some, Option.some.injEq] at h
      obtain ⟨hwaits, rfl⟩ := h
      exact .failed inFlight hcall htoken (.inr ⟨t, hwaits, rfl⟩)

/-- Every step has one of the listed effects. -/
theorem executionStep_effect (h : executionStep env terms w action = some w') :
    ExecutionEffect env terms w action w' := by
  cases action with
  | start t ledger =>
    simp only [executionStep] at h
    split at h
    · rename_i htask
      split_ifs at h with hpending
      · split at h
        · rename_i amount hintent
          cases h
          exact effect_moved htask (.fund hpending hintent)
        · rename_i hintent
          cases h
          exact effect_moved htask (.unfunded hpending hintent)
      · cases h
        exact .same
    · cases h
  | bootstrap t ok fresh =>
    simp only [executionStep] at h
    split at h
    · rename_i htask
      split at h
      · rename_i hdb
        cases h
        exact .bootstrapped htask hdb
      · cases h
        exact effect_moved htask .bootstrapFails
    · cases h
  | allocate t =>
    simp only [executionStep] at h
    split at h
    · rename_i htask
      cases h
      exact .allocateSent htask
    · cases h
  | commitStart t =>
    simp only [executionStep] at h
    split at h
    · rename_i htask
      cases h
      exact effect_committed htask .start
    · cases h
  | pause t =>
    simp only [executionStep] at h
    split at h
    · rename_i htask
      split_ifs at h with hrunning
      · cases h
        exact effect_moved htask (.pause hrunning)
      · cases h
        exact .same
    · cases h
  | commitPause t =>
    simp only [executionStep] at h
    split at h
    · rename_i htask
      cases h
      exact effect_committed htask .pause
    · cases h
  | resume t =>
    simp only [executionStep] at h
    split at h
    · rename_i htask
      split_ifs at h with hpaused
      · cases h
        exact effect_moved htask (.resume hpaused)
      · cases h
        exact .same
    · cases h
  | commitResume t =>
    simp only [executionStep] at h
    split at h
    · rename_i htask
      cases h
      exact effect_committed htask .resume
    · cases h
  | stop t =>
    simp only [executionStep] at h
    split at h
    · rename_i htask
      split_ifs at h with hlive
      · cases h
        exact effect_moved htask (.stop hlive)
      · cases h
        exact .same
    · cases h
  | commitStop t =>
    simp only [executionStep] at h
    split at h
    · rename_i htask
      cases h
      exact effect_committed htask .stop
    · cases h
  | refresh t ledger reason =>
    simp only [executionStep] at h
    split at h
    · rename_i htask
      split at h
      · rename_i sleeve account hsleeve _
        cases h
        exact .closeSent hsleeve (.inl htask)
      · cases h
        exact effect_moved htask .unclosed
    · cases h
  | sweep t =>
    simp only [executionStep] at h
    split at h
    · rename_i htask
      split at h
      · rename_i sleeve account _ hsleeve _
        cases h
        exact .closeSent hsleeve (.inr htask)
      · rename_i sleeve account _ hsleeve _
        cases h
        exact .closeSent hsleeve (.inr htask)
      · cases h
        exact .same
    · cases h
  | clear t =>
    simp only [executionStep] at h
    split at h
    · rename_i htask
      cases h
      exact effect_committed htask .clear
    · cases h
  | archive t =>
    simp only [executionStep] at h
    split at h
    · rename_i htask
      split_ifs at h with hlive
      · cases h
        exact .same
      · cases h
        exact effect_moved htask (.archive (by simpa using hlive))
    · cases h
  | select t =>
    simp only [executionStep] at h
    split at h
    · rename_i htask
      split_ifs at h with hpending
      · cases h
        exact effect_moved htask (.select hpending)
      · cases h
        exact effect_moved htask .unselected
    · cases h
  | cancel t =>
    simp only [executionStep] at h
    split at h
    · rename_i htask
      cases h
      exact effect_committed htask .cancel
    · cases h
  | handle token fresh answers => exact handle_effected h
  | drop token =>
    cases h
    exact .dropped
  | giveUp t =>
    simp only [executionStep] at h
    split at h
    · rename_i token hwaits
      cases h
      exact effect_moved rfl (.giveUp hwaits)
    · cases h
  | crash t =>
    cases h
    exact effect_moved rfl .crash
  | other db =>
    simp only [executionStep, Option.ite_none_right_eq_some, Option.some.injEq] at h
    obtain ⟨hsleeves, rfl⟩ := h
    exact .other hsleeves

end Effects

end LlamaTrade
