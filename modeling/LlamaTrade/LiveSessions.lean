import LlamaTrade.PythonUuid
import Mathlib.Data.List.AList
import Mathlib.Logic.Function.Basic

/-!
# Live sessions

The trading sessions of any number of replicas. The replicas share the tables of executions and
sessions and the advisory locks of the database; each has its own registry of leases and its own
runners. The requests of `LiveSessionService` and the recovery loop are tasks that advance from
one statement that waits to the next. A runner is started by a task and gets ready by itself.
-/

namespace LlamaTrade

/-! ## Rows -/

/-- `ExecutionStatus`, of executions and of sessions. -/
inductive ExecutionStatus where
  | pending | running | paused | stopped | error
  deriving DecidableEq, Repr

/-- `RUNNING` or `PAUSED`. -/
def ExecutionStatus.isLive : ExecutionStatus → Bool
  | .running | .paused => true
  | _ => false

/-- A `StrategyExecution`, with its times in seconds. -/
structure ExecutionRow where
  id : UUID
  tenantId : UUID
  strategyId : UUID
  status : ExecutionStatus
  startedAt : Option ℤ
  createdAt : ℤ
  credentialsId : Option UUID
  sleeveId : Option UUID
  accountId : Option UUID
  deriving DecidableEq

/-- A `TradingSession`. -/
structure SessionRow where
  id : UUID
  tenantId : UUID
  strategyId : UUID
  status : ExecutionStatus
  sleeveId : Option UUID
  accountId : Option UUID
  deriving DecidableEq

/-- The arguments of `start_session` that decide which sleeve is traded. -/
structure StartRequest where
  tenantId : UUID
  strategyId : UUID
  executionId : Option UUID
  deriving DecidableEq

/-- `_resolve_ledger_identity`. -/
def resolveLedgerIdentity (executions : List ExecutionRow) (request : StartRequest) :
    Except String (Option UUID × Option UUID) :=
  match request.executionId with
  | some executionId =>
    match executions.find? fun e => e.tenantId = request.tenantId ∧ e.id = executionId with
    | none => .error ("Execution " ++ executionId.text ++ " not found")
    | some execution =>
      if execution.strategyId ≠ request.strategyId then
        .error ("Execution " ++ executionId.text ++ " belongs to a different strategy")
      else .ok (execution.sleeveId, execution.accountId)
  | none =>
    match executions.filter fun e => e.tenantId = request.tenantId ∧
      e.strategyId = request.strategyId ∧ e.sleeveId.isSome ∧
      (e.status = .pending ∨ e.status.isLive) with
    | [] => .ok (none, none)
    | [execution] => .ok (execution.sleeveId, execution.accountId)
    | _ => .error ("Multiple funded executions exist for this strategy; pass an explicit " ++
        "execution_id to choose which sleeve this session trades.")

/-- `_ensure_sleeve_not_in_use`. -/
def ensureSleeveNotInUse (sessions : List SessionRow) (tenantId sleeveId : UUID) :
    Except String Unit :=
  match sessions.find? fun s => s.tenantId = tenantId ∧ s.sleeveId = some sleeveId ∧
    s.status.isLive with
  | none => .ok ()
  | some active => .error ("Sleeve " ++ sleeveId.text ++ " is already traded by session " ++
      active.id.text ++ "; stop it before starting another")

/-- `_get_session_by_id`. -/
def getSessionById (sessions : List SessionRow) (tenantId id : UUID) : Option SessionRow :=
  sessions.find? fun s => s.id = id ∧ s.tenantId = tenantId

/-- A commit of a session's status. -/
def writeStatus (sessions : List SessionRow) (id : UUID) (status : ExecutionStatus) :
    List SessionRow :=
  sessions.map fun s => if s.id = id then { s with status } else s

/-- `_RunnerSpec`; the columns that only the runner reads are left out. -/
structure RunnerSpec where
  sessionId : UUID
  tenantId : UUID
  deriving DecidableEq

/-- `_load_live_specs`. -/
def loadLiveSpecs (sessions : List SessionRow) : List RunnerSpec :=
  (sessions.filter (·.status.isLive)).map fun s => ⟨s.id, s.tenantId⟩

/-- `_ExecutionSpec`; what only the runner and the preflight read is left out. -/
structure ExecutionSpec where
  executionId : UUID
  tenantId : UUID
  strategyId : UUID
  deriving DecidableEq

/-- `ADOPT_EXECUTION_GRACE_SECONDS`. -/
def adoptExecutionGraceSeconds : ℤ := 120

/-- The sleeves of live sessions, of `_load_orphaned_executions`. -/
def liveSleeves (sessions : List SessionRow) : List UUID :=
  (sessions.filter (·.status.isLive)).filterMap (·.sleeveId)

/-- `_orphan_specs`, on the funded running executions. -/
def orphanSpecs (executions : List ExecutionRow) (live : List UUID) (now : ℤ) :
    List ExecutionSpec :=
  (executions.filter fun e => e.status = .running ∧ e.sleeveId.isSome ∧
    ¬ (e.sleeveId.any (· ∈ live)) ∧ e.credentialsId.isSome ∧
    e.startedAt.getD e.createdAt ≤ now - adoptExecutionGraceSeconds).map fun e =>
      ⟨e.id, e.tenantId, e.strategyId⟩

/-! ## Leases and runners -/

/-- `_session_lock_key`: the first eight bytes of the id, signed. -/
def sessionLockKey (id : UUID) : ℤ :=
  let high : ℤ := id.value / 2 ^ 64
  if high < 2 ^ 63 then high else high - 2 ^ 64

/-- A connection that a replica has opened for a lease. -/
structure Connection where
  replica : ℕ
  number : ℕ
  deriving DecidableEq, Repr

/-- A task of a replica. -/
structure TaskId where
  replica : ℕ
  number : ℕ
  deriving DecidableEq, Repr

/-- A `StrategyRunner`: from its registration to the end of `start` it is not running yet. -/
inductive RunnerPhase where
  | starting | running | ended
  deriving DecidableEq, Repr

structure Runner where
  replica : ℕ
  sessionId : UUID
  phase : RunnerPhase
  deriving DecidableEq

/-! ## Tasks -/

/-- Who calls `start_session`: a request, or `_adopt_one` for an execution, with the orphans that
are left. -/
inductive StartCaller where
  | request
  | adoption (executionId : UUID) (rest : List ExecutionSpec)
  deriving DecidableEq

/-- What a runner is started for. -/
inductive RunnerUse where
  | start (caller : StartCaller)
  | rehydrate (rest : List RunnerSpec)
  deriving DecidableEq

/-- What waits for a `_try_claim`. -/
inductive ClaimUse where
  | runner (use : RunnerUse)
  | adopt (spec : ExecutionSpec) (rest : List ExecutionSpec)
  | adopted (executionId : UUID) (rest : List ExecutionSpec)
  deriving DecidableEq

/-- What waits for a `stop_runner`. -/
inductive StopUse where
  | stop (loaded : ExecutionStatus)
  | drop (rest : List UUID) (specs : List RunnerSpec)
  | evict (rest : List RunnerSpec)
  | sweep (rest : List UUID)
  deriving DecidableEq

/-- What waits for a `release_session_lease`. -/
inductive ReleaseUse where
  | startFailed (caller : StartCaller)
  | stop (loaded : ExecutionStatus)
  | drop (rest : List UUID) (specs : List RunnerSpec)
  | rehydrateFailed (rest : List RunnerSpec)
  | adoptionEnds (rest : List ExecutionSpec)
  deriving DecidableEq

/-- Where a task waits; the id is the one that it works on. -/
inductive SessionPhase where
  | idle
  -- `start_session`
  | resolving (request : StartRequest) (caller : StartCaller)
  | checking (request : StartRequest) (caller : StartCaller) (sleeve : UUID)
    (account : Option UUID)
  | inserting (request : StartRequest) (caller : StartCaller) (sleeve account : Option UUID)
  | failing (id : UUID) (caller : StartCaller)
  -- `_try_claim`
  | probing (id : UUID) (conn : Connection) (use : ClaimUse)
  | opening (id : UUID) (use : ClaimUse)
  | locking (id : UUID) (conn : Connection) (use : ClaimUse)
  -- `_start_runner`
  | preparing (id : UUID) (use : RunnerUse)
  -- `stop_runner`: `runner.stop()`, then the cancelled task
  | stopping (id : UUID) (use : StopUse)
  | cancelling (id : UUID) (runner : ℕ) (use : StopUse)
  -- `release_session_lease`
  | unlocking (id : UUID) (conn : Connection) (use : ReleaseUse)
  -- the commit of `stop_session`, `pause_session` and `resume_session`
  | marking (id : UUID) (loaded status : ExecutionStatus)
  -- `rehydrate_pass`
  | sweeping (ids : List UUID)
  | sweepProbing (id : UUID) (conn : Connection) (rest : List UUID)
  | discarding (id : UUID) (rest : List UUID)
  | loaded (specs : List RunnerSpec)
  | dropping (ids : List UUID) (specs : List RunnerSpec)
  | rehydrating (specs : List RunnerSpec)
  -- `adopt_orphaned_executions`
  | loadingOrphans (live : List UUID)
  | adopting (specs : List ExecutionSpec)

/-- The tables, the locks, and of each replica the leases, the runners and the tasks. The
registry has the runners of `RunnerManager`; `runners` has all that were ever made. -/
structure SessionWorld where
  executions : List ExecutionRow
  sessions : List SessionRow
  locks : ℤ → Option Connection
  leases : ℕ → AList fun _ : UUID => Connection
  registry : ℕ → UUID → Option ℕ
  runners : ℕ → Option Runner
  nextConnection : ℕ
  nextRunner : ℕ
  tasks : TaskId → SessionPhase

def SessionWorld.empty : SessionWorld :=
  ⟨[], [], fun _ => none, fun _ => ∅, fun _ _ => none, fun _ => none, 0, 0, fun _ => .idle⟩

namespace SessionWorld

variable (w : SessionWorld) (t : TaskId) (id : UUID)

def setTask (phase : SessionPhase) : SessionWorld :=
  { w with tasks := Function.update w.tasks t phase }

/-- The lease of an id in the registry of a replica. -/
def lease (replica : ℕ) : Option Connection := (w.leases replica).lookup id

def setLease (replica : ℕ) (conn : Connection) : SessionWorld :=
  { w with leases := Function.update w.leases replica ((w.leases replica).insert id conn) }

def popLease (replica : ℕ) : SessionWorld :=
  { w with leases := Function.update w.leases replica ((w.leases replica).erase id) }

/-- `get_runner`. -/
def getRunner (replica : ℕ) : Option Runner := (w.registry replica id).bind w.runners

/-- Membership in `active_runners`. -/
def isActive (replica : ℕ) : Bool := (w.getRunner id replica).any (·.phase = .running)

def setRegistry (replica : ℕ) (runner : Option ℕ) : SessionWorld :=
  { w with
    registry := Function.update w.registry replica
      (Function.update (w.registry replica) id runner) }

/-- A runner goes on to another phase, if it is in one of the given ones. -/
def advanceRunner (runner : ℕ) (whenIn : RunnerPhase → Bool) (phase : RunnerPhase) :
    SessionWorld :=
  { w with
    runners := Function.update w.runners runner ((w.runners runner).map fun r =>
      if whenIn r.phase then { r with phase } else r) }

/-! ### Claiming and releasing -/

/-- A call of `_try_claim`: an entry of the registry is asked whether it is still live. -/
def beginClaim (use : ClaimUse) : SessionWorld :=
  match w.lease id t.replica with
  | some conn => w.setTask t (.probing id conn use)
  | none => w.setTask t (.opening id use)

def afterRelease : ReleaseUse → SessionPhase
  | .startFailed caller => .failing id caller
  | .stop loaded => if loaded = .stopped then .idle else .marking id loaded .stopped
  | .drop rest specs => .dropping rest specs
  | .rehydrateFailed rest => .rehydrating rest
  | .adoptionEnds rest => .adopting rest

/-- A call of `release_session_lease`. -/
def beginRelease (use : ReleaseUse) : SessionWorld :=
  match w.lease id t.replica with
  | some conn => (w.popLease id t.replica).setTask t (.unlocking id conn use)
  | none => w.setTask t (afterRelease id use)

/-- `start_session` raises. An adoption gives up the lease on its execution. -/
def startRaises : StartCaller → SessionWorld
  | .request => w.setTask t .idle
  | .adoption executionId rest => w.beginRelease t executionId (.adoptionEnds rest)

/-- `start_session` returns. An adoption claims the session that it has started. -/
def startReturns : StartCaller → SessionWorld
  | .request => w.setTask t .idle
  | .adoption executionId rest => w.beginClaim t id (.adopted executionId rest)

/-- `_try_claim` returns true. -/
def claimed : ClaimUse → SessionWorld
  | .runner use => w.setTask t (.preparing id use)
  | .adopt spec rest => w.setTask t (.resolving ⟨spec.tenantId, spec.strategyId,
      some spec.executionId⟩ (.adoption spec.executionId rest))
  | .adopted executionId rest => w.beginRelease t executionId (.adoptionEnds rest)

/-- `_try_claim` returns false or raises. -/
def notClaimed : ClaimUse → SessionWorld
  | .runner (.start caller) => w.beginRelease t id (.startFailed caller)
  | .runner (.rehydrate rest) => w.setTask t (.rehydrating rest)
  | .adopt _ rest => w.setTask t (.adopting rest)
  | .adopted executionId rest => w.beginRelease t executionId (.adoptionEnds rest)

/-- `_start_runner` raises: both callers give up the lease. -/
def notStarted : RunnerUse → SessionWorld
  | .start caller => w.beginRelease t id (.startFailed caller)
  | .rehydrate rest => w.beginRelease t id (.rehydrateFailed rest)

/-- `stop_runner` returns, or raises. -/
def afterStop (raised : Bool) : StopUse → SessionWorld
  | .stop loaded => if raised then w.setTask t .idle else w.beginRelease t id (.stop loaded)
  | .drop rest specs =>
    if raised then w.setTask t .idle else w.beginRelease t id (.drop rest specs)
  | .evict rest => w.beginClaim t id (.runner (.rehydrate rest))
  | .sweep rest => w.setTask t (.sweeping rest)

/-- A call of `stop_runner`. The runner does not run any more; one that has not started yet does
not notice. -/
def beginStop (use : StopUse) : SessionWorld :=
  match w.registry t.replica id with
  | none => w.afterStop t id false use
  | some runner => (w.advanceRunner runner (· = .running) .ended).setTask t (.stopping id use)

/-- The runner is made and registered, and its `start` is scheduled. -/
def register : SessionWorld :=
  { w.setRegistry id t.replica (some w.nextRunner) with
    runners := Function.update w.runners w.nextRunner (some ⟨t.replica, id, .starting⟩)
    nextRunner := w.nextRunner + 1 }

/-- A replica dies: its connections close and its tasks and runners are gone. -/
def die (replica : ℕ) : SessionWorld :=
  { w with
    locks := fun key => if (w.locks key).any (·.replica = replica) then none else w.locks key
    leases := Function.update w.leases replica ∅
    registry := Function.update w.registry replica fun _ => none
    runners := fun runner => (w.runners runner).map fun r =>
      if r.replica = replica then { r with phase := .ended } else r
    tasks := fun t => if t.replica = replica then .idle else w.tasks t }

end SessionWorld

/-! ## Steps -/

/-- What the trading service is promised about identities: the tenant of a sleeve, and that no
session id is drawn that is the id of an execution. -/
structure Identities where
  sleeveTenant : UUID → UUID
  isExecution : UUID → Bool

inductive SessionAction where
  | fund (executions : List ExecutionRow)
  | start (t : TaskId) (request : StartRequest)
  | resolve (t : TaskId) (ok : Bool)
  | check (t : TaskId)
  | insert (t : TaskId) (id : UUID) (ok : Bool)
  | setError (t : TaskId)
  | probe (t : TaskId)
  | openConnection (t : TaskId) (ok : Bool)
  | lock (t : TaskId) (ok : Bool)
  | startRunner (t : TaskId) (ok : Bool)
  | runnerStopped (t : TaskId) (ok : Bool)
  | taskCancelled (t : TaskId) (ok : Bool)
  | unlock (t : TaskId)
  | stop (t : TaskId) (tenant id : UUID)
  | pause (t : TaskId) (tenant id : UUID)
  | resume (t : TaskId) (tenant id : UUID)
  | mark (t : TaskId)
  | rehydrate (t : TaskId)
  | sweep (t : TaskId)
  | probeSwept (t : TaskId)
  | discard (t : TaskId)
  | load (t : TaskId)
  | beginDrops (t : TaskId)
  | drop (t : TaskId)
  | reclaim (t : TaskId)
  | adopt (t : TaskId)
  | loadOrphans (t : TaskId) (now : ℤ)
  | adoptNext (t : TaskId)
  | run (runner : ℕ)
  | exit (runner : ℕ)
  | die (replica : ℕ)

/-- The rows of executions that the strategy service commits. -/
def Identities.allow (ids : Identities) (execution : ExecutionRow) : Bool :=
  ids.isExecution execution.id &&
    execution.sleeveId.all fun sleeve => ids.sleeveTenant sleeve = execution.tenantId

/-- One step of the system; `none` when it is not enabled. -/
def sessionStep (ids : Identities) (w : SessionWorld) : SessionAction → Option SessionWorld
  | .fund executions =>
    if executions.all ids.allow then some { w with executions } else none
  | .start t request =>
    match w.tasks t with
    | .idle => some (w.setTask t (.resolving request .request))
    | _ => none
  | .resolve t ok =>
    match w.tasks t with
    | .resolving request caller =>
      match ok, resolveLedgerIdentity w.executions request with
      | true, .ok (some sleeve, account) =>
        some (w.setTask t (.checking request caller sleeve account))
      | true, .ok (none, account) => some (w.setTask t (.inserting request caller none account))
      | _, _ => some (w.startRaises t caller)
    | _ => none
  | .check t =>
    match w.tasks t with
    | .checking request caller sleeve account =>
      match ensureSleeveNotInUse w.sessions request.tenantId sleeve with
      | .ok _ => some (w.setTask t (.inserting request caller (some sleeve) account))
      | .error _ => some (w.startRaises t caller)
    | _ => none
  | .insert t id ok =>
    match w.tasks t with
    | .inserting request caller sleeve account =>
      if !ok then some (w.startRaises t caller)
      else if ids.isExecution id ∨ ∃ s ∈ w.sessions, s.id = id then none
      else
        let row : SessionRow :=
          ⟨id, request.tenantId, request.strategyId, .running, sleeve, account⟩
        some ({ w with sessions := w.sessions ++ [row] }.beginClaim t id (.runner (.start caller)))
    | _ => none
  | .setError t =>
    match w.tasks t with
    | .failing id caller =>
      some ({ w with sessions := writeStatus w.sessions id .error }.startRaises t caller)
    | _ => none
  | .probe t =>
    match w.tasks t with
    | .probing id conn use =>
      if w.locks (sessionLockKey id) = some conn then some (w.claimed t id use)
      else some ((w.popLease id t.replica).setTask t (.opening id use))
    | _ => none
  | .openConnection t ok =>
    match w.tasks t with
    | .opening id use =>
      if ok then
        some ({ w with nextConnection := w.nextConnection + 1 }.setTask t
          (.locking id ⟨t.replica, w.nextConnection⟩ use))
      else some (w.notClaimed t id use)
    | _ => none
  | .lock t ok =>
    match w.tasks t with
    | .locking id conn use =>
      if ok ∧ w.locks (sessionLockKey id) = none then
        some (({ w with
          locks := Function.update w.locks (sessionLockKey id) (some conn) }.setLease id t.replica
            conn).claimed t id use)
      else some (w.notClaimed t id use)
    | _ => none
  | .startRunner t ok =>
    match w.tasks t with
    | .preparing id use =>
      if ok ∧ w.registry t.replica id = none then
        match use with
        | .start caller => some ((w.register t id).startReturns t id caller)
        | .rehydrate rest => some ((w.register t id).setTask t (.rehydrating rest))
      else some (w.notStarted t id use)
    | _ => none
  | .runnerStopped t ok =>
    match w.tasks t with
    | .stopping id use =>
      match ok, w.registry t.replica id with
      | true, some runner =>
        some ((w.advanceRunner runner (· = .starting) .ended).setTask t
          (.cancelling id runner use))
      | _, _ => some (w.afterStop t id true use)
    | _ => none
  | .taskCancelled t ok =>
    match w.tasks t with
    | .cancelling id runner use =>
      let w₁ := w.advanceRunner runner (fun _ => true) .ended
      if ok ∧ w.registry t.replica id ≠ none then
        some ((w₁.setRegistry id t.replica none).afterStop t id false use)
      else some (w₁.afterStop t id true use)
    | _ => none
  | .unlock t =>
    match w.tasks t with
    | .unlocking id conn use =>
      some ({ w with
        locks := fun key => if key = sessionLockKey id ∧ w.locks key = some conn then none
          else w.locks key }.setTask t (SessionWorld.afterRelease id use))
    | _ => none
  | .stop t tenant id =>
    match w.tasks t, getSessionById w.sessions tenant id with
    | .idle, some row =>
      if w.isActive id t.replica then some (w.beginStop t id (.stop row.status))
      else some (w.beginRelease t id (.stop row.status))
    | _, _ => none
  | .pause t tenant id =>
    match w.tasks t, getSessionById w.sessions tenant id with
    | .idle, some row =>
      if row.status = .running then some (w.setTask t (.marking id row.status .paused)) else none
    | _, _ => none
  | .resume t tenant id =>
    match w.tasks t, getSessionById w.sessions tenant id with
    | .idle, some row =>
      if row.status = .paused then some (w.setTask t (.marking id row.status .running)) else none
    | _, _ => none
  | .mark t =>
    match w.tasks t with
    | .marking id _ status =>
      some ({ w with sessions := writeStatus w.sessions id status }.setTask t .idle)
    | _ => none
  | .rehydrate t =>
    match w.tasks t with
    | .idle => some (w.setTask t (.sweeping (w.leases t.replica).keys))
    | _ => none
  | .sweep t =>
    match w.tasks t with
    | .sweeping (id :: rest) =>
      match w.lease id t.replica with
      | some conn => some (w.setTask t (.sweepProbing id conn rest))
      | none => some (w.beginStop t id (.sweep rest))
    | _ => none
  | .probeSwept t =>
    match w.tasks t with
    | .sweepProbing id conn rest =>
      if w.locks (sessionLockKey id) = some conn then some (w.setTask t (.sweeping rest))
      else some ((w.popLease id t.replica).setTask t (.discarding id rest))
    | _ => none
  | .discard t =>
    match w.tasks t with
    | .discarding id rest => some (w.beginStop t id (.sweep rest))
    | _ => none
  | .load t =>
    match w.tasks t with
    | .sweeping [] => some (w.setTask t (.loaded (loadLiveSpecs w.sessions)))
    | _ => none
  | .beginDrops t =>
    match w.tasks t with
    | .loaded specs => some (w.setTask t (.dropping (w.leases t.replica).keys specs))
    | _ => none
  | .drop t =>
    match w.tasks t with
    | .dropping (id :: rest) specs =>
      if id ∈ specs.map (·.sessionId) then some (w.setTask t (.dropping rest specs))
      else if w.isActive id t.replica then some (w.beginStop t id (.drop rest specs))
      else some (w.beginRelease t id (.drop rest specs))
    | .dropping [] specs => some (w.setTask t (.rehydrating specs))
    | _ => none
  | .reclaim t =>
    match w.tasks t with
    | .rehydrating (spec :: rest) =>
      if w.isActive spec.sessionId t.replica then some (w.setTask t (.rehydrating rest))
      else some (w.beginStop t spec.sessionId (.evict rest))
    | .rehydrating [] => some (w.setTask t .idle)
    | _ => none
  | .adopt t =>
    match w.tasks t with
    | .idle => some (w.setTask t (.loadingOrphans (liveSleeves w.sessions)))
    | _ => none
  | .loadOrphans t now =>
    match w.tasks t with
    | .loadingOrphans live => some (w.setTask t (.adopting (orphanSpecs w.executions live now)))
    | _ => none
  | .adoptNext t =>
    match w.tasks t with
    | .adopting (spec :: rest) =>
      match w.lease spec.executionId t.replica with
      | some _ => some (w.setTask t (.adopting rest))
      | none => some (w.beginClaim t spec.executionId (.adopt spec rest))
    | .adopting [] => some (w.setTask t .idle)
    | _ => none
  | .run runner =>
    match w.runners runner with
    | some ⟨_, _, .starting⟩ => some (w.advanceRunner runner (· = .starting) .running)
    | _ => none
  | .exit runner => some (w.advanceRunner runner (fun _ => true) .ended)
  | .die replica => some (w.die replica)

end LlamaTrade
