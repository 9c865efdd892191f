import LlamaTrade.TransitionRuns
import Mathlib.Data.Nat.Notation
import Mathlib.Tactic.SplitIfs

/-!
# Runs of a backtest

The row of one backtest and its result (`services/backtest_service.py`, `workers/celery_tasks.py`).
Workers may run the same backtest side by side: the reaper requeues it, and a task may be delivered
twice. A run writes RUNNING, simulates, and completes only a row that is still RUNNING, together
with its result; the other writes of the status do not look at the row again. A session writes a
status only if it differs from the one it has loaded.
-/

namespace LlamaTrade

/-- `BacktestStatus`. -/
inductive BacktestStatus where
  | pending | running | completed | failed | cancelled
  deriving DecidableEq, Repr

/-- Where a request or a worker waits. -/
inductive BacktestPhase where
  | idle
  -- `run_backtest`: PENDING was read; RUNNING is written; the row was read again before the result
  | starting
  | simulating
  | saving (loaded : BacktestStatus)
  | completed
  -- its handlers of exceptions, before they commit, with the status that the session has loaded
  | failing (loaded : BacktestStatus) (marketData : Bool)
  | aborting (found : BacktestStatus)
  -- the task after a market data error, before `_reset_to_pending`
  | retrying
  | cancelling (found : BacktestStatus)
  | cancelCommitted
  | compensating (found : BacktestStatus)
  | reaping (found : BacktestStatus)
  | restarting

structure BacktestWorld where
  status : BacktestStatus
  /-- The rows of `backtest_results`. -/
  results : ℕ
  /-- A `cancel_backtest` has returned `True`. -/
  cancelReturned : Bool
  tasks : ℕ → BacktestPhase

inductive BacktestAction where
  | run (t : ℕ)
  | commitRunning (t : ℕ)
  /-- An exception in the run. -/
  | fail (t : ℕ) (marketData : Bool)
  /-- An exception while the session holds the result; its handler commits the result as well. -/
  | failUnsaved (t : ℕ) (executed : Bool)
  | commitFailed (t : ℕ)
  /-- The cancellation flag is polled. -/
  | abort (t : ℕ)
  | commitAborted (t : ℕ)
  | refresh (t : ℕ)
  /-- The result is inserted and the row completed, in one transaction. -/
  | finalize (t : ℕ)
  | resetToPending (t : ℕ)
  | cancel (t : ℕ)
  | commitCancel (t : ℕ)
  | returnCancel (t : ℕ)
  | failBacktest (t : ℕ)
  | commitFailBacktest (t : ℕ)
  | reap (t : ℕ)
  | commitReap (t : ℕ)
  | retry (t : ℕ)
  | commitRetry (t : ℕ)
  /-- A request returns, or the worker is lost. -/
  | leave (t : ℕ)

namespace BacktestWorld

variable (w : BacktestWorld)

def setTask (t : ℕ) (phase : BacktestPhase) : BacktestWorld :=
  { w with tasks := Function.update w.tasks t phase }

/-- A commit of a session that has loaded one status and sets another. -/
def commit (t : ℕ) (loaded status : BacktestStatus) (phase : BacktestPhase) : BacktestWorld :=
  { w.setTask t phase with status := if loaded = status then w.status else status }

/-- The transaction of the result. The unique constraint refuses a second result, and the session
that has raised commits nothing more; a row that is not RUNNING is taken to be cancelled. -/
def finalize (t : ℕ) : BacktestWorld :=
  if w.results ≠ 0 then w.setTask t .idle
  else if w.status = .running then
    { w.setTask t .completed with status := .completed, results := w.results + 1 }
  else w.setTask t (.aborting w.status)

end BacktestWorld

/-- One step of the system; `none` when it is not enabled. A check that fails ends the request. -/
def backtestStep (w : BacktestWorld) : BacktestAction → Option BacktestWorld
  | .run t =>
    match w.tasks t with
    | .idle => some (w.setTask t (if w.status = .pending then .starting else .idle))
    | _ => none
  | .commitRunning t =>
    match w.tasks t with
    | .starting => some (w.commit t .pending .running .simulating)
    | _ => none
  | .fail t marketData =>
    match w.tasks t with
    | .simulating => some (w.setTask t (.failing .running marketData))
    | .saving loaded => some (w.setTask t (.failing loaded false))
    | .completed => some (w.setTask t (.failing .completed false))
    | _ => none
  | .failUnsaved t executed =>
    match w.tasks t with
    | .saving loaded =>
      if w.results ≠ 0 then some (w.setTask t .idle)
      else if executed ∧ w.status ≠ .running then none
      else some { w.commit t (if executed then .completed else loaded) .failed .idle with
        results := w.results + 1 }
    | _ => none
  | .commitFailed t =>
    match w.tasks t with
    | .failing loaded marketData =>
      some (w.commit t loaded .failed (if marketData then .retrying else .idle))
    | _ => none
  | .abort t =>
    match w.tasks t with
    | .simulating => some (w.setTask t (.aborting .running))
    | _ => none
  | .commitAborted t =>
    match w.tasks t with
    | .aborting _ => some { w.setTask t .idle with status := .cancelled }
    | _ => none
  | .refresh t =>
    match w.tasks t with
    | .simulating => some (w.setTask t (if w.status = .cancelled then .idle else .saving w.status))
    | _ => none
  | .finalize t =>
    match w.tasks t with
    | .saving _ => some (w.finalize t)
    | _ => none
  | .resetToPending t =>
    match w.tasks t with
    | .retrying =>
      some { w.setTask t .idle with status := if w.status = .failed then .pending else w.status }
    | _ => none
  | .cancel t =>
    match w.tasks t with
    | .idle =>
      some (w.setTask t (if w.status = .pending ∨ w.status = .running then .cancelling w.status
        else .idle))
    | _ => none
  | .commitCancel t =>
    match w.tasks t with
    | .cancelling found => some (w.commit t found .cancelled .cancelCommitted)
    | _ => none
  | .returnCancel t =>
    match w.tasks t with
    | .cancelCommitted => some { w.setTask t .idle with cancelReturned := true }
    | _ => none
  | .failBacktest t =>
    match w.tasks t with
    | .idle => some (w.setTask t (.compensating w.status))
    | _ => none
  | .commitFailBacktest t =>
    match w.tasks t with
    | .compensating found => some (w.commit t found .failed .idle)
    | _ => none
  | .reap t =>
    match w.tasks t with
    | .idle =>
      some (w.setTask t (if w.status = .pending ∨ w.status = .running then .reaping w.status
        else .idle))
    | _ => none
  | .commitReap t =>
    match w.tasks t with
    | .reaping found => some (w.commit t found .failed .idle)
    | _ => none
  | .retry t =>
    match w.tasks t with
    | .idle => some (w.setTask t (if w.status = .failed then .restarting else .idle))
    | _ => none
  | .commitRetry t =>
    match w.tasks t with
    | .restarting => some (w.commit t .failed .pending .idle)
    | _ => none
  | .leave t => some (w.setTask t .idle)

/-- A backtest that was just created. -/
structure BacktestWorld.New (w : BacktestWorld) : Prop where
  status : w.status = .pending
  results : w.results = 0
  cancelReturned : w.cancelReturned = false
  tasks : ∀ t, w.tasks t = .idle

/-! ## What a step can do -/

/-- The moves of one task that write nothing: where it waits before and after. -/
inductive BacktestMove (w : BacktestWorld) : BacktestPhase → BacktestPhase → Prop
  | start (h : w.status = .pending) : BacktestMove w .idle .starting
  | fail {marketData} : BacktestMove w .simulating (.failing .running marketData)
  | failSaving {loaded} : BacktestMove w (.saving loaded) (.failing loaded false)
  | failCompleted : BacktestMove w .completed (.failing .completed false)
  | abort : BacktestMove w .simulating (.aborting .running)
  | refresh (h : w.status ≠ .cancelled) : BacktestMove w .simulating (.saving w.status)
  | lost {loaded} (hresults : w.results = 0) (h : w.status ≠ .running) :
    BacktestMove w (.saving loaded) (.aborting w.status)
  | cancel (h : w.status = .pending ∨ w.status = .running) :
    BacktestMove w .idle (.cancelling w.status)
  | compensate : BacktestMove w .idle (.compensating w.status)
  | reap (h : w.status = .pending ∨ w.status = .running) : BacktestMove w .idle (.reaping w.status)
  | retry : BacktestMove w .idle .restarting
  | ended {phase} : BacktestMove w phase .idle

/-- What a step leaves behind, by the kind of the step. -/
inductive BacktestEffect (w : BacktestWorld) : BacktestAction → BacktestWorld → Prop
  | moved {action t phase} (h : BacktestMove w (w.tasks t) phase) :
    BacktestEffect w action (w.setTask t phase)
  | started {t} (htask : w.tasks t = .starting) :
    BacktestEffect w (.commitRunning t) (w.commit t .pending .running .simulating)
  | failed {t loaded marketData} (htask : w.tasks t = .failing loaded marketData) :
    BacktestEffect w (.commitFailed t)
      (w.commit t loaded .failed (if marketData then .retrying else .idle))
  | unsaved {t executed loaded} (htask : w.tasks t = .saving loaded) (hresults : w.results = 0)
    (hrunning : executed = true → w.status = .running) :
    BacktestEffect w (.failUnsaved t executed)
      { w.commit t (if executed then .completed else loaded) .failed .idle with
        results := w.results + 1 }
  | aborted {t found} (htask : w.tasks t = .aborting found) :
    BacktestEffect w (.commitAborted t) { w.setTask t .idle with status := .cancelled }
  | completed {t} (hresults : w.results = 0) (hrunning : w.status = .running) :
    BacktestEffect w (.finalize t)
      { w.setTask t .completed with status := .completed, results := w.results + 1 }
  | reset {t} : BacktestEffect w (.resetToPending t)
      { w.setTask t .idle with status := if w.status = .failed then .pending else w.status }
  | cancelled {t found} (htask : w.tasks t = .cancelling found) :
    BacktestEffect w (.commitCancel t) (w.commit t found .cancelled .cancelCommitted)
  | returned {t} (htask : w.tasks t = .cancelCommitted) :
    BacktestEffect w (.returnCancel t) { w.setTask t .idle with cancelReturned := true }
  | compensated {t found} (htask : w.tasks t = .compensating found) :
    BacktestEffect w (.commitFailBacktest t) (w.commit t found .failed .idle)
  | reaped {t found} (htask : w.tasks t = .reaping found) :
    BacktestEffect w (.commitReap t) (w.commit t found .failed .idle)
  | retried {t} (htask : w.tasks t = .restarting) :
    BacktestEffect w (.commitRetry t) (w.commit t .failed .pending .idle)

section Effects

variable {w w' : BacktestWorld} {action : BacktestAction}

theorem BacktestEffect.of_move {t : ℕ} {old new : BacktestPhase} (htask : w.tasks t = old)
    (h : BacktestMove w old new) : BacktestEffect w action (w.setTask t new) :=
  .moved (htask ▸ h)

theorem backtestStep_effect (h : backtestStep w action = some w') : BacktestEffect w action w' := by
  cases action with
  | run t =>
    simp only [backtestStep] at h
    split at h <;> cases h
    split_ifs with hpending
    · exact .of_move ‹_› (.start hpending)
    · exact .moved .ended
  | commitRunning t =>
    simp only [backtestStep] at h
    split at h <;> cases h
    exact .started ‹_›
  | fail t marketData =>
    simp only [backtestStep] at h
    split at h <;> cases h
    · exact .of_move ‹_› .fail
    · exact .of_move ‹_› .failSaving
    · exact .of_move ‹_› .failCompleted
  | failUnsaved t executed =>
    simp only [backtestStep] at h
    split at h
    next loaded htask =>
      split at h
      · cases h
        exact .moved .ended
      next hresults =>
        split at h <;> cases h
        next hexecuted =>
          refine .unsaved htask (not_not.mp hresults) fun hyes => ?_
          exact not_not.mp fun hstatus => hexecuted ⟨hyes, hstatus⟩
    next => cases h
  | commitFailed t =>
    simp only [backtestStep] at h
    split at h <;> cases h
    exact .failed ‹_›
  | abort t =>
    simp only [backtestStep] at h
    split at h <;> cases h
    exact .of_move ‹_› .abort
  | commitAborted t =>
    simp only [backtestStep] at h
    split at h <;> cases h
    exact .aborted ‹_›
  | refresh t =>
    simp only [backtestStep] at h
    split at h <;> cases h
    split_ifs with hcancelled
    · exact .moved .ended
    · exact .of_move ‹_› (.refresh hcancelled)
  | finalize t =>
    simp only [backtestStep] at h
    split at h <;> cases h
    unfold BacktestWorld.finalize
    split_ifs with hresults hrunning
    · exact .moved .ended
    · exact .completed (not_not.mp hresults) hrunning
    · exact .of_move ‹_› (.lost (not_not.mp hresults) hrunning)
  | resetToPending t =>
    simp only [backtestStep] at h
    split at h <;> cases h
    exact .reset
  | cancel t =>
    simp only [backtestStep] at h
    split at h <;> cases h
    split_ifs with hstatus
    · exact .of_move ‹_› (.cancel hstatus)
    · exact .moved .ended
  | commitCancel t =>
    simp only [backtestStep] at h
    split at h <;> cases h
    exact .cancelled ‹_›
  | returnCancel t =>
    simp only [backtestStep] at h
    split at h <;> cases h
    exact .returned ‹_›
  | failBacktest t =>
    simp only [backtestStep] at h
    split at h <;> cases h
    exact .of_move ‹_› .compensate
  | commitFailBacktest t =>
    simp only [backtestStep] at h
    split at h <;> cases h
    exact .compensated ‹_›
  | reap t =>
    simp only [backtestStep] at h
    split at h <;> cases h
    split_ifs with hstatus
    · exact .of_move ‹_› (.reap hstatus)
    · exact .moved .ended
  | commitReap t =>
    simp only [backtestStep] at h
    split at h <;> cases h
    exact .reaped ‹_›
  | retry t =>
    simp only [backtestStep] at h
    split at h <;> cases h
    split_ifs with hfailed
    · exact .of_move ‹_› .retry
    · exact .moved .ended
  | commitRetry t =>
    simp only [backtestStep] at h
    split at h <;> cases h
    exact .retried ‹_›
  | leave t =>
    cases h
    exact .moved .ended

end Effects

/-! ## Cancelled backtests -/

/-- A session commits on the row as it has read it, and `fail_backtest` does not take a cancelled
backtest. -/
def backtestUnraced (w : BacktestWorld) : BacktestAction → Bool
  | .commitRunning _ => w.status = .pending
  | .commitFailed t =>
    match w.tasks t with
    | .failing loaded _ => loaded = .failed ∨ w.status = loaded
    | _ => true
  | .failUnsaved t executed =>
    match w.tasks t with
    | .saving loaded => executed ∨ w.results ≠ 0 ∨ loaded = .failed ∨ w.status = loaded
    | _ => true
  | .commitFailBacktest t =>
    match w.tasks t with
    | .compensating found => found ≠ .cancelled ∧ (found = .failed ∨ w.status = found)
    | _ => true
  | .commitReap t =>
    match w.tasks t with
    | .reaping found => w.status = found
    | _ => true
  | .commitRetry _ => w.status = .failed
  | _ => true

/-- What is known of a task while it waits, for a cancelled backtest to stay so. -/
def BacktestPhase.CancelSafe (w : BacktestWorld) : BacktestPhase → Prop
  | .saving loaded => loaded ≠ .cancelled
  | .failing loaded _ => loaded ≠ .cancelled
  | .cancelling found => found ≠ .cancelled
  | .reaping found => found ≠ .cancelled
  | .cancelCommitted => w.status = .cancelled
  | _ => True

structure CancelInvariant (w : BacktestWorld) : Prop where
  returned : w.cancelReturned = true → w.status = .cancelled
  tasks : ∀ t, (w.tasks t).CancelSafe w

section Cancelled

variable {w w' : BacktestWorld} {action : BacktestAction} {t : ℕ} {phase : BacktestPhase}

/-- A phase stays safe when the row is not taken away from CANCELLED. -/
theorem BacktestPhase.CancelSafe.mono (hcancelled : w.status = .cancelled → w'.status = .cancelled)
    (h : phase.CancelSafe w) : phase.CancelSafe w' := by
  cases phase <;> first | exact h | exact hcancelled h

/-- A task that moves, in a world whose row is not taken away from CANCELLED. -/
theorem CancelInvariant.next (hinv : CancelInvariant w)
    (hcancelled : w.status = .cancelled → w'.status = .cancelled)
    (hreturned : w'.cancelReturned = true → w.cancelReturned = true)
    (htasks : w'.tasks = Function.update w.tasks t phase) (hphase : phase.CancelSafe w') :
    CancelInvariant w' := by
  refine ⟨fun h => hcancelled (hinv.returned (hreturned h)), fun u => ?_⟩
  rw [htasks]
  by_cases hu : u = t
  · subst hu
    rwa [Function.update_self]
  · rw [Function.update_of_ne hu]
    exact (hinv.tasks u).mono hcancelled

theorem BacktestMove.cancelSafe {old : BacktestPhase} (h : BacktestMove w old phase)
    (hold : old.CancelSafe w) : phase.CancelSafe w := by
  cases h with
  | failSaving => exact hold
  | refresh h => exact h
  | cancel h => exact fun hcancelled => by simp [hcancelled] at h
  | reap h => exact fun hcancelled => by simp [hcancelled] at h
  | fail => exact BacktestStatus.noConfusion
  | failCompleted => exact BacktestStatus.noConfusion
  | _ => trivial

/-- A commit that finds the row as it was read, and did not read CANCELLED. -/
theorem BacktestWorld.commit_cancelled {loaded status : BacktestStatus}
    (hloaded : loaded ≠ .cancelled) (hfound : loaded = status ∨ w.status = loaded)
    (h : w.status = .cancelled) : (w.commit t loaded status phase).status = .cancelled := by
  rcases hfound with hsame | hfound
  · simp [BacktestWorld.commit, hsame, h]
  · exact absurd (hfound.symm.trans h) hloaded

theorem cancelInvariant_step (hinv : CancelInvariant w) (hok : backtestUnraced w action = true)
    (h : backtestStep w action = some w') : CancelInvariant w' := by
  cases backtestStep_effect h with
  | @moved _ t phase hmove =>
    exact hinv.next id id rfl ((hmove.cancelSafe (hinv.tasks t)).mono id)
  | started htask =>
    have hpending : w.status = .pending := by simpa [backtestUnraced] using hok
    exact hinv.next (BacktestWorld.commit_cancelled (by decide) (.inr hpending)) id rfl trivial
  | @failed t loaded marketData htask =>
    have hfound : loaded = .failed ∨ w.status = loaded := by
      simpa [backtestUnraced, htask] using hok
    have hloaded := hinv.tasks t
    rw [htask] at hloaded
    refine hinv.next (BacktestWorld.commit_cancelled hloaded hfound) id rfl ?_
    cases marketData <;> trivial
  | @unsaved t executed loaded htask hresults hrunning =>
    have hloaded := hinv.tasks t
    rw [htask] at hloaded
    refine hinv.next ?_ id rfl trivial
    cases executed with
    | false =>
      have hfound : loaded = .failed ∨ w.status = loaded := by
        simpa [backtestUnraced, htask, hresults] using hok
      exact @BacktestWorld.commit_cancelled w t .idle loaded .failed hloaded hfound
    | true => exact fun hcancelled => by simp [hcancelled] at hrunning
  | aborted htask => exact hinv.next (fun _ => rfl) id rfl trivial
  | completed hresults hrunning =>
    exact hinv.next (fun hcancelled => by simp [hcancelled] at hrunning) id rfl trivial
  | reset => exact hinv.next (fun hcancelled => by simp [hcancelled]) id rfl trivial
  | @cancelled t found htask =>
    have hfound := hinv.tasks t
    rw [htask] at hfound
    have hstatus : (w.commit t found .cancelled .cancelCommitted).status = .cancelled :=
      if_neg hfound
    exact hinv.next (fun _ => hstatus) id rfl hstatus
  | @returned t htask =>
    have hcancelled := hinv.tasks t
    rw [htask] at hcancelled
    have hidle : CancelInvariant (w.setTask t .idle) := hinv.next id id rfl trivial
    exact ⟨fun _ => hcancelled, fun u => (hidle.tasks u).mono id⟩
  | @compensated t found htask =>
    have hfound : found ≠ .cancelled ∧ (found = .failed ∨ w.status = found) := by
      simpa [backtestUnraced, htask] using hok
    exact hinv.next (BacktestWorld.commit_cancelled hfound.1 hfound.2) id rfl trivial
  | @reaped t found htask =>
    have hfound : w.status = found := by simpa [backtestUnraced, htask] using hok
    have hloaded := hinv.tasks t
    rw [htask] at hloaded
    exact hinv.next (BacktestWorld.commit_cancelled hloaded (.inr hfound)) id rfl trivial
  | retried htask =>
    have hfailed : w.status = .failed := by simpa [backtestUnraced] using hok
    exact hinv.next (BacktestWorld.commit_cancelled (by decide) (.inr hfailed)) id rfl trivial

theorem cancelReturned_step (hreturned : w.cancelReturned = true)
    (h : backtestStep w action = some w') : w'.cancelReturned = true := by
  cases backtestStep_effect h <;> first | exact hreturned | rfl

theorem BacktestWorld.New.cancelInvariant (h : w.New) : CancelInvariant w := by
  refine ⟨fun hreturned => ?_, fun t => ?_⟩
  · rw [h.cancelReturned] at hreturned
    cases hreturned
  · rw [h.tasks t]
    trivial

end Cancelled

namespace Sample

/-- A backtest that was just created. -/
def newBacktest : BacktestWorld where
  status := .pending
  results := 0
  cancelReturned := false
  tasks := fun _ => .idle

theorem newBacktest_new : newBacktest.New := ⟨rfl, rfl, rfl, fun _ => rfl⟩

/-- A run is cancelled while it simulates, and finds so before it saves its result. -/
def cancelDuringRun : List BacktestAction :=
  [.run 0, .commitRunning 0, .cancel 1, .commitCancel 1]

end Sample

/-- No session writes a status on a row that is COMPLETED by then, and no handler commits a result
that is left in its session. -/
def backtestKeepsCompleted (w : BacktestWorld) : BacktestAction → Bool
  | .commitRunning _ | .commitAborted _ | .commitCancel _ | .commitReap _ | .commitRetry _ =>
    w.status ≠ .completed
  | .commitFailed t =>
    match w.tasks t with
    | .failing loaded _ => loaded = .failed ∨ w.status ≠ .completed
    | _ => true
  | .commitFailBacktest t =>
    match w.tasks t with
    | .compensating found => found = .failed ∨ w.status ≠ .completed
    | _ => true
  | .failUnsaved _ _ => w.results ≠ 0
  | _ => true

/-- A completed backtest has one result, and any other has none. -/
def ResultsMatch (w : BacktestWorld) : Prop := w.results = if w.status = .completed then 1 else 0

section Results

variable {w w' : BacktestWorld} {action : BacktestAction} {t : ℕ} {phase : BacktestPhase}

/-- A step that inserts no result and keeps the row COMPLETED, or not. -/
theorem ResultsMatch.next (h : ResultsMatch w) (hresults : w'.results = w.results)
    (hstatus : w'.status = .completed ↔ w.status = .completed) : ResultsMatch w' := by
  unfold ResultsMatch at h ⊢
  rw [hresults, h]
  exact if_congr hstatus.symm rfl rfl

/-- A commit of another status on a row that is not COMPLETED. -/
theorem BacktestWorld.commit_completed {loaded status : BacktestStatus}
    (hstatus : status ≠ .completed) (h : loaded = status ∨ w.status ≠ .completed) :
    (w.commit t loaded status phase).status = .completed ↔ w.status = .completed := by
  unfold BacktestWorld.commit
  rcases h with hsame | hfound
  · rw [if_pos hsame]
  · split_ifs
    · exact Iff.rfl
    · exact ⟨fun h => absurd h hstatus, fun h => absurd h hfound⟩

theorem resultsMatch_step (hinv : ResultsMatch w) (hok : backtestKeepsCompleted w action = true)
    (h : backtestStep w action = some w') : ResultsMatch w' := by
  cases backtestStep_effect h with
  | moved hmove => exact hinv.next rfl Iff.rfl
  | started htask =>
    have hfound : w.status ≠ .completed := by simpa [backtestKeepsCompleted] using hok
    exact hinv.next rfl (BacktestWorld.commit_completed (by decide) (.inr hfound))
  | @failed t loaded marketData htask =>
    have hfound : loaded = .failed ∨ w.status ≠ .completed := by
      simpa [backtestKeepsCompleted, htask] using hok
    exact hinv.next rfl (BacktestWorld.commit_completed (by decide) hfound)
  | unsaved htask hresults hrunning => simp [backtestKeepsCompleted, hresults] at hok
  | aborted htask =>
    have hfound : w.status ≠ .completed := by simpa [backtestKeepsCompleted] using hok
    exact hinv.next rfl ⟨nofun, fun h => absurd h hfound⟩
  | completed hresults hrunning => simp [ResultsMatch, hresults]
  | reset =>
    refine hinv.next rfl ?_
    by_cases hfailed : w.status = .failed <;> simp [hfailed]
  | cancelled htask =>
    have hfound : w.status ≠ .completed := by simpa [backtestKeepsCompleted] using hok
    exact hinv.next rfl (BacktestWorld.commit_completed (by decide) (.inr hfound))
  | returned htask => exact hinv.next rfl Iff.rfl
  | @compensated t found htask =>
    have hfound : found = .failed ∨ w.status ≠ .completed := by
      simpa [backtestKeepsCompleted, htask] using hok
    exact hinv.next rfl (BacktestWorld.commit_completed (by decide) hfound)
  | reaped htask =>
    have hfound : w.status ≠ .completed := by simpa [backtestKeepsCompleted] using hok
    exact hinv.next rfl (BacktestWorld.commit_completed (by decide) (.inr hfound))
  | retried htask =>
    have hfound : w.status ≠ .completed := by simpa [backtestKeepsCompleted] using hok
    exact hinv.next rfl (BacktestWorld.commit_completed (by decide) (.inr hfound))

/-- If no session writes a status over COMPLETED or commits a result that its failed run left
behind, then a backtest has at most one result, and it has one exactly when it is completed. -/
theorem results_of_completed_backtests {actions : List BacktestAction} (hnew : w.New)
    (hmeets : Transition.Meets backtestStep
      (fun w action => backtestKeepsCompleted w action = true) w actions)
    (hrun : Transition.run backtestStep w actions = some w') :
    w'.results ≤ 1 ∧ (w'.results = 1 ↔ w'.status = .completed) := by
  have hinit : ResultsMatch w := by simp [ResultsMatch, hnew.results, hnew.status]
  have hlast : ResultsMatch w' :=
    Transition.run_invariant (fun _ _ _ => resultsMatch_step) hinit hmeets hrun
  unfold ResultsMatch at hlast
  by_cases hcompleted : w'.status = .completed
  · simp [hlast, hcompleted]
  · simp [hlast, hcompleted]

end Results

namespace Sample

/-- Two workers take the backtest, and both simulate; the first completes it. -/
def duplicateRuns : List BacktestAction :=
  [.run 0, .run 1, .commitRunning 0, .commitRunning 1, .refresh 0, .refresh 1, .finalize 0,
    .finalize 1]

/-- The second worker writes RUNNING after the first has completed the backtest. -/
def lateRun : List BacktestAction :=
  [.run 0, .run 1, .commitRunning 0, .refresh 0, .finalize 0, .commitRunning 1]

end Sample

theorem results_of_completed_backtests_duplicate_runs :
    ∃ w', Transition.run backtestStep Sample.newBacktest Sample.duplicateRuns = some w' ∧
      w'.results ≤ 1 ∧ (w'.results = 1 ↔ w'.status = .completed) := by
  obtain ⟨w', hrun⟩ := Option.isSome_iff_exists.mp
    (show (Transition.run backtestStep Sample.newBacktest Sample.duplicateRuns).isSome = true by
      decide)
  exact ⟨w', hrun,
    results_of_completed_backtests Sample.newBacktest_new (by decide) hrun⟩

theorem result_of_running_backtest :
    (Transition.run backtestStep Sample.newBacktest Sample.lateRun).map
      (fun w => (w.results, w.status)) = some (1, .running) := by
  decide

end LlamaTrade
