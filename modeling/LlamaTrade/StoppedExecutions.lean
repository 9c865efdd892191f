import LlamaTrade.StrategyExecutions
import LlamaTrade.TransitionRuns

/-!
# Stopped executions

A start, a pause and a resume check the status that they have read and then write another,
without a lock and without looking again. Where each of them still finds the status it has
read when it commits, an execution that is stopped stays stopped. A pause that has read
RUNNING before a stop commits brings the execution back.
-/

namespace LlamaTrade

/-- The commits of a start, a pause and a resume find the status that the request has read. -/
def WritesFresh (w : ExecutionWorld) : ExecutionAction → Prop
  | .commitStart t => ∀ loaded sleeve, w.tasks t = .recordingStart loaded sleeve →
      w.row.status = loaded.status
  | .commitPause t => ∀ loaded, w.tasks t = .pausing loaded → w.row.status = loaded.status
  | .commitResume t => ∀ loaded, w.tasks t = .resuming loaded → w.row.status = loaded.status
  | _ => True

/-- The status that a request has checked. -/
def ExecutionPhase.Checked : ExecutionPhase → Prop
  | .starting loaded _ | .funding loaded _ | .allocating loaded _ | .recordingStart loaded _ =>
    loaded.status = .pending
  | .pausing loaded => loaded.status = .running
  | .resuming loaded => loaded.status = .paused
  | _ => True

section Steps

variable {env : Platform} {terms : ExecutionTerms} {w w' : ExecutionWorld} {action : ExecutionAction}

theorem checked_update {tasks : ℕ → ExecutionPhase} (h : ∀ t, (tasks t).Checked) {t : ℕ}
    {phase : ExecutionPhase} (hphase : phase.Checked) (t' : ℕ) :
    (Function.update tasks t phase t').Checked := by
  by_cases ht : t' = t
  · subst ht
    rwa [Function.update_self]
  · rw [Function.update_of_ne ht]
    exact h t'

theorem checked_afterServed {phase : ExecutionPhase} (h : phase.Checked) (sleeve : Option UUID) :
    (afterServed sleeve phase).Checked := by
  cases phase with
  | allocating loaded token => exact h
  | closing token => trivial
  | _ => exact h

theorem checked_move {t : ℕ} {old new : ExecutionPhase} (h : RequestMove terms w action t old new) :
    new.Checked := by
  cases h with
  | fund hpending _ => exact hpending
  | unfunded hpending _ => exact hpending
  | pause hrunning => exact hrunning
  | resume hpaused => exact hpaused
  | _ => trivial

theorem checked_commit {t : ℕ} {old new : ExecutionPhase} {row : ExecutionState}
    (h : RowCommit terms w action t old row new) : new.Checked := by
  cases h <;> trivial

/-- Every request that waits has checked what it has read. -/
theorem checked_step (h : ∀ t, (w.tasks t).Checked) (hstep : executionStep env terms w action = some w') :
    ∀ t, (w'.tasks t).Checked := by
  cases executionStep_effect hstep with
  | same => exact h
  | moved hmove => exact checked_update h (checked_move hmove)
  | committed hcommit => exact checked_update h (checked_commit hcommit)
  | @bootstrapped t fresh loaded amount db base htask _ =>
    have hchecked := h t
    rw [htask] at hchecked
    exact checked_update h hchecked
  | @allocateSent t loaded amount htask =>
    have hchecked := h t
    rw [htask] at hchecked
    exact checked_update h hchecked
  | closeSent _ _ => exact checked_update h trivial
  | served _ _ _ _ htasks =>
    obtain ⟨-, rfl⟩ | ⟨t, -, -, rfl⟩ := htasks
    · exact h
    · exact checked_update h (checked_afterServed (h t) _)
  | failed _ _ _ htasks =>
    obtain rfl | ⟨t, -, rfl⟩ := htasks
    · exact h
    · exact checked_update h trivial
  | dropped => exact h
  | other _ => exact h

/-- No commit that finds what its request has read starts a stopped execution. -/
theorem stopped_step (hchecked : ∀ t, (w.tasks t).Checked) (hstopped : w.row.status = .stopped)
    (hok : WritesFresh w action) (hstep : executionStep env terms w action = some w') :
    w'.row.status = .stopped := by
  cases executionStep_effect hstep with
  | @committed _ t row phase hcommit =>
    have hread := hchecked t
    generalize hold : w.tasks t = old at hcommit hread
    cases hcommit with
    | start =>
      have hsame := hok _ _ hold
      rw [hstopped, hread] at hsame
      cases hsame
    | pause =>
      have hsame := hok _ hold
      rw [hstopped, hread] at hsame
      cases hsame
    | resume =>
      have hsame := hok _ hold
      rw [hstopped, hread] at hsame
      cases hsame
    | stop => rfl
    | clear => exact hstopped
    | cancel => rfl
  | _ => exact hstopped

end Steps

/-- **A stopped execution stays stopped.** In every run of an execution whose starts, pauses
and resumes find, when they commit, the status that they have read: after a commit of STOPPED
every later committed state has it STOPPED. -/
theorem stopped_executions_stay_stopped {env : Platform} {terms : ExecutionTerms}
    {w w₁ w₂ : ExecutionWorld} {before after : List ExecutionAction} (hcreated : JustCreated terms w)
    (hmeets : Transition.Meets (executionStep env terms) WritesFresh w (before ++ after))
    (hbefore : Transition.run (executionStep env terms) w before = some w₁)
    (hstopped : w₁.row.status = .stopped)
    (hafter : Transition.run (executionStep env terms) w₁ after = some w₂) :
    w₂.row.status = .stopped := by
  have hinit : ∀ t, (w.tasks t).Checked := fun t => by
    rw [hcreated.tasks t]
    trivial
  have hchecked : ∀ t, (w₁.tasks t).Checked :=
    Transition.run_invariant (I := fun w => ∀ t, (w.tasks t).Checked)
      (fun _ _ _ h _ hstep => checked_step h hstep) hinit (Transition.meets_left hmeets) hbefore
  have hboth : (∀ t, (w₂.tasks t).Checked) ∧ w₂.row.status = .stopped :=
    Transition.run_invariant (I := fun w => (∀ t, (w.tasks t).Checked) ∧ w.row.status = .stopped)
      (fun _ _ _ h hok hstep => ⟨checked_step h.1 hstep, stopped_step h.1 h.2 hok hstep⟩)
      ⟨hchecked, hstopped⟩ (Transition.meets_of_append hmeets hbefore) hafter
  exact hboth.2

namespace Sample

def noEvents : Database := ⟨[], [], List.nodup_nil, List.nodup_nil⟩

def plainPlatform : Platform := ⟨fun _ => 0, fun _ => true⟩

/-- An execution without funding intent. -/
def unfundedTerms : ExecutionTerms := ⟨40, 2, none, none, 41⟩

def createdExecution : ExecutionWorld := ⟨⟨.pending, none, none⟩, noEvents, [], 0, [], fun _ => .idle⟩

/-- The execution is started, paused and stopped, and a further pause is refused. -/
def pausedThenStopped : List ExecutionAction :=
  [.start 0 true, .commitStart 0, .pause 1, .commitPause 1, .stop 2, .commitStop 2]

/-- A pause reads RUNNING, the execution is stopped, and the pause commits. -/
def pausedWhileStopping : List ExecutionAction :=
  [.start 0 true, .commitStart 0, .pause 1, .stop 2, .commitStop 2]

theorem createdExecution_created : JustCreated unfundedTerms createdExecution :=
  ⟨rfl, rfl, rfl, rfl, fun _ => rfl⟩

end Sample

theorem stopped_executions_stay_stopped_paused :
    ∃ w₁ w₂, Transition.run (executionStep Sample.plainPlatform Sample.unfundedTerms)
        Sample.createdExecution Sample.pausedThenStopped = some w₁ ∧ w₁.row.status = .stopped ∧
      Transition.run (executionStep Sample.plainPlatform Sample.unfundedTerms) w₁ [.pause 3] =
        some w₂ ∧ w₂.row.status = .stopped := by
  have hmeets : Transition.Meets (executionStep Sample.plainPlatform Sample.unfundedTerms)
      WritesFresh Sample.createdExecution (Sample.pausedThenStopped ++ [.pause 3]) := by
    refine Transition.meets_cons rfl trivial ?_
    refine Transition.meets_cons rfl (fun loaded sleeve htask => by cases htask; rfl) ?_
    refine Transition.meets_cons rfl trivial ?_
    refine Transition.meets_cons rfl (fun loaded htask => by cases htask; rfl) ?_
    iterate 3 refine Transition.meets_cons rfl trivial ?_
    trivial
  exact ⟨_, _, rfl, rfl, rfl, stopped_executions_stay_stopped Sample.createdExecution_created hmeets
    rfl rfl rfl⟩

theorem paused_after_stop :
    ∃ w₁ w₂, Transition.run (executionStep Sample.plainPlatform Sample.unfundedTerms)
        Sample.createdExecution Sample.pausedWhileStopping = some w₁ ∧ w₁.row.status = .stopped ∧
      Transition.run (executionStep Sample.plainPlatform Sample.unfundedTerms) w₁ [.commitPause 1] =
        some w₂ ∧ w₂.row.status = .paused :=
  ⟨_, _, rfl, rfl, rfl, rfl⟩

end LlamaTrade
