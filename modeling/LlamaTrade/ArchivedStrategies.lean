import LlamaTrade.LiveSessions
import LlamaTrade.TransitionRuns

/-!
# Archived strategies

One strategy and its executions in the strategy service (`services/strategy_service.py`). Each
request is a READ COMMITTED transaction that reads, decides and writes what it changed. The
requests that write the status of the strategy hold its row locked from their first read on; the
requests of an execution take no lock and do not look at the status of the strategy.

`delete_strategy` archives only a strategy without RUNNING or PAUSED executions. `update_strategy`
does not count them, and executions of an archived strategy can be created and started.
-/

namespace LlamaTrade

/-- `StrategyStatus`. -/
inductive StrategyStatus where
  | unspecified | draft | active | paused | archived
  deriving DecidableEq, Repr

/-- `_VALID_STATUS_TRANSITIONS`. -/
def validStatusTransitions : List (StrategyStatus × StrategyStatus) :=
  [(.draft, .active), (.active, .paused), (.paused, .active), (.draft, .archived),
    (.active, .archived), (.paused, .archived)]

/-- `_validate_status_transition`. -/
def validateStatusTransition (current target : StrategyStatus) : Bool :=
  current = target || validStatusTransitions.contains (current, target)

/-- Where a request waits. An execution is named by its place in the list; `found` is the status
that the strategy had when the request made its check. -/
inductive StrategyPhase where
  | idle
  | creating
  -- `start_execution`, `pause_execution`, `resume_execution` and `stop_execution`, past their check
  | starting (i : ℕ) (found : StrategyStatus)
  | pausing (i : ℕ) (found : StrategyStatus)
  | resuming (i : ℕ) (found : StrategyStatus)
  | stopping (i : ℕ)
  -- `update_strategy`, with the transition checked
  | updating (status : Option StrategyStatus)
  -- `delete_strategy`, past its count, and with the PENDING executions selected
  | counted
  | archiving (pending : List ℕ)

structure StrategyWorld where
  status : StrategyStatus
  executions : List ExecutionStatus
  /-- The request that holds the row of the strategy locked. -/
  lock : Option ℕ
  tasks : ℕ → StrategyPhase

inductive StrategyAction where
  | create (t : ℕ)
  | commitCreate (t : ℕ)
  | start (t i : ℕ)
  | commitStart (t : ℕ)
  | pause (t i : ℕ)
  | commitPause (t : ℕ)
  | resume (t i : ℕ)
  | commitResume (t : ℕ)
  | stop (t i : ℕ)
  | commitStop (t : ℕ)
  | update (t : ℕ) (status : Option StrategyStatus)
  | commitUpdate (t : ℕ)
  | delete (t : ℕ)
  | select (t : ℕ)
  | commitDelete (t : ℕ)
  /-- `update_strategy_status`. -/
  | updateStatus (t : ℕ) (status : StrategyStatus)
  | crash (t : ℕ)

namespace StrategyWorld

variable (w : StrategyWorld)

def setTask (t : ℕ) (phase : StrategyPhase) : StrategyWorld :=
  { w with tasks := Function.update w.tasks t phase }

/-- The strategy has a RUNNING or PAUSED execution. -/
def hasLive : Bool := w.executions.any (·.isLive)

/-- The check of a request on an execution. -/
def check (t i : ℕ) (expected : ExecutionStatus → Bool) (phase : StrategyPhase) :
    Option StrategyWorld :=
  match w.tasks t, w.executions[i]? with
  | .idle, some status => if expected status then some (w.setTask t phase) else some w
  | .idle, none => some w
  | _, _ => none

/-- The commit of a request on an execution. -/
def commit (t i : ℕ) (status : ExecutionStatus) : StrategyWorld :=
  { w.setTask t .idle with executions := w.executions.set i status }

/-- The first read of a request that writes the strategy: it waits until the row is unlocked. -/
def begin (t : ℕ) (valid : Bool) (phase : StrategyPhase) : Option StrategyWorld :=
  match w.tasks t, w.lock with
  | .idle, none => if valid then some { w.setTask t phase with lock := some t } else some w
  | _, _ => none

/-- `update_strategy`, and `activate_strategy` and `pause_strategy` with their status. -/
def beginUpdate (t : ℕ) (status : Option StrategyStatus) : Option StrategyWorld :=
  w.begin t (status.all (validateStatusTransition w.status)) (.updating status)

/-- `delete_strategy`. -/
def beginDelete (t : ℕ) : Option StrategyWorld := w.begin t (!w.hasLive) .counted

/-- The PENDING executions. -/
def pending : List ℕ :=
  (List.range w.executions.length).filter fun i => w.executions[i]? = some .pending

/-- The commit of a request that writes the strategy. -/
def commitStrategy (t : ℕ) (status : StrategyStatus) (executions : List ExecutionStatus) :
    StrategyWorld :=
  { w.setTask t .idle with status, executions, lock := none }

end StrategyWorld

/-- One step of the system; `none` when it is not enabled. A check that fails ends the request. -/
def strategyStep (w : StrategyWorld) : StrategyAction → Option StrategyWorld
  | .create t =>
    match w.tasks t with
    | .idle => some (w.setTask t .creating)
    | _ => none
  | .commitCreate t =>
    match w.tasks t with
    | .creating => some { w.setTask t .idle with executions := w.executions ++ [.pending] }
    | _ => none
  | .start t i => w.check t i (· = .pending) (.starting i w.status)
  | .commitStart t =>
    match w.tasks t with
    | .starting i _ => some (w.commit t i .running)
    | _ => none
  | .pause t i => w.check t i (· = .running) (.pausing i w.status)
  | .commitPause t =>
    match w.tasks t with
    | .pausing i _ => some (w.commit t i .paused)
    | _ => none
  | .resume t i => w.check t i (· = .paused) (.resuming i w.status)
  | .commitResume t =>
    match w.tasks t with
    | .resuming i _ => some (w.commit t i .running)
    | _ => none
  | .stop t i => w.check t i (·.isLive) (.stopping i)
  | .commitStop t =>
    match w.tasks t with
    | .stopping i => some (w.commit t i .stopped)
    | _ => none
  | .update t status => w.beginUpdate t status
  | .commitUpdate t =>
    match w.tasks t with
    | .updating status => some (w.commitStrategy t (status.getD w.status) w.executions)
    | _ => none
  | .delete t => w.beginDelete t
  | .select t =>
    match w.tasks t with
    | .counted => some (w.setTask t (.archiving w.pending))
    | _ => none
  | .commitDelete t =>
    match w.tasks t with
    | .archiving pending =>
      some (w.commitStrategy t .archived (pending.foldl (·.set · .stopped) w.executions))
    | _ => none
  | .updateStatus t status =>
    if status = .archived then w.beginDelete t else w.beginUpdate t (some status)
  | .crash t => some { w.setTask t .idle with lock := if w.lock = some t then none else w.lock }

/-- A strategy that was just created. -/
structure StrategyWorld.New (w : StrategyWorld) : Prop where
  status : w.status ≠ .archived
  executions : w.executions = []
  lock : w.lock = none
  tasks : ∀ t, w.tasks t = .idle

/-! ## What a step can do -/

/-- What a step leaves behind, by the kind of the step. -/
inductive StrategyEffect (w : StrategyWorld) : StrategyAction → StrategyWorld → Prop
  | same {action} : StrategyEffect w action w
  | create {t} : StrategyEffect w (.create t) (w.setTask t .creating)
  | created {t} : StrategyEffect w (.commitCreate t)
      { w.setTask t .idle with executions := w.executions ++ [.pending] }
  | start {t i} (hpending : w.executions[i]? = some .pending) :
    StrategyEffect w (.start t i) (w.setTask t (.starting i w.status))
  | pause {t i} (hrunning : w.executions[i]? = some .running) :
    StrategyEffect w (.pause t i) (w.setTask t (.pausing i w.status))
  | resume {t i} (hpaused : w.executions[i]? = some .paused) :
    StrategyEffect w (.resume t i) (w.setTask t (.resuming i w.status))
  | stop {t i} : StrategyEffect w (.stop t i) (w.setTask t (.stopping i))
  | started {t i found} (htask : w.tasks t = .starting i found) :
    StrategyEffect w (.commitStart t) (w.commit t i .running)
  | paused {t i found} (htask : w.tasks t = .pausing i found) :
    StrategyEffect w (.commitPause t) (w.commit t i .paused)
  | resumed {t i found} (htask : w.tasks t = .resuming i found) :
    StrategyEffect w (.commitResume t) (w.commit t i .running)
  | stopped {t i} : StrategyEffect w (.commitStop t) (w.commit t i .stopped)
  | update {action t status} (hunlocked : w.lock = none)
    (hvalid : ∀ target ∈ status, validateStatusTransition w.status target = true) :
    StrategyEffect w action { w.setTask t (.updating status) with lock := some t }
  | delete {action t} (hunlocked : w.lock = none) :
    StrategyEffect w action { w.setTask t .counted with lock := some t }
  | select {t} (htask : w.tasks t = .counted) :
    StrategyEffect w (.select t) (w.setTask t (.archiving w.pending))
  | updated {t status} (htask : w.tasks t = .updating status) :
    StrategyEffect w (.commitUpdate t) (w.commitStrategy t (status.getD w.status) w.executions)
  | deleted {t pending} (htask : w.tasks t = .archiving pending) :
    StrategyEffect w (.commitDelete t)
      (w.commitStrategy t .archived (pending.foldl (·.set · .stopped) w.executions))
  | crash {t} : StrategyEffect w (.crash t)
      { w.setTask t .idle with lock := if w.lock = some t then none else w.lock }

section Effects

variable {w w' : StrategyWorld} {action : StrategyAction}

theorem check_cases {t i : ℕ} {expected : ExecutionStatus → Bool} {phase : StrategyPhase}
    (h : w.check t i expected phase = some w') :
    w' = w ∨ ∃ status, w.executions[i]? = some status ∧ expected status = true ∧
      w' = w.setTask t phase := by
  unfold StrategyWorld.check at h
  split at h
  · next status _ hstatus =>
    split_ifs at h with hexpected
    · exact .inr ⟨status, hstatus, hexpected, (Option.some.inj h).symm⟩
    · exact .inl (Option.some.inj h).symm
  · exact .inl (Option.some.inj h).symm
  · cases h

theorem begin_cases {t : ℕ} {valid : Bool} {phase : StrategyPhase}
    (h : w.begin t valid phase = some w') :
    w' = w ∨ valid = true ∧ w.lock = none ∧
      w' = { w.setTask t phase with lock := some t } := by
  unfold StrategyWorld.begin at h
  split at h
  · next _ hlock =>
    split_ifs at h with hvalid
    · exact .inr ⟨hvalid, hlock, (Option.some.inj h).symm⟩
    · exact .inl (Option.some.inj h).symm
  · cases h

theorem effect_beginUpdate {t : ℕ} {status : Option StrategyStatus}
    (h : w.beginUpdate t status = some w') : StrategyEffect w action w' := by
  obtain rfl | ⟨hvalid, hlock, rfl⟩ := begin_cases h
  · exact .same
  · refine .update hlock fun target htarget => ?_
    rw [Option.mem_def.mp htarget] at hvalid
    exact hvalid

theorem effect_beginDelete {t : ℕ} (h : w.beginDelete t = some w') : StrategyEffect w action w' := by
  obtain rfl | ⟨-, hlock, rfl⟩ := begin_cases h
  · exact .same
  · exact .delete hlock

theorem strategyStep_effect (h : strategyStep w action = some w') : StrategyEffect w action w' := by
  cases action with
  | create t =>
    simp only [strategyStep] at h
    split at h <;> cases h
    exact .create
  | commitCreate t =>
    simp only [strategyStep] at h
    split at h <;> cases h
    exact .created
  | start t i =>
    obtain rfl | ⟨status, hstatus, hpending, rfl⟩ := check_cases h
    · exact .same
    · exact .start (hstatus.trans (congrArg some (of_decide_eq_true hpending)))
  | commitStart t =>
    simp only [strategyStep] at h
    split at h <;> cases h
    exact .started ‹_›
  | pause t i =>
    obtain rfl | ⟨status, hstatus, hrunning, rfl⟩ := check_cases h
    · exact .same
    · exact .pause (hstatus.trans (congrArg some (of_decide_eq_true hrunning)))
  | commitPause t =>
    simp only [strategyStep] at h
    split at h <;> cases h
    exact .paused ‹_›
  | resume t i =>
    obtain rfl | ⟨status, hstatus, hpaused, rfl⟩ := check_cases h
    · exact .same
    · exact .resume (hstatus.trans (congrArg some (of_decide_eq_true hpaused)))
  | commitResume t =>
    simp only [strategyStep] at h
    split at h <;> cases h
    exact .resumed ‹_›
  | stop t i =>
    obtain rfl | ⟨status, -, -, rfl⟩ := check_cases h
    · exact .same
    · exact .stop
  | commitStop t =>
    simp only [strategyStep] at h
    split at h <;> cases h
    exact .stopped
  | update t status => exact effect_beginUpdate h
  | commitUpdate t =>
    simp only [strategyStep] at h
    split at h <;> cases h
    exact .updated ‹_›
  | delete t => exact effect_beginDelete h
  | select t =>
    simp only [strategyStep] at h
    split at h <;> cases h
    exact .select ‹_›
  | commitDelete t =>
    simp only [strategyStep] at h
    split at h <;> cases h
    exact .deleted ‹_›
  | updateStatus t status =>
    simp only [strategyStep] at h
    split_ifs at h
    · exact effect_beginDelete h
    · exact effect_beginUpdate h
  | crash t =>
    cases h
    exact .crash

end Effects

/-! ## The invariant -/

/-- The missing checks: an execution is started only while its strategy is not archived, what a
start, a pause and a resume have found of the strategy still holds when they commit, and the
strategy is archived only while no execution is RUNNING or PAUSED. -/
def ArchivesSafely (w : StrategyWorld) : StrategyAction → Prop
  | .start _ i => w.executions[i]? = some .pending → w.status ≠ .archived
  | .commitStart t => ∀ i found, w.tasks t = .starting i found → w.status = found
  | .commitPause t => ∀ i found, w.tasks t = .pausing i found → w.status = found
  | .commitResume t => ∀ i found, w.tasks t = .resuming i found → w.status = found
  | .commitUpdate t => w.tasks t = .updating (some .archived) → w.hasLive = false
  | .commitDelete _ => w.hasLive = false
  | _ => True

/-- What a request relies on while it waits. -/
def StrategyPhase.Sound (w : StrategyWorld) (t : ℕ) : StrategyPhase → Prop
  | .starting _ found | .pausing _ found | .resuming _ found => found ≠ .archived
  | .updating status =>
    w.lock = some t ∧ ∀ target ∈ status, validateStatusTransition w.status target = true
  | .counted | .archiving _ => w.lock = some t
  | _ => True

/-- An archived strategy has no live execution, and the requests rely on what holds. -/
structure StrategyWorld.Consistent (w : StrategyWorld) : Prop where
  idle : w.status = .archived → w.hasLive = false
  tasks : ∀ t, (w.tasks t).Sound w t

section Steps

variable {w w' : StrategyWorld} {action : StrategyAction}

theorem archived_of_valid {target : StrategyStatus}
    (h : validateStatusTransition .archived target = true) : target = .archived := by
  cases target <;> first | rfl | exact absurd h (by decide)

theorem StrategyPhase.Sound.congr {phase : StrategyPhase} {t : ℕ} (h : phase.Sound w t)
    (hlock : w'.lock = w.lock) (hstatus : w'.status = w.status) : phase.Sound w' t := by
  cases phase <;> simp_all [StrategyPhase.Sound]

/-- A request that does not hold the lock relies on nothing that another one writes. -/
theorem StrategyPhase.Sound.unlocked {phase : StrategyPhase} {t : ℕ} (h : phase.Sound w t)
    (hlock : w.lock ≠ some t) : phase.Sound w' t := by
  cases phase <;> simp_all [StrategyPhase.Sound]

/-- A step of one request that keeps the lock and the status. -/
theorem sound_setTask (h : ∀ t, (w.tasks t).Sound w t) {t : ℕ} {phase : StrategyPhase}
    (htasks : w'.tasks = Function.update w.tasks t phase) (hlock : w'.lock = w.lock)
    (hstatus : w'.status = w.status) (hphase : phase.Sound w' t) (t' : ℕ) :
    (w'.tasks t').Sound w' t' := by
  rw [htasks]
  by_cases ht : t' = t
  · subst ht
    rwa [Function.update_self]
  · rw [Function.update_of_ne ht]
    exact (h t').congr hlock hstatus

/-- A step of the request that takes or gives back the lock. -/
theorem sound_relock (h : ∀ t, (w.tasks t).Sound w t) {t : ℕ} {phase : StrategyPhase}
    (htasks : w'.tasks = Function.update w.tasks t phase) (hlock : ∀ t' ≠ t, w.lock ≠ some t')
    (hphase : phase.Sound w' t) (t' : ℕ) : (w'.tasks t').Sound w' t' := by
  rw [htasks]
  by_cases ht : t' = t
  · subst ht
    rwa [Function.update_self]
  · rw [Function.update_of_ne ht]
    exact (h t').unlocked (hlock t' ht)

theorem hasLive_eq_false {w : StrategyWorld} :
    w.hasLive = false ↔ ∀ e ∈ w.executions, e.isLive = false := by
  simp [StrategyWorld.hasLive]

theorem mem_foldl_set {e : ExecutionStatus} {places : List ℕ} {executions : List ExecutionStatus}
    (h : e ∈ places.foldl (·.set · .stopped) executions) : e ∈ executions ∨ e = .stopped := by
  induction places generalizing executions with
  | nil => exact .inl h
  | cons i places ih =>
    obtain hset | rfl := ih h
    · exact List.mem_or_eq_of_mem_set hset
    · exact .inr rfl

/-- A request commits an execution of a strategy that is not archived. -/
theorem consistent_commit (h : w.Consistent) {t i : ℕ} {status : ExecutionStatus}
    (hstatus : w.status ≠ .archived ∨ status = .stopped) : (w.commit t i status).Consistent := by
  refine ⟨fun harchived => ?_, sound_setTask h.tasks rfl rfl rfl trivial⟩
  obtain hne | rfl := hstatus
  · exact absurd harchived hne
  · have hidle := hasLive_eq_false.mp (h.idle harchived)
    refine hasLive_eq_false.mpr fun e he => ?_
    obtain hold | rfl := List.mem_or_eq_of_mem_set he
    · exact hidle e hold
    · rfl

theorem consistent_commitStrategy (h : w.Consistent) {t : ℕ} {status : StrategyStatus}
    {executions : List ExecutionStatus} (hlock : w.lock = some t)
    (hidle : status = .archived → ∀ e ∈ executions, e.isLive = false) :
    (w.commitStrategy t status executions).Consistent := by
  refine ⟨fun harchived => hasLive_eq_false.mpr (hidle harchived),
    sound_relock h.tasks rfl (fun t' ht heq => ht ?_) trivial⟩
  exact Option.some.inj (heq.symm.trans hlock)

theorem found_of_live (h : w.Consistent) {i : ℕ} {status : ExecutionStatus}
    (hexecution : w.executions[i]? = some status) (hlive : status.isLive = true) :
    w.status ≠ .archived := by
  intro harchived
  have hdead := hasLive_eq_false.mp (h.idle harchived) status (List.mem_of_getElem? hexecution)
  rw [hlive] at hdead
  cases hdead

theorem consistent_step (h : w.Consistent) (hok : ArchivesSafely w action)
    (hstep : strategyStep w action = some w') : w'.Consistent := by
  cases strategyStep_effect hstep with
  | same => exact h
  | create => exact ⟨h.idle, sound_setTask h.tasks rfl rfl rfl trivial⟩
  | created =>
    refine ⟨fun harchived => ?_, sound_setTask h.tasks rfl rfl rfl trivial⟩
    have hidle := hasLive_eq_false.mp (h.idle harchived)
    refine hasLive_eq_false.mpr fun e he => ?_
    obtain hold | hnew := List.mem_append.mp he
    · exact hidle e hold
    · rw [List.mem_singleton.mp hnew]
      rfl
  | start hpending => exact ⟨h.idle, sound_setTask h.tasks rfl rfl rfl (hok hpending)⟩
  | pause hrunning =>
    exact ⟨h.idle, sound_setTask h.tasks rfl rfl rfl (found_of_live h hrunning rfl)⟩
  | resume hpaused =>
    exact ⟨h.idle, sound_setTask h.tasks rfl rfl rfl (found_of_live h hpaused rfl)⟩
  | stop => exact ⟨h.idle, sound_setTask h.tasks rfl rfl rfl trivial⟩
  | @started t i found htask =>
    have hfound : found ≠ .archived := by simpa [htask, StrategyPhase.Sound] using h.tasks t
    exact consistent_commit h (.inl (hok i found htask ▸ hfound))
  | @paused t i found htask =>
    have hfound : found ≠ .archived := by simpa [htask, StrategyPhase.Sound] using h.tasks t
    exact consistent_commit h (.inl (hok i found htask ▸ hfound))
  | @resumed t i found htask =>
    have hfound : found ≠ .archived := by simpa [htask, StrategyPhase.Sound] using h.tasks t
    exact consistent_commit h (.inl (hok i found htask ▸ hfound))
  | stopped => exact consistent_commit h (.inr rfl)
  | update hunlocked hvalid =>
    exact ⟨h.idle, sound_relock h.tasks rfl (by simp [hunlocked]) ⟨rfl, hvalid⟩⟩
  | delete hunlocked => exact ⟨h.idle, sound_relock h.tasks rfl (by simp [hunlocked]) rfl⟩
  | @select t htask =>
    have hlock := h.tasks t
    rw [htask] at hlock
    exact ⟨h.idle, sound_setTask h.tasks rfl rfl rfl hlock⟩
  | @updated t status htask =>
    have hsound := h.tasks t
    rw [htask] at hsound
    refine consistent_commitStrategy h hsound.1 fun harchived => ?_
    cases status with
    | none => exact hasLive_eq_false.mp (h.idle harchived)
    | some target =>
      obtain rfl : target = .archived := harchived
      exact hasLive_eq_false.mp (hok htask)
  | @deleted t pending htask =>
    have hsound := h.tasks t
    rw [htask] at hsound
    refine consistent_commitStrategy h hsound fun _ e he => ?_
    obtain hold | rfl := mem_foldl_set he
    · exact hasLive_eq_false.mp hok e hold
    · rfl
  | @crash t =>
    by_cases hlock : w.lock = some t
    · refine ⟨h.idle, sound_relock h.tasks rfl (fun t' ht heq => ht ?_) trivial⟩
      exact Option.some.inj (heq.symm.trans hlock)
    · exact ⟨h.idle, sound_setTask h.tasks rfl (if_neg hlock) rfl trivial⟩

/-- No transition leads away from ARCHIVED, and the status is written under the lock. -/
theorem archived_step (h : w.Consistent) (harchived : w.status = .archived)
    (hstep : strategyStep w action = some w') : w'.status = .archived := by
  cases strategyStep_effect hstep with
  | @updated t status htask =>
    have hsound := h.tasks t
    rw [htask] at hsound
    cases status with
    | none => exact harchived
    | some target =>
      have hvalid := hsound.2 target rfl
      rw [harchived] at hvalid
      exact archived_of_valid hvalid
  | deleted => rfl
  | _ => exact harchived

end Steps

/-- **An archived strategy has no live execution.** In every run from a new strategy whose steps
meet the missing checks: a strategy that is ARCHIVED has no RUNNING or PAUSED execution, and it
stays ARCHIVED. -/
theorem archived_strategies_idle {w w₁ w₂ : StrategyWorld} {before after : List StrategyAction}
    (hnew : w.New) (hmeets : Transition.Meets strategyStep ArchivesSafely w (before ++ after))
    (hbefore : Transition.run strategyStep w before = some w₁)
    (hafter : Transition.run strategyStep w₁ after = some w₂) :
    (w₂.status = .archived → ∀ e ∈ w₂.executions, e ≠ .running ∧ e ≠ .paused) ∧
      (w₁.status = .archived → w₂.status = .archived) := by
  have hinit : w.Consistent :=
    ⟨fun harchived => absurd harchived hnew.status, fun t => by rw [hnew.tasks t]; trivial⟩
  have hfirst : w₁.Consistent :=
    Transition.run_invariant (fun _ _ _ h hok hstep => consistent_step h hok hstep) hinit
      (Transition.meets_left hmeets) hbefore
  have hrest := Transition.meets_of_append hmeets hbefore
  have hlast : w₂.Consistent :=
    Transition.run_invariant (fun _ _ _ h hok hstep => consistent_step h hok hstep) hfirst hrest
      hafter
  refine ⟨fun harchived e he => ?_, fun harchived => ?_⟩
  · have hdead := hasLive_eq_false.mp (hlast.idle harchived) e he
    constructor
    · rintro rfl
      cases hdead
    · rintro rfl
      cases hdead
  · have hboth : w₂.Consistent ∧ w₂.status = .archived :=
      Transition.run_invariant (I := fun w => w.Consistent ∧ w.status = .archived)
        (fun _ _ _ h hok hstep => ⟨consistent_step h.1 hok hstep, archived_step h.1 h.2 hstep⟩)
        ⟨hfirst, harchived⟩ hrest hafter
    exact hboth.2

namespace Sample

def newStrategy : StrategyWorld := ⟨.active, [], none, fun _ => .idle⟩

theorem newStrategy_new : newStrategy.New := ⟨by decide, rfl, rfl, fun _ => rfl⟩

end Sample

theorem archived_strategies_idle_stopped :
    ∃ w₁ w₂, Transition.run strategyStep Sample.newStrategy [.create 0, .commitCreate 0, .start 1 0,
        .commitStart 1, .stop 2 0, .commitStop 2, .delete 3, .select 3, .commitDelete 3] = some w₁ ∧
      Transition.run strategyStep w₁ [.updateStatus 4 .active] = some w₂ ∧
      w₁.status = .archived ∧ w₂.status = .archived ∧ w₂.executions = [.stopped] := by
  have hmeets : Transition.Meets strategyStep ArchivesSafely Sample.newStrategy
      ([.create 0, .commitCreate 0, .start 1 0, .commitStart 1, .stop 2 0, .commitStop 2, .delete 3,
        .select 3, .commitDelete 3] ++ [.updateStatus 4 .active]) := by
    iterate 2 refine Transition.meets_cons rfl trivial ?_
    refine Transition.meets_cons rfl (fun _ => by decide) ?_
    refine Transition.meets_cons rfl (fun i found htask => by cases htask; rfl) ?_
    iterate 4 refine Transition.meets_cons rfl trivial ?_
    refine Transition.meets_cons rfl rfl ?_
    exact Transition.meets_cons rfl trivial trivial
  have h := archived_strategies_idle Sample.newStrategy_new hmeets rfl rfl
  exact ⟨_, _, rfl, rfl, rfl, h.2 rfl, rfl⟩

/-- An execution of an archived strategy is created and started. -/
theorem archived_strategy_started :
    ∃ w, Transition.run strategyStep Sample.newStrategy [.delete 0, .select 0, .commitDelete 0,
        .create 1, .commitCreate 1, .start 2 0, .commitStart 2] = some w ∧
      w.status = .archived ∧ w.executions = [.running] :=
  ⟨_, rfl, rfl, rfl⟩

end LlamaTrade
