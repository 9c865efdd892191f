import LlamaTrade.LiveSessions
import LlamaTrade.TransitionRuns

/-!
# The sessions of a sleeve

`start_session` checks that no live session trades the sleeve and then commits its row. A sleeve
has one live session as long as the checks of one sleeve do not overlap, and no pause or resume
commits over a status that has changed since it was read.
-/

namespace LlamaTrade

/-! ## What a step does to the sessions -/

/-- The phases that say nothing about the sleeves: those outside of the check and the insertion,
and the commits that bring no session to life. -/
def SessionPhase.Plain : SessionPhase → Prop
  | .checking .. | .inserting _ _ (some _) _ => False
  | .marking _ old status => status.isLive = true → old.isLive = true
  | _ => True

/-- A task goes on to a plain phase, and the tables stay as they are. -/
structure Advances (w w' : SessionWorld) (t : TaskId) : Prop where
  executions : w'.executions = w.executions
  sessions : w'.sessions = w.sessions
  tasks : ∃ phase : SessionPhase, phase.Plain ∧ w'.tasks = Function.update w.tasks t phase

section Advances

variable {w : SessionWorld} {t : TaskId} {id : UUID}

theorem advances_setTask {phase : SessionPhase} (h : phase.Plain) :
    Advances w (w.setTask t phase) t :=
  ⟨rfl, rfl, phase, h, rfl⟩

/-- What the registries and the runners are does not matter. -/
theorem Advances.of_same {w₁ w' : SessionWorld} (h : Advances w₁ w' t)
    (hexecutions : w₁.executions = w.executions) (hsessions : w₁.sessions = w.sessions)
    (htasks : w₁.tasks = w.tasks) : Advances w w' t where
  executions := h.executions.trans hexecutions
  sessions := h.sessions.trans hsessions
  tasks := htasks ▸ h.tasks

theorem advances_touched {w₁ : SessionWorld} {phase : SessionPhase}
    (hexecutions : w₁.executions = w.executions) (hsessions : w₁.sessions = w.sessions)
    (htasks : w₁.tasks = w.tasks) (h : phase.Plain) : Advances w (w₁.setTask t phase) t :=
  (advances_setTask h).of_same hexecutions hsessions htasks

theorem advances_beginClaim (use : ClaimUse) : Advances w (w.beginClaim t id use) t := by
  rw [SessionWorld.beginClaim]
  split
  · exact advances_setTask trivial
  · exact advances_setTask trivial

theorem plain_afterRelease (id : UUID) (use : ReleaseUse) :
    (SessionWorld.afterRelease id use).Plain := by
  cases use with
  | stop loaded =>
    rw [SessionWorld.afterRelease]
    split_ifs
    · trivial
    · exact nofun
  | startFailed | drop | rehydrateFailed | adoptionEnds => trivial

theorem advances_beginRelease (use : ReleaseUse) : Advances w (w.beginRelease t id use) t := by
  rw [SessionWorld.beginRelease]
  split
  · exact advances_touched rfl rfl rfl trivial
  · exact advances_setTask (plain_afterRelease id use)

theorem advances_startRaises (caller : StartCaller) : Advances w (w.startRaises t caller) t := by
  cases caller with
  | request => exact advances_setTask trivial
  | adoption executionId rest => exact advances_beginRelease _

theorem advances_startReturns (caller : StartCaller) :
    Advances w (w.startReturns t id caller) t := by
  cases caller with
  | request => exact advances_setTask trivial
  | adoption executionId rest => exact advances_beginClaim _

theorem advances_claimed (use : ClaimUse) : Advances w (w.claimed t id use) t := by
  cases use with
  | runner use => exact advances_setTask trivial
  | adopt spec rest => exact advances_setTask trivial
  | adopted executionId rest => exact advances_beginRelease _

theorem advances_notClaimed (use : ClaimUse) : Advances w (w.notClaimed t id use) t := by
  cases use with
  | runner use =>
    cases use with
    | start caller => exact advances_beginRelease _
    | rehydrate rest => exact advances_setTask trivial
  | adopt spec rest => exact advances_setTask trivial
  | adopted executionId rest => exact advances_beginRelease _

theorem advances_notStarted (use : RunnerUse) : Advances w (w.notStarted t id use) t := by
  cases use with
  | start caller => exact advances_beginRelease _
  | rehydrate rest => exact advances_beginRelease _

theorem advances_afterStop (raised : Bool) (use : StopUse) :
    Advances w (w.afterStop t id raised use) t := by
  cases use with
  | stop loaded =>
    rw [SessionWorld.afterStop]
    split_ifs
    · exact advances_setTask trivial
    · exact advances_beginRelease _
  | drop rest specs =>
    rw [SessionWorld.afterStop]
    split_ifs
    · exact advances_setTask trivial
    · exact advances_beginRelease _
  | evict rest => exact advances_beginClaim _
  | sweep rest => exact advances_setTask trivial

theorem advances_beginStop (use : StopUse) : Advances w (w.beginStop t id use) t := by
  rw [SessionWorld.beginStop]
  split
  · exact advances_afterStop false use
  · exact advances_touched rfl rfl rfl trivial

end Advances

/-- The task that takes the step. -/
def SessionAction.task : SessionAction → Option TaskId
  | .fund _ | .run _ | .exit _ | .die _ => none
  | .start t _ | .resolve t _ | .check t | .insert t .. | .setError t | .probe t
  | .openConnection t _ | .lock t _ | .startRunner t _ | .runnerStopped t _ | .taskCancelled t _
  | .unlock t | .stop t .. | .pause t .. | .resume t .. | .mark t | .rehydrate t | .sweep t
  | .probeSwept t | .discard t | .load t | .beginDrops t | .drop t | .reclaim t | .adopt t
  | .loadOrphans t _ | .adoptNext t => some t

/-- The tables after a step, and the phases of the tasks that use a sleeve. -/
inductive SessionEffect (ids : Identities) (w : SessionWorld) :
    SessionAction → SessionWorld → Prop
  | advanced {action t w'} (htask : action.task = some t) (h : Advances w w' t) :
    SessionEffect ids w action w'
  | funded {executions} (h : executions.all ids.allow = true) :
    SessionEffect ids w (.fund executions) { w with executions }
  | resolved {t request caller sleeve account} (htask : w.tasks t = .resolving request caller)
    (hidentity : resolveLedgerIdentity w.executions request = .ok (some sleeve, account)) :
    SessionEffect ids w (.resolve t true) (w.setTask t (.checking request caller sleeve account))
  | passed {t request caller sleeve account}
    (htask : w.tasks t = .checking request caller sleeve account)
    (hfree : ensureSleeveNotInUse w.sessions request.tenantId sleeve = .ok ()) :
    SessionEffect ids w (.check t)
      (w.setTask t (.inserting request caller (some sleeve) account))
  | inserted {t id request caller sleeve account w'}
    (htask : w.tasks t = .inserting request caller sleeve account)
    (h : Advances { w with sessions := w.sessions ++
      [⟨id, request.tenantId, request.strategyId, .running, sleeve, account⟩] } w' t) :
    SessionEffect ids w (.insert t id true) w'
  | failed {t id caller w'} (htask : w.tasks t = .failing id caller)
    (h : Advances { w with sessions := writeStatus w.sessions id .error } w' t) :
    SessionEffect ids w (.setError t) w'
  | marked {t id loaded status} (htask : w.tasks t = .marking id loaded status) :
    SessionEffect ids w (.mark t)
      ({ w with sessions := writeStatus w.sessions id status }.setTask t .idle)
  | ran {action w'} (hexecutions : w'.executions = w.executions)
    (hsessions : w'.sessions = w.sessions)
    (htasks : ∀ t, w'.tasks t = w.tasks t ∨ w'.tasks t = .idle) : SessionEffect ids w action w'

section Effects

variable {ids : Identities} {w w' : SessionWorld} {action : SessionAction}

/-- Every step has one of the listed effects. -/
theorem sessionStep_effect (h : sessionStep ids w action = some w') :
    SessionEffect ids w action w' := by
  cases action with
  | fund executions =>
    simp only [sessionStep] at h
    split_ifs at h with hallow
    cases h
    exact .funded hallow
  | start t request =>
    simp only [sessionStep] at h
    split at h
    · cases h
      exact .advanced rfl (advances_setTask trivial)
    · cases h
  | resolve t ok =>
    simp only [sessionStep] at h
    split at h
    · rename_i htask
      split at h
      · rename_i hidentity
        cases h
        exact .resolved htask hidentity
      · cases h
        exact .advanced rfl (advances_setTask trivial)
      · cases h
        exact .advanced rfl (advances_startRaises _)
    · cases h
  | check t =>
    simp only [sessionStep] at h
    split at h
    · rename_i htask
      split at h
      · rename_i hfree
        cases h
        exact .passed htask hfree
      · cases h
        exact .advanced rfl (advances_startRaises _)
    · cases h
  | insert t id ok =>
    simp only [sessionStep] at h
    split at h
    · rename_i htask
      split_ifs at h with hok hused
      · cases h
        exact .advanced rfl (advances_startRaises _)
      · obtain rfl : ok = true := by simpa using hok
        cases h
        exact .inserted htask (advances_beginClaim _)
    · cases h
  | setError t =>
    simp only [sessionStep] at h
    split at h
    · rename_i htask
      cases h
      exact .failed htask (advances_startRaises _)
    · cases h
  | probe t =>
    simp only [sessionStep] at h
    split at h
    · split_ifs at h
      · cases h
        exact .advanced rfl (advances_claimed _)
      · cases h
        exact .advanced rfl (advances_touched rfl rfl rfl trivial)
    · cases h
  | openConnection t ok =>
    simp only [sessionStep] at h
    split at h
    · split_ifs at h
      · cases h
        exact .advanced rfl (advances_touched rfl rfl rfl trivial)
      · cases h
        exact .advanced rfl (advances_notClaimed _)
    · cases h
  | lock t ok =>
    simp only [sessionStep] at h
    split at h
    · split_ifs at h
      · cases h
        exact .advanced rfl ((advances_claimed _).of_same rfl rfl rfl)
      · cases h
        exact .advanced rfl (advances_notClaimed _)
    · cases h
  | startRunner t ok =>
    simp only [sessionStep] at h
    split at h
    · split_ifs at h
      · split at h
        · cases h
          exact .advanced rfl ((advances_startReturns _).of_same rfl rfl rfl)
        · cases h
          exact .advanced rfl (advances_touched rfl rfl rfl trivial)
      · cases h
        exact .advanced rfl (advances_notStarted _)
    · cases h
  | runnerStopped t ok =>
    simp only [sessionStep] at h
    split at h
    · split at h
      · cases h
        exact .advanced rfl (advances_touched rfl rfl rfl trivial)
      · cases h
        exact .advanced rfl (advances_afterStop _ _)
    · cases h
  | taskCancelled t ok =>
    simp only [sessionStep] at h
    split at h
    · split_ifs at h
      · cases h
        exact .advanced rfl ((advances_afterStop _ _).of_same rfl rfl rfl)
      · cases h
        exact .advanced rfl ((advances_afterStop _ _).of_same rfl rfl rfl)
    · cases h
  | unlock t =>
    simp only [sessionStep] at h
    split at h
    · cases h
      exact .advanced rfl (advances_touched rfl rfl rfl (plain_afterRelease _ _))
    · cases h
  | stop t tenant id =>
    simp only [sessionStep] at h
    split at h
    · split_ifs at h
      · cases h
        exact .advanced rfl (advances_beginStop _)
      · cases h
        exact .advanced rfl (advances_beginRelease _)
    · cases h
  | pause t tenant id =>
    simp only [sessionStep] at h
    split at h
    · split_ifs at h with hstatus
      cases h
      exact .advanced rfl (advances_setTask fun _ => by rw [hstatus]; rfl)
    · cases h
  | resume t tenant id =>
    simp only [sessionStep] at h
    split at h
    · split_ifs at h with hstatus
      cases h
      exact .advanced rfl (advances_setTask fun _ => by rw [hstatus]; rfl)
    · cases h
  | mark t =>
    simp only [sessionStep] at h
    split at h
    · rename_i htask
      cases h
      exact .marked htask
    · cases h
  | rehydrate t =>
    simp only [sessionStep] at h
    split at h
    · cases h
      exact .advanced rfl (advances_setTask trivial)
    · cases h
  | sweep t =>
    simp only [sessionStep] at h
    split at h
    · split at h
      · cases h
        exact .advanced rfl (advances_setTask trivial)
      · cases h
        exact .advanced rfl (advances_beginStop _)
    · cases h
  | probeSwept t =>
    simp only [sessionStep] at h
    split at h
    · split_ifs at h
      · cases h
        exact .advanced rfl (advances_setTask trivial)
      · cases h
        exact .advanced rfl (advances_touched rfl rfl rfl trivial)
    · cases h
  | discard t =>
    simp only [sessionStep] at h
    split at h
    · cases h
      exact .advanced rfl (advances_beginStop _)
    · cases h
  | load t =>
    simp only [sessionStep] at h
    split at h
    · cases h
      exact .advanced rfl (advances_setTask trivial)
    · cases h
  | beginDrops t =>
    simp only [sessionStep] at h
    split at h
    · cases h
      exact .advanced rfl (advances_setTask trivial)
    · cases h
  | drop t =>
    simp only [sessionStep] at h
    split at h
    · split_ifs at h
      · cases h
        exact .advanced rfl (advances_setTask trivial)
      · cases h
        exact .advanced rfl (advances_beginStop _)
      · cases h
        exact .advanced rfl (advances_beginRelease _)
    · cases h
      exact .advanced rfl (advances_setTask trivial)
    · cases h
  | reclaim t =>
    simp only [sessionStep] at h
    split at h
    · split_ifs at h
      · cases h
        exact .advanced rfl (advances_setTask trivial)
      · cases h
        exact .advanced rfl (advances_beginStop _)
    · cases h
      exact .advanced rfl (advances_setTask trivial)
    · cases h
  | adopt t =>
    simp only [sessionStep] at h
    split at h
    · cases h
      exact .advanced rfl (advances_setTask trivial)
    · cases h
  | loadOrphans t now =>
    simp only [sessionStep] at h
    split at h
    · cases h
      exact .advanced rfl (advances_setTask trivial)
    · cases h
  | adoptNext t =>
    simp only [sessionStep] at h
    split at h
    · split at h
      · cases h
        exact .advanced rfl (advances_setTask trivial)
      · cases h
        exact .advanced rfl (advances_beginClaim _)
    · cases h
      exact .advanced rfl (advances_setTask trivial)
    · cases h
  | run runner =>
    simp only [sessionStep] at h
    split at h
    · cases h
      exact .ran rfl rfl fun _ => .inl rfl
    · cases h
  | exit runner =>
    cases h
    exact .ran rfl rfl fun _ => .inl rfl
  | die replica =>
    cases h
    refine .ran rfl rfl fun t => ?_
    by_cases ht : t.replica = replica
    · exact .inr (if_pos ht)
    · exact .inl (if_neg ht)

/-- A task that takes no step stays idle. -/
theorem idle_of_other_step {t : TaskId} (h : w.tasks t = .idle) (hne : action.task ≠ some t)
    (hstep : sessionStep ids w action = some w') : w'.tasks t = .idle := by
  have hadvances : ∀ {w₁ t'}, Advances w₁ w' t' → w₁.tasks = w.tasks → action.task = some t' →
      w'.tasks t = .idle := by
    intro w₁ t' hadvances htasks htask
    obtain ⟨phase, -, hupdate⟩ := hadvances.tasks
    rw [hupdate, htasks, Function.update_of_ne, h]
    rintro rfl
    exact hne htask
  cases sessionStep_effect hstep with
  | advanced htask hstep => exact hadvances hstep rfl htask
  | funded => exact h
  | @resolved t' | @passed t' =>
    refine (Function.update_of_ne ?_ ..).trans h
    rintro rfl
    exact hne rfl
  | inserted htask hstep => exact hadvances hstep rfl rfl
  | failed htask hstep => exact hadvances hstep rfl rfl
  | marked htask => exact hadvances (advances_setTask trivial) rfl rfl
  | ran _ _ htasks => exact (htasks t).elim (fun hold => hold.trans h) id

theorem idle_of_other_run {t : TaskId} {actions : List SessionAction}
    (hne : ∀ action ∈ actions, action.task ≠ some t)
    (hrun : Transition.run (sessionStep ids) .empty actions = some w) : w.tasks t = .idle :=
  Transition.run_invariant (I := fun w => w.tasks t = .idle)
    (fun _ _ _ h hother hstep => idle_of_other_step h hother hstep) rfl
    (Transition.meets_of_forall (fun action haction _ => hne action haction) _) hrun

end Effects

/-! ## One session per sleeve -/

/-- How many live sessions trade a sleeve. -/
def liveSessions (sessions : List SessionRow) (sleeve : UUID) : ℕ :=
  sessions.countP fun s => s.sleeveId = some sleeve ∧ s.status.isLive

/-- The sleeve that a task has found free, while its row is not committed. -/
def SessionPhase.insertingSleeve : SessionPhase → Option UUID
  | .inserting _ _ sleeve _ => sleeve
  | _ => none

/-- A sleeve is checked while no other `start_session` is between its check of the sleeve and its
commit, and a pause or resume commits while the session has the status that was read. -/
def SleevesInTurn (w : SessionWorld) : SessionAction → Prop
  | .check t =>
    match w.tasks t with
    | .checking _ _ sleeve _ => ∀ t', (w.tasks t').insertingSleeve ≠ some sleeve
    | _ => True
  | .mark t =>
    match w.tasks t with
    | .marking id loaded status =>
      status.isLive = true → ∀ s ∈ w.sessions, s.id = id → s.status = loaded
    | _ => True
  | _ => True

/-- What holds of a task at a phase: the sleeve is one of the tenant, it has no live session once it
is checked, and no commit brings a session to life. -/
def PhaseKept (ids : Identities) (sessions : List SessionRow) : SessionPhase → Prop
  | .checking request _ sleeve _ => ids.sleeveTenant sleeve = request.tenantId
  | .inserting request _ (some sleeve) _ =>
    ids.sleeveTenant sleeve = request.tenantId ∧ liveSessions sessions sleeve = 0
  | .marking _ loaded status => status.isLive = true → loaded.isLive = true
  | _ => True

/-- Every sleeve has one live session at most, or one task that is about to make it. -/
structure SleevesSingle (ids : Identities) (w : SessionWorld) : Prop where
  executions : ∀ e ∈ w.executions, ids.allow e = true
  owned : ∀ s ∈ w.sessions, ∀ sleeve, s.sleeveId = some sleeve →
    ids.sleeveTenant sleeve = s.tenantId
  phases : ∀ t, PhaseKept ids w.sessions (w.tasks t)
  turns : ∀ {t t' sleeve}, (w.tasks t).insertingSleeve = some sleeve →
    (w.tasks t').insertingSleeve = some sleeve → t = t'
  single : ∀ sleeve, liveSessions w.sessions sleeve ≤ 1

section Sleeves

variable {ids : Identities} {w w' : SessionWorld}

theorem SleevesSingle.empty (ids : Identities) : SleevesSingle ids .empty where
  executions _ h := absurd h List.not_mem_nil
  owned _ h := absurd h List.not_mem_nil
  phases _ := trivial
  turns h := nomatch h
  single _ := Nat.zero_le _

theorem liveSessions_writeStatus_le {sessions : List SessionRow} {id : UUID}
    {status : ExecutionStatus}
    (h : status.isLive = true → ∀ s ∈ sessions, s.id = id → s.status.isLive = true)
    (sleeve : UUID) :
    liveSessions (writeStatus sessions id status) sleeve ≤ liveSessions sessions sleeve := by
  rw [liveSessions, liveSessions, writeStatus, List.countP_map]
  refine List.countP_mono_left fun s hs hlive => ?_
  simp only [Function.comp_apply] at hlive
  split_ifs at hlive with hid
  · simp only [Bool.decide_and, Bool.decide_eq_true, Bool.and_eq_true, decide_eq_true_eq] at hlive ⊢
    exact ⟨hlive.1, h hlive.2 s hs hid⟩
  · exact hlive

/-- A sleeve that passes the check has no live session: all its sessions are of the tenant. -/
theorem liveSessions_of_free {sessions : List SessionRow} {tenantId sleeve : UUID}
    (howned : ∀ s ∈ sessions, ∀ sleeve, s.sleeveId = some sleeve →
      ids.sleeveTenant sleeve = s.tenantId)
    (htenant : ids.sleeveTenant sleeve = tenantId)
    (hfree : ensureSleeveNotInUse sessions tenantId sleeve = .ok ()) :
    liveSessions sessions sleeve = 0 := by
  rw [ensureSleeveNotInUse] at hfree
  split at hfree
  · rename_i hnone
    refine List.countP_eq_zero.mpr fun s hs hlive => ?_
    have hactive := List.find?_eq_none.mp hnone s hs
    simp only [Bool.decide_and, Bool.decide_eq_true, Bool.and_eq_true, decide_eq_true_eq] at hlive hactive
    exact hactive ⟨(howned s hs sleeve hlive.1).symm.trans htenant, hlive⟩
  · cases hfree

/-- A resolved sleeve is one of the tenant. -/
theorem resolveLedgerIdentity_tenant {executions : List ExecutionRow} {request : StartRequest}
    {sleeve : UUID} {account : Option UUID} (hallow : ∀ e ∈ executions, ids.allow e = true)
    (h : resolveLedgerIdentity executions request = .ok (some sleeve, account)) :
    ids.sleeveTenant sleeve = request.tenantId := by
  have hfound : ∀ e ∈ executions, e.tenantId = request.tenantId → e.sleeveId = some sleeve →
      ids.sleeveTenant sleeve = request.tenantId := by
    intro e he htenant hsleeve
    have hall := hallow e he
    simp only [Identities.allow, hsleeve, Option.all_some, Bool.and_eq_true, decide_eq_true_eq] at hall
    exact hall.2.trans htenant
  rw [resolveLedgerIdentity] at h
  split at h
  · split at h
    · cases h
    · rename_i execution hfind
      split_ifs at h
      have hmatch := List.find?_some hfind
      simp only [decide_eq_true_eq] at hmatch
      simp only [Except.ok.injEq, Prod.mk.injEq] at h
      exact hfound execution (List.mem_of_find?_eq_some hfind) hmatch.1 h.1
  · split at h
    · cases h
    · rename_i execution hfilter
      have hmem : execution ∈ executions.filter fun e => e.tenantId = request.tenantId ∧
          e.strategyId = request.strategyId ∧ e.sleeveId.isSome ∧
          (e.status = .pending ∨ e.status.isLive) := by
        rw [hfilter]
        exact List.mem_singleton.mpr rfl
      obtain ⟨he, hmatch⟩ := List.mem_filter.mp hmem
      simp only [decide_eq_true_eq] at hmatch
      simp only [Except.ok.injEq, Prod.mk.injEq] at h
      exact hfound execution he hmatch.1 h.1
    · cases h

theorem SessionPhase.Plain.kept {phase : SessionPhase} (h : phase.Plain)
    (sessions : List SessionRow) : PhaseKept ids sessions phase := by
  cases phase with
  | checking => exact h.elim
  | inserting request caller sleeve account =>
    cases sleeve with
    | none => trivial
    | some sleeve => exact h.elim
  | marking id loaded status => exact h
  | _ => trivial

theorem SessionPhase.Plain.insertingSleeve {phase : SessionPhase} (h : phase.Plain) :
    phase.insertingSleeve = none := by
  cases phase with
  | inserting request caller sleeve account =>
    cases sleeve with
    | none => rfl
    | some sleeve => exact h.elim
  | _ => rfl

/-- A phase that reads a sleeve as free stays right if the sleeve does not get a session. -/
theorem PhaseKept.of_free {sessions sessions' : List SessionRow} {phase : SessionPhase}
    (h : PhaseKept ids sessions phase)
    (hfree : ∀ sleeve, phase.insertingSleeve = some sleeve → liveSessions sessions sleeve = 0 →
      liveSessions sessions' sleeve = 0) : PhaseKept ids sessions' phase := by
  cases phase with
  | inserting request caller sleeve account =>
    cases sleeve with
    | none => trivial
    | some sleeve => exact ⟨h.1, hfree sleeve rfl h.2⟩
  | checking => exact h
  | marking => exact h
  | _ => trivial

theorem SleevesSingle.free (h : SleevesSingle ids w) {t : TaskId} {sleeve : UUID}
    (ht : (w.tasks t).insertingSleeve = some sleeve) : liveSessions w.sessions sleeve = 0 := by
  have hphase := h.phases t
  cases hcase : w.tasks t with
  | inserting request caller sleeve' account =>
    rw [hcase] at ht hphase
    obtain rfl : sleeve' = some sleeve := ht
    exact hphase.2
  | _ =>
    rw [hcase] at ht
    cases ht

/-- A step of one task to a phase that holds. -/
theorem SleevesSingle.of_update (h : SleevesSingle ids w) {t : TaskId} {phase : SessionPhase}
    (hexecutions : w'.executions = w.executions)
    (howned : ∀ s ∈ w'.sessions, ∀ sleeve, s.sleeveId = some sleeve →
      ids.sleeveTenant sleeve = s.tenantId)
    (htasks : w'.tasks = Function.update w.tasks t phase)
    (hphase : PhaseKept ids w'.sessions phase)
    (hturn : ∀ sleeve, phase.insertingSleeve = some sleeve →
      ∀ t', (w.tasks t').insertingSleeve ≠ some sleeve)
    (hfree : ∀ t' ≠ t, ∀ sleeve, (w.tasks t').insertingSleeve = some sleeve →
      liveSessions w'.sessions sleeve = 0)
    (hsingle : ∀ sleeve, liveSessions w'.sessions sleeve ≤ 1) : SleevesSingle ids w' := by
  refine ⟨hexecutions ▸ h.executions, howned, fun t' => ?_, fun {t₁ t₂ sleeve} h₁ h₂ => ?_,
    hsingle⟩
  · rw [htasks]
    by_cases ht : t' = t
    · rw [ht, Function.update_self]
      exact hphase
    · rw [Function.update_of_ne ht]
      exact (h.phases t').of_free fun sleeve hsleeve _ => hfree t' ht sleeve hsleeve
  · rw [htasks] at h₁ h₂
    by_cases ht₁ : t₁ = t
    · by_cases ht₂ : t₂ = t
      · exact ht₁.trans ht₂.symm
      · rw [ht₁, Function.update_self] at h₁
        rw [Function.update_of_ne ht₂] at h₂
        exact absurd h₂ (hturn sleeve h₁ t₂)
    · rw [Function.update_of_ne ht₁] at h₁
      by_cases ht₂ : t₂ = t
      · rw [ht₂, Function.update_self] at h₂
        exact absurd h₁ (hturn sleeve h₂ t₁)
      · rw [Function.update_of_ne ht₂] at h₂
        exact h.turns h₁ h₂

/-- A step of one task to a plain phase, with sessions that come to no new life. -/
theorem SleevesSingle.of_advances (h : SleevesSingle ids w) {w₁ : SessionWorld} {t : TaskId}
    (hadvances : Advances w₁ w' t) (hexecutions : w₁.executions = w.executions)
    (htasks : w₁.tasks = w.tasks)
    (howned : ∀ s ∈ w₁.sessions, ∀ sleeve, s.sleeveId = some sleeve →
      ids.sleeveTenant sleeve = s.tenantId)
    (hfewer : ∀ sleeve, liveSessions w₁.sessions sleeve ≤ liveSessions w.sessions sleeve) :
    SleevesSingle ids w' := by
  obtain ⟨phase, hplain, hupdate⟩ := hadvances.tasks
  rw [← hadvances.sessions] at howned hfewer
  refine h.of_update (hadvances.executions.trans hexecutions) howned (htasks ▸ hupdate)
    (hplain.kept _) (fun sleeve hsleeve => ?_) (fun t' _ sleeve hsleeve => ?_)
    fun sleeve => (hfewer sleeve).trans (h.single sleeve)
  · rw [hplain.insertingSleeve] at hsleeve
    cases hsleeve
  · have hle := hfewer sleeve
    rw [h.free hsleeve] at hle
    omega

theorem owned_writeStatus {sessions : List SessionRow}
    (howned : ∀ s ∈ sessions, ∀ sleeve, s.sleeveId = some sleeve →
      ids.sleeveTenant sleeve = s.tenantId) (id : UUID) (status : ExecutionStatus) :
    ∀ s ∈ writeStatus sessions id status, ∀ sleeve, s.sleeveId = some sleeve →
      ids.sleeveTenant sleeve = s.tenantId := by
  intro s hs
  obtain ⟨old, hold, rfl⟩ := List.mem_map.mp hs
  split_ifs
  · exact howned old hold
  · exact howned old hold

theorem SleevesSingle.insert (h : SleevesSingle ids w) {t : TaskId} {request : StartRequest}
    {caller : StartCaller} {sleeve account : Option UUID} {row : SessionRow}
    (htask : w.tasks t = .inserting request caller sleeve account)
    (htenant : row.tenantId = request.tenantId) (hsleeve : row.sleeveId = sleeve)
    (hadvances : Advances { w with sessions := w.sessions ++ [row] } w' t) :
    SleevesSingle ids w' := by
  obtain ⟨phase, hplain, hupdate⟩ := hadvances.tasks
  have hphase := h.phases t
  rw [htask] at hphase
  have hcount : ∀ sleeve', sleeve ≠ some sleeve' →
      liveSessions w'.sessions sleeve' = liveSessions w.sessions sleeve' := by
    intro sleeve' hne
    rw [hadvances.sessions, liveSessions, List.countP_append, List.countP_singleton, if_neg]
    · rfl
    · simp [hsleeve, hne]
  refine h.of_update hadvances.executions (fun s hs sleeve' hsleeve' => ?_) hupdate
    (hplain.kept _) (fun sleeve' hnone => ?_) (fun t' ht' sleeve' hturn => ?_) fun sleeve' => ?_
  · rw [hadvances.sessions] at hs
    obtain hs | hs := List.mem_append.mp hs
    · exact h.owned s hs sleeve' hsleeve'
    · rw [List.mem_singleton.mp hs, hsleeve] at hsleeve'
      rw [hsleeve'] at hphase
      rw [List.mem_singleton.mp hs, htenant]
      exact hphase.1
  · rw [hplain.insertingSleeve] at hnone
    cases hnone
  · rw [hcount sleeve' fun heq => ht' (h.turns hturn (by rw [htask]; exact heq))]
    exact h.free hturn
  · by_cases heq : sleeve = some sleeve'
    · rw [heq] at hphase
      have hle : liveSessions w'.sessions sleeve' ≤ liveSessions w.sessions sleeve' + 1 := by
        rw [hadvances.sessions, liveSessions, List.countP_append]
        exact Nat.add_le_add_left List.countP_le_length _
      rwa [hphase.2] at hle
    · rw [hcount sleeve' heq]
      exact h.single sleeve'

theorem SleevesSingle.step (h : SleevesSingle ids w) {action : SessionAction}
    (hok : SleevesInTurn w action) (hstep : sessionStep ids w action = some w') :
    SleevesSingle ids w' := by
  cases sessionStep_effect hstep with
  | advanced _ hadvances => exact h.of_advances hadvances rfl rfl h.owned fun _ => le_rfl
  | funded hallow =>
    exact ⟨List.all_eq_true.mp hallow, h.owned, h.phases, h.turns, h.single⟩
  | @resolved t request caller sleeve account htask hidentity =>
    refine h.of_update rfl h.owned rfl ?_ nofun (fun _ _ _ => h.free) h.single
    exact resolveLedgerIdentity_tenant h.executions hidentity
  | @passed t request caller sleeve account htask hfree =>
    have hphase := h.phases t
    rw [htask] at hphase
    simp only [SleevesInTurn, htask] at hok
    refine h.of_update rfl h.owned rfl ⟨hphase, liveSessions_of_free h.owned hphase hfree⟩ ?_
      (fun _ _ _ => h.free) h.single
    rintro sleeve' ⟨rfl⟩
    exact hok
  | inserted htask hadvances => exact h.insert htask rfl rfl hadvances
  | failed htask hadvances =>
    exact h.of_advances hadvances rfl rfl (owned_writeStatus h.owned _ _)
      (liveSessions_writeStatus_le nofun)
  | @marked t id loaded status htask =>
    have hphase := h.phases t
    rw [htask] at hphase
    simp only [SleevesInTurn, htask] at hok
    refine h.of_advances (advances_setTask trivial) rfl rfl (owned_writeStatus h.owned id status)
      (liveSessions_writeStatus_le fun hlive s hs hid => ?_)
    rw [hok hlive s hs hid]
    exact hphase hlive
  | ran hexecutions hsessions htasks =>
    have hsame : ∀ t, (w'.tasks t).insertingSleeve ≠ none → w'.tasks t = w.tasks t :=
      fun t hne => (htasks t).resolve_right fun hidle => hne (by rw [hidle]; rfl)
    refine ⟨hexecutions ▸ h.executions, hsessions ▸ h.owned, fun t => ?_,
      fun {t t' sleeve} ht ht' => ?_, hsessions ▸ h.single⟩
    · obtain hold | hidle := htasks t
      · rw [hold, hsessions]
        exact h.phases t
      · rw [hidle]
        trivial
    · rw [hsame t (by rw [ht]; exact nofun)] at ht
      rw [hsame t' (by rw [ht']; exact nofun)] at ht'
      exact h.turns ht ht'

end Sleeves

/-- **One live session per sleeve.** In every run in which the checks of one sleeve do not overlap
and no pause or resume commits over a changed status, every sleeve is traded by one running or
paused session at most. -/
theorem sleeves_traded_once (ids : Identities) {w : SessionWorld} {actions : List SessionAction}
    (hmeets : Transition.Meets (sessionStep ids) SleevesInTurn .empty actions)
    (hrun : Transition.run (sessionStep ids) .empty actions = some w) (sleeve : UUID) :
    liveSessions w.sessions sleeve ≤ 1 :=
  (Transition.run_invariant (fun _ _ _ h hok hstep => h.step hok hstep) (SleevesSingle.empty ids)
    hmeets hrun).single sleeve

namespace Sample

def deployTenant : UUID := 1
def deployStrategy : UUID := 2
def deployExecution : UUID := 3
def deploySleeve : UUID := 4
def deployAccount : UUID := 5
def firstSession : UUID := ⟨2 ^ 64, by decide⟩
def secondSession : UUID := ⟨2 ^ 65, by decide⟩

def deployIds : Identities := ⟨fun _ => deployTenant, (· = deployExecution)⟩

/-- A funded execution. -/
def deployFunded : SessionAction :=
  .fund [⟨deployExecution, deployTenant, deployStrategy, .running, none, 0, some deployAccount,
    some deploySleeve, some deployAccount⟩]

def deployRequest : StartRequest := ⟨deployTenant, deployStrategy, some deployExecution⟩

/-- A session of the sleeve, and a second start that finds it. -/
def startedInTurn : List SessionAction :=
  [deployFunded, .start ⟨0, 0⟩ deployRequest, .resolve ⟨0, 0⟩ true, .check ⟨0, 0⟩,
    .insert ⟨0, 0⟩ firstSession true, .start ⟨1, 0⟩ deployRequest, .resolve ⟨1, 0⟩ true,
    .check ⟨1, 0⟩]

/-- Two starts that both find the sleeve free. -/
def startedTogether : List SessionAction :=
  [deployFunded, .start ⟨0, 0⟩ deployRequest, .resolve ⟨0, 0⟩ true, .start ⟨1, 0⟩ deployRequest,
    .resolve ⟨1, 0⟩ true, .check ⟨0, 0⟩, .check ⟨1, 0⟩, .insert ⟨0, 0⟩ firstSession true,
    .insert ⟨1, 0⟩ secondSession true]

end Sample

theorem sleeves_traded_once_in_turn :
    ∃ w, Transition.run (sessionStep Sample.deployIds) .empty Sample.startedInTurn = some w ∧
      w.sessions.map (·.status) = [.running] ∧
      liveSessions w.sessions Sample.deploySleeve ≤ 1 := by
  have hmeets : Transition.Meets (sessionStep Sample.deployIds) SleevesInTurn .empty
      Sample.startedInTurn := by
    have hidle : ∀ {w : SessionWorld} {n : ℕ} {t : TaskId}, t ≠ ⟨0, 0⟩ → t ≠ ⟨1, 0⟩ →
        Transition.run (sessionStep Sample.deployIds) .empty (Sample.startedInTurn.take n) =
          some w → (w.tasks t).insertingSleeve = none := by
      intro w n t hfirst hsecond hrun
      rw [idle_of_other_run (fun action haction htask => ?_) hrun]
      · rfl
      · have hnamed : ∀ a ∈ Sample.startedInTurn, a.task = none ∨ a.task = some ⟨0, 0⟩ ∨
            a.task = some ⟨1, 0⟩ := by decide
        have hcases := hnamed action (List.mem_of_mem_take haction)
        simp [htask, hfirst, hsecond] at hcases
    have hfree : ∀ {w : SessionWorld} (n : ℕ),
        Transition.run (sessionStep Sample.deployIds) .empty (Sample.startedInTurn.take n) =
          some w → (w.tasks ⟨0, 0⟩).insertingSleeve = none →
        (w.tasks ⟨1, 0⟩).insertingSleeve = none →
        ∀ t, (w.tasks t).insertingSleeve ≠ some Sample.deploySleeve := by
      intro w n hrun hfirst hsecond t
      by_cases ht : t = ⟨0, 0⟩
      · rw [ht, hfirst]
        exact nofun
      · by_cases ht' : t = ⟨1, 0⟩
        · rw [ht', hsecond]
          exact nofun
        · rw [hidle ht ht' hrun]
          exact nofun
    iterate 3 refine Transition.meets_cons rfl trivial ?_
    refine Transition.meets_cons rfl (hfree 3 rfl rfl rfl) ?_
    iterate 3 refine Transition.meets_cons rfl trivial ?_
    exact Transition.meets_cons rfl (hfree 7 rfl rfl rfl) trivial
  obtain ⟨w, hrun, hrows⟩ : ∃ w, Transition.run (sessionStep Sample.deployIds) .empty
      Sample.startedInTurn = some w ∧ w.sessions.map (·.status) = [.running] := ⟨_, rfl, rfl⟩
  exact ⟨w, hrun, hrows, sleeves_traded_once Sample.deployIds hmeets hrun Sample.deploySleeve⟩

/-- Both starts commit their rows. -/
theorem started_together_twice_live :
    ∃ w, Transition.run (sessionStep Sample.deployIds) .empty Sample.startedTogether = some w ∧
      ¬ liveSessions w.sessions Sample.deploySleeve ≤ 1 := by
  refine ⟨_, rfl, ?_⟩
  decide

end LlamaTrade
