import LlamaTrade.Notifications
import LlamaTrade.TransitionRuns

/-!
# Notification deliveries

One entry of the `notifications` stream and the members of the group that handle it
(`pipeline.py`, `delivery.py`, `alerts/matcher.py`). The handler commits the notification with its
delivery rows, then fires the tenant's alerts, then sends the deliveries. An entry that comes again
finds the notification and has nothing left to do, whatever became of the alerts and the sends.
-/

namespace LlamaTrade

/-- An envelope of the stream; `payload` is absent when the type of the event is unknown. -/
structure NotificationEnvelope where
  payload : Option NotificationEvent
  tenantId : String
  userId : String

namespace NotificationEnvelope

variable (envelope : NotificationEnvelope)

/-- The handler raises `PoisonError`. -/
def isPoison : Bool := envelope.payload.isNone || envelope.tenantId = ""

/-- The event, when the envelope names a tenant. -/
def addressed : Option NotificationEvent :=
  match envelope.payload, UUID.parse envelope.tenantId with
  | some event, .ok _ => some event
  | _, _ => none

/-- The event that the handler goes on to persist: the user is optional. -/
def handled : Option NotificationEvent :=
  match envelope.addressed, UUID.parse envelope.userId with
  | some event, .ok _ => some event
  | some event, .error _ => if envelope.userId = "" then some event else none
  | none, _ => none

end NotificationEnvelope

inductive DeliveryStatus where
  | pending
  | sent
  | failed
  deriving DecidableEq

/-- A row of `notification_deliveries`. -/
structure DeliveryRow where
  channel : ChannelType
  destination : String
  status : DeliveryStatus
  attempts : ℕ

/-- `_mark_in`. -/
def DeliveryRow.mark (row : DeliveryRow) (ok : Bool) : DeliveryRow :=
  { row with attempts := row.attempts + 1, status := if ok then .sent else .failed }

/-- Where a member is with the entry. After the commit it holds the places of the deliveries that it
has still to send, and the alerts that it has still to fire. -/
inductive HandlerPhase where
  | idle
  | handling
  | matching (pending : List ℕ)
  | working (alerts : List UUID) (pending : List ℕ)
  | acking
  -- `_dead_letter`
  | parking

namespace HandlerPhase

def pending : HandlerPhase → List ℕ
  | matching pending => pending
  | working _ pending => pending
  | _ => []

def alerts : HandlerPhase → List UUID
  | working alerts _ => alerts
  | _ => []

def isMatching : HandlerPhase → Bool
  | matching _ => true
  | _ => false

/-- The handler has committed, or has found the notification. -/
def hasCommitted : HandlerPhase → Bool
  | matching _ => true
  | working _ _ => true
  | acking => true
  | _ => false

/-- The handler has committed and has work left. -/
def hasWork : HandlerPhase → Bool
  | matching _ => true
  | working alerts pending => !alerts.isEmpty || !pending.isEmpty
  | _ => false

end HandlerPhase

structure NotificationWorld where
  persisted : Bool
  deliveries : List DeliveryRow
  /-- The alerts that the handler has found, once it has looked. -/
  matched : Option (List UUID)
  /-- The alerts of which `trigger_alert` has returned. -/
  triggered : List UUID
  acked : Bool
  /-- `_attempts` of the entry, in the memory of each member. -/
  failures : ℕ → ℕ
  tasks : ℕ → HandlerPhase

inductive NotificationAction where
  | deliver (t : ℕ)
  | poison (t : ℕ)
  /-- The transaction of `persist_and_plan`, which finds the tenant so. -/
  | persist (t : ℕ) (tenant : TenantContacts)
  /-- The tenant's alerts are read. -/
  | matchAlerts (t : ℕ) (alerts : List EventAlert)
  | trigger (t : ℕ)
  /-- One delivery of `dispatch`; `none` when an exception is swallowed before the attempt is
  committed. -/
  | dispatch (t : ℕ) (outcome : Option Bool)
  | finish (t : ℕ)
  | raise (t : ℕ)
  | ack (t : ℕ)
  | deadLetter (t : ℕ)
  /-- A member that has left the entry un-acked acknowledges a later one. -/
  | passOver (t : ℕ)
  | crash (t : ℕ)

namespace NotificationWorld

variable (w : NotificationWorld)

def fresh : NotificationWorld := ⟨false, [], none, [], false, fun _ => 0, fun _ => .idle⟩

def setTask (t : ℕ) (phase : HandlerPhase) : NotificationWorld :=
  { w with tasks := Function.update w.tasks t phase }

def setFailures (t n : ℕ) : NotificationWorld :=
  { w with failures := Function.update w.failures t n }

/-- The group's offset moves past the entry. -/
def acknowledge (t : ℕ) : NotificationWorld :=
  { (w.setTask t .idle).setFailures t 0 with acked := true }

/-- The rows of a plan. -/
def plan (tenant : TenantContacts) (event : NotificationEvent) : List DeliveryRow :=
  (tenant.destinations event none).map fun target => ⟨target.1, target.2, .pending, 0⟩

/-- `persist_and_plan` and the commit. A category without event alerts has none to look for. -/
def persist (t : ℕ) (tenant : TenantContacts) (event : NotificationEvent) : NotificationWorld :=
  if w.persisted then w.setTask t .acking
  else
    let rows := plan tenant event
    let pending := List.range rows.length
    match conditionsByCategory event.category with
    | some _ => { w.setTask t (.matching pending) with persisted := true, deliveries := rows }
    | none =>
      { w.setTask t (.working [] pending) with
        persisted := true, deliveries := rows, matched := some [] }

/-- The alerts that the handler has found were all fired. -/
def alertsEvaluated : Bool :=
  w.matched.any fun alerts => alerts.all fun alert => alert ∈ w.triggered

end NotificationWorld

/-- `BoundedRetry`. -/
def maxDeliveries : ℕ := 5

/-- One step of the system; `none` when it is not enabled. -/
def notificationStep (envelope : NotificationEnvelope) (w : NotificationWorld) :
    NotificationAction → Option NotificationWorld
  | .deliver t =>
    match w.tasks t with
    | .idle => some (w.setTask t .handling)
    | _ => none
  | .poison t =>
    match w.tasks t, envelope.isPoison with
    | .handling, true => some (w.setTask t .parking)
    | _, _ => none
  | .persist t tenant =>
    match w.tasks t, envelope.handled with
    | .handling, some event => some (w.persist t tenant event)
    | _, _ => none
  | .matchAlerts t alerts =>
    match w.tasks t, envelope.handled with
    | .matching pending, some event =>
      some { w.setTask t (.working (matchingAlerts alerts event) pending) with
        matched := some (matchingAlerts alerts event) }
    | _, _ => none
  | .trigger t =>
    match w.tasks t with
    | .working (alert :: alerts) pending =>
      some { w.setTask t (.working alerts pending) with triggered := alert :: w.triggered }
    | _ => none
  | .dispatch t outcome =>
    match w.tasks t with
    | .working [] (i :: pending) =>
      match outcome with
      | some ok =>
        some { w.setTask t (.working [] pending) with
          deliveries := w.deliveries.modify i (·.mark ok) }
      | none => some (w.setTask t (.working [] pending))
    | _ => none
  | .finish t =>
    match w.tasks t with
    | .working [] [] => some (w.setTask t .acking)
    | _ => none
  | .raise t =>
    -- the deliveries never raise
    match w.tasks t with
    | .handling | .matching _ | .working (_ :: _) _ =>
      if maxDeliveries ≤ w.failures t + 1 then
        some ((w.setTask t .parking).setFailures t (w.failures t + 1))
      else some ((w.setTask t .idle).setFailures t (w.failures t + 1))
    | _ => none
  | .ack t =>
    match w.tasks t with
    | .acking => some (w.acknowledge t)
    | _ => none
  | .deadLetter t =>
    match w.tasks t with
    | .parking => some (w.acknowledge t)
    | _ => none
  | .passOver t =>
    match w.tasks t with
    | .idle => if 0 < w.failures t then some { w with acked := true } else none
    | _ => none
  | .crash t => some ((w.setTask t .idle).setFailures t 0)

/-! ## Attempts and alerts -/

/-- A handler that has committed is neither stopped nor raises while it has work left, every attempt
is recorded, and no entry of a tenant is given up or passed over before it is persisted. -/
def finishesDeliveries (envelope : NotificationEnvelope) (w : NotificationWorld) :
    NotificationAction → Bool
  | .dispatch _ outcome => outcome.isSome
  | .raise t => !(w.tasks t).hasWork
  | .deadLetter _ => w.persisted || envelope.addressed.isNone
  | .passOver _ => w.persisted || envelope.addressed.isNone
  | .crash t => !(w.tasks t).hasWork
  | _ => true

/-- A delivery that was not attempted is held by a handler, and so is the look for alerts or an alert
that was not fired. -/
structure DeliveriesHeld (envelope : NotificationEnvelope) (w : NotificationWorld) : Prop where
  committed : ∀ t, (w.tasks t).hasCommitted = true → w.persisted = true
  acked : w.acked = true → w.persisted = true ∨ envelope.addressed = none
  rows : ∀ i row, w.deliveries[i]? = some row → row.attempts = 0 →
    ∃ t, i ∈ (w.tasks t).pending
  alerts : w.persisted = true → (∃ t, (w.tasks t).isMatching = true) ∨
    ∃ alerts, w.matched = some alerts ∧
      ∀ alert ∈ alerts, alert ∈ w.triggered ∨ ∃ t, alert ∈ (w.tasks t).alerts

section Held

variable {envelope : NotificationEnvelope} {w w' : NotificationWorld} {action : NotificationAction}
  {t : ℕ} {phase : HandlerPhase}

/-- What one of the members has, one still has when a member goes on without giving it up. -/
theorem exists_task_update {tasks : ℕ → HandlerPhase} {P : HandlerPhase → Prop}
    (h : ∃ t', P (tasks t')) (hkeeps : P (tasks t) → P phase) :
    ∃ t', P (Function.update tasks t phase t') := by
  obtain ⟨t', ht'⟩ := h
  by_cases htask : t' = t
  · subst htask
    exact ⟨t', by rw [Function.update_self]; exact hkeeps ht'⟩
  · exact ⟨t', by rwa [Function.update_of_ne htask]⟩

theorem pending_of_not_hasWork (h : phase.hasWork = false) : phase.pending = [] := by
  cases phase <;> simp_all [HandlerPhase.hasWork, HandlerPhase.pending]

theorem alerts_of_not_hasWork (h : phase.hasWork = false) : phase.alerts = [] := by
  cases phase <;> simp_all [HandlerPhase.hasWork, HandlerPhase.alerts]

theorem isMatching_of_not_hasWork (h : phase.hasWork = false) : phase.isMatching = false := by
  cases phase <;> simp_all [HandlerPhase.hasWork, HandlerPhase.isMatching]

namespace DeliveriesHeld

theorem hasCommitted_update (h : DeliveriesHeld envelope w)
    (hphase : phase.hasCommitted = true → w.persisted = true) (t' : ℕ)
    (ht' : (Function.update w.tasks t phase t').hasCommitted = true) : w.persisted = true := by
  by_cases htask : t' = t
  · subst htask
    rw [Function.update_self] at ht'
    exact hphase ht'
  · rw [Function.update_of_ne htask] at ht'
    exact h.committed t' ht'

/-- A member without work goes on. -/
theorem setTask (h : DeliveriesHeld envelope w) (hwork : (w.tasks t).hasWork = false)
    (hphase : phase.hasCommitted = true → w.persisted = true) :
    DeliveriesHeld envelope (w.setTask t phase) where
  committed := h.hasCommitted_update hphase
  acked := h.acked
  rows i row hrow hattempts := by
    refine exists_task_update (P := fun phase => i ∈ phase.pending) (h.rows i row hrow hattempts) ?_
    rw [pending_of_not_hasWork hwork]
    nofun
  alerts hpersisted := by
    rcases h.alerts hpersisted with hmatching | ⟨alerts, hmatched, hall⟩
    · refine .inl (exists_task_update (P := fun phase => phase.isMatching = true) hmatching ?_)
      rw [isMatching_of_not_hasWork hwork]
      nofun
    · refine .inr ⟨alerts, hmatched, fun alert halert => (hall alert halert).imp_right fun hheld => ?_⟩
      refine exists_task_update (P := fun phase => alert ∈ phase.alerts) hheld ?_
      rw [alerts_of_not_hasWork hwork]
      nofun

theorem setFailures (h : DeliveriesHeld envelope w) (n : ℕ) :
    DeliveriesHeld envelope (w.setFailures t n) :=
  ⟨h.committed, h.acked, h.rows, h.alerts⟩

theorem setAcked (h : DeliveriesHeld envelope w)
    (hacked : w.persisted = true ∨ envelope.addressed = none) :
    DeliveriesHeld envelope { w with acked := true } :=
  ⟨h.committed, fun _ => hacked, h.rows, h.alerts⟩

theorem acknowledge (h : DeliveriesHeld envelope w) (hwork : (w.tasks t).hasWork = false)
    (hacked : w.persisted = true ∨ envelope.addressed = none) :
    DeliveriesHeld envelope (w.acknowledge t) := by
  have hidle : DeliveriesHeld envelope (w.setTask t .idle) := h.setTask hwork nofun
  exact (hidle.setFailures 0).setAcked hacked

theorem fresh : DeliveriesHeld envelope NotificationWorld.fresh where
  committed := nofun
  acked := nofun
  rows := nofun
  alerts := nofun

/-- The commit hands every row of the plan to the member that made it. -/
theorem persist (h : DeliveriesHeld envelope w) (htask : w.tasks t = .handling)
    (tenant : TenantContacts) (event : NotificationEvent) :
    DeliveriesHeld envelope (w.persist t tenant event) := by
  unfold NotificationWorld.persist
  split
  next hpersisted =>
    exact h.setTask (by rw [htask]; rfl) fun _ => hpersisted
  next =>
    have hheld : ∀ (i : ℕ) (row : DeliveryRow),
        (NotificationWorld.plan tenant event)[i]? = some row →
        i ∈ List.range (NotificationWorld.plan tenant event).length := by
      intro i row hrow
      exact List.mem_range.mpr (List.getElem?_eq_some_iff.mp hrow).1
    dsimp only
    split
    next =>
      refine ⟨fun _ _ => rfl, fun _ => .inl rfl, fun i row hrow _ => ⟨t, ?_⟩, fun _ => .inl ⟨t, ?_⟩⟩
      · simpa [NotificationWorld.setTask, HandlerPhase.pending] using hheld i row hrow
      · simp [NotificationWorld.setTask, HandlerPhase.isMatching]
    next =>
      refine ⟨fun _ _ => rfl, fun _ => .inl rfl, fun i row hrow _ => ⟨t, ?_⟩,
        fun _ => .inr ⟨[], rfl, nofun⟩⟩
      simpa [NotificationWorld.setTask, HandlerPhase.pending] using hheld i row hrow

/-- The alerts that were found are held until they are fired. -/
theorem matchAlerts (h : DeliveriesHeld envelope w) {pending : List ℕ}
    (htask : w.tasks t = .matching pending) (alerts : List UUID) :
    DeliveriesHeld envelope
      { w.setTask t (.working alerts pending) with matched := some alerts } where
  committed := h.hasCommitted_update fun _ => h.committed t (by rw [htask]; rfl)
  acked := h.acked
  rows i row hrow hattempts := by
    refine exists_task_update (P := fun phase => i ∈ phase.pending) (h.rows i row hrow hattempts) ?_
    rw [htask]
    exact id
  alerts _ := by
    refine .inr ⟨alerts, rfl, fun alert halert => .inr ⟨t, ?_⟩⟩
    show alert ∈ (Function.update w.tasks t (HandlerPhase.working alerts pending) t).alerts
    rwa [Function.update_self]

theorem trigger (h : DeliveriesHeld envelope w) {alert : UUID} {alerts : List UUID}
    {pending : List ℕ} (htask : w.tasks t = .working (alert :: alerts) pending) :
    DeliveriesHeld envelope
      { w.setTask t (.working alerts pending) with triggered := alert :: w.triggered } where
  committed := h.hasCommitted_update fun _ => h.committed t (by rw [htask]; rfl)
  acked := h.acked
  rows i row hrow hattempts := by
    refine exists_task_update (P := fun phase => i ∈ phase.pending) (h.rows i row hrow hattempts) ?_
    rw [htask]
    exact id
  alerts hpersisted := by
    rcases h.alerts hpersisted with hmatching | ⟨found, hmatched, hall⟩
    · refine .inl (exists_task_update (P := fun phase => phase.isMatching = true) hmatching ?_)
      rw [htask]
      nofun
    · refine .inr ⟨found, hmatched, fun other hother => ?_⟩
      by_cases heq : other = alert
      · exact .inl (List.mem_cons.mpr (.inl heq))
      · refine (hall other hother).imp (List.mem_cons_of_mem alert) fun hheld => ?_
        refine exists_task_update (P := fun phase => other ∈ phase.alerts) hheld fun hmem => ?_
        rw [htask] at hmem
        exact (List.mem_cons.mp hmem).resolve_left heq

/-- A delivery is given up with its attempt on record. -/
theorem dispatch (h : DeliveriesHeld envelope w) {i : ℕ} {pending : List ℕ}
    (htask : w.tasks t = .working [] (i :: pending)) (ok : Bool) :
    DeliveriesHeld envelope
      { w.setTask t (.working [] pending) with
        deliveries := w.deliveries.modify i (·.mark ok) } where
  committed := h.hasCommitted_update fun _ => h.committed t (by rw [htask]; rfl)
  acked := h.acked
  rows j row hrow hattempts := by
    rw [List.getElem?_modify] at hrow
    split at hrow
    next hij =>
      obtain ⟨old, -, rfl⟩ := Option.map_eq_some_iff.mp hrow
      cases hattempts
    next hij =>
      refine exists_task_update (P := fun phase => j ∈ phase.pending) (h.rows j row (by simpa using hrow) hattempts)
        fun hmem => ?_
      rw [htask] at hmem
      exact (List.mem_cons.mp hmem).resolve_left (Ne.symm hij)
  alerts hpersisted := by
    rcases h.alerts hpersisted with hmatching | ⟨found, hmatched, hall⟩
    · refine .inl (exists_task_update (P := fun phase => phase.isMatching = true) hmatching ?_)
      rw [htask]
      nofun
    · refine .inr ⟨found, hmatched, fun alert halert => (hall alert halert).imp_right fun hheld => ?_⟩
      refine exists_task_update (P := fun phase => alert ∈ phase.alerts) hheld ?_
      rw [htask]
      nofun

theorem step (h : DeliveriesHeld envelope w) (hok : finishesDeliveries envelope w action = true)
    (hstep : notificationStep envelope w action = some w') : DeliveriesHeld envelope w' := by
  cases action with
  | deliver t =>
    simp only [notificationStep] at hstep
    split at hstep <;> cases hstep
    next htask => exact h.setTask (by rw [htask]; rfl) nofun
  | poison t =>
    simp only [notificationStep] at hstep
    split at hstep <;> cases hstep
    next htask _ => exact h.setTask (by rw [htask]; rfl) nofun
  | persist t tenant =>
    simp only [notificationStep] at hstep
    split at hstep <;> cases hstep
    next event htask _ => exact h.persist htask tenant event
  | matchAlerts t alerts =>
    simp only [notificationStep] at hstep
    split at hstep <;> cases hstep
    next htask _ => exact h.matchAlerts htask _
  | trigger t =>
    simp only [notificationStep] at hstep
    split at hstep <;> cases hstep
    next htask => exact h.trigger htask
  | dispatch t outcome =>
    obtain ⟨ok, rfl⟩ := Option.isSome_iff_exists.mp hok
    simp only [notificationStep] at hstep
    split at hstep <;> cases hstep
    next htask => exact h.dispatch htask ok
  | finish t =>
    simp only [notificationStep] at hstep
    split at hstep <;> cases hstep
    next htask => exact h.setTask (by rw [htask]; rfl) fun _ => h.committed t (by rw [htask]; rfl)
  | raise t =>
    have hwork : (w.tasks t).hasWork = false := by simpa [finishesDeliveries] using hok
    have hleave : ∀ phase : HandlerPhase, phase.hasCommitted = false →
        DeliveriesHeld envelope (w.setTask t phase) := by
      intro phase hphase
      exact h.setTask hwork fun hcommitted => by rw [hphase] at hcommitted; cases hcommitted
    simp only [notificationStep] at hstep
    split at hstep
    all_goals first
      | cases hstep
      | (split at hstep <;> cases hstep
         · exact (hleave .parking rfl).setFailures _
         · exact (hleave .idle rfl).setFailures _)
  | ack t =>
    simp only [notificationStep] at hstep
    split at hstep <;> cases hstep
    next htask =>
      exact h.acknowledge (by rw [htask]; rfl) (.inl (h.committed t (by rw [htask]; rfl)))
  | deadLetter t =>
    simp only [notificationStep] at hstep
    split at hstep <;> cases hstep
    next htask =>
      exact h.acknowledge (by rw [htask]; rfl) (by simpa [finishesDeliveries] using hok)
  | passOver t =>
    simp only [notificationStep] at hstep
    split at hstep
    · split at hstep <;> cases hstep
      exact h.setAcked (by simpa [finishesDeliveries] using hok)
    · cases hstep
  | crash t =>
    have hwork : (w.tasks t).hasWork = false := by simpa [finishesDeliveries] using hok
    simp only [notificationStep] at hstep
    cases hstep
    have hidle : DeliveriesHeld envelope (w.setTask t .idle) := h.setTask hwork nofun
    exact hidle.setFailures 0

end DeliveriesHeld

end Held

/-- Once the entry is acknowledged and no member handles it, every delivery of its plan was attempted
and the alerts of the tenant were evaluated. -/
theorem deliveries_attempted {envelope : NotificationEnvelope} {actions : List NotificationAction}
    {w : NotificationWorld}
    (hmeets : Transition.Meets (notificationStep envelope)
      (fun w action => finishesDeliveries envelope w action = true) .fresh actions)
    (hrun : Transition.run (notificationStep envelope) .fresh actions = some w)
    (hacked : w.acked = true) (hidle : ∀ t, w.tasks t = .idle) :
    (∀ row ∈ w.deliveries, 1 ≤ row.attempts) ∧
      (envelope.addressed.isSome = true → w.alertsEvaluated = true) := by
  have hheld : DeliveriesHeld envelope w :=
    Transition.run_invariant (fun _ _ _ h hok hstep => h.step hok hstep) .fresh hmeets hrun
  constructor
  · intro row hrow
    obtain ⟨i, hi⟩ := List.mem_iff_getElem?.mp hrow
    by_contra hnone
    obtain ⟨t, ht⟩ := hheld.rows i row hi (by omega)
    rw [hidle t] at ht
    cases ht
  · intro haddressed
    have hpersisted : w.persisted = true := by
      refine (hheld.acked hacked).resolve_right fun hnone => ?_
      rw [hnone] at haddressed
      cases haddressed
    rcases hheld.alerts hpersisted with ⟨t, ht⟩ | ⟨alerts, hmatched, hall⟩
    · rw [hidle t] at ht
      cases ht
    · rw [NotificationWorld.alertsEvaluated, hmatched, Option.any_some, List.all_eq_true]
      intro alert halert
      refine decide_eq_true ((hall alert halert).resolve_right ?_)
      rintro ⟨t, ht⟩
      rw [hidle t] at ht
      cases ht

/-- A critical event of a tenant. -/
def frozenEnvelope : NotificationEnvelope :=
  ⟨some ⟨.sleeveFrozen, .critical, "SPY", "", "", "drift"⟩, "00000000000000000000000000000001", ""⟩

/-- A tenant with one user and one alert on frozen sleeves. -/
def singleUser : TenantContacts := ⟨[], [], ["user@example.com"]⟩

def frozenAlert : EventAlert := ⟨7, .sleeveFrozen, .active, "", ""⟩

/-- The handler commits, fires the alert, sends the email and acknowledges. -/
def handledOnce : List NotificationAction :=
  [.deliver 0, .persist 0 singleUser, .matchAlerts 0 [frozenAlert], .trigger 0, .dispatch 0 (some true),
    .finish 0, .ack 0]

/-- The member is lost after the commit, and the entry comes again. -/
def lostAfterCommit : List NotificationAction :=
  [.deliver 0, .persist 0 singleUser, .crash 0, .deliver 0, .persist 0 singleUser, .ack 0]

theorem deliveries_attempted_handled_once :
    ∃ w, Transition.run (notificationStep frozenEnvelope) .fresh handledOnce = some w ∧
      w.deliveries ≠ [] ∧ (∀ row ∈ w.deliveries, 1 ≤ row.attempts) ∧ w.alertsEvaluated = true := by
  obtain ⟨w, hrun, hacked, hrows, hidle⟩ :
      ∃ w, Transition.run (notificationStep frozenEnvelope) .fresh handledOnce = some w ∧
        w.acked = true ∧ w.deliveries ≠ [] ∧ ∀ t, w.tasks t = .idle := by
    refine ⟨_, rfl, rfl, nofun, fun t => ?_⟩
    cases t <;> rfl
  obtain ⟨hattempts, halerts⟩ :=
    deliveries_attempted (by decide) hrun hacked hidle
  exact ⟨w, hrun, hrows, hattempts, halerts (by decide)⟩

/-- The email is never tried, and no alert is looked for. -/
theorem planned_delivery_never_attempted :
    ∃ w, Transition.run (notificationStep frozenEnvelope) .fresh lostAfterCommit = some w ∧
      w.acked = true ∧ (∀ t, w.tasks t = .idle) ∧
      w.deliveries.map (·.attempts) = [0] ∧ w.matched = none := by
  refine ⟨_, rfl, rfl, fun t => ?_, rfl, rfl⟩
  cases t <;> rfl

end LlamaTrade
