import LlamaTrade.EventAlerts
import Mathlib.Data.Int.Order.Basic

/-!
# Alert triggers at the same time

`trigger_alert` (`alerts/engine.py`) as several transactions of the database: the clock is read,
the row of the alert is locked and checked again, the notification is inserted under its unique
event id, and the count and the time are committed. Evaluators of the market loop, event matchers
and the leaders of several processes are tasks; each reads a clock of its own, and at any moment a
task may fail and its transaction be rolled back.
-/

namespace LlamaTrade

/-- Where a task waits. -/
inductive TriggerPhase where
  | idle
  -- an alert was found for a bar or an event, and `trigger_alert` is about to be called
  | found (alert : UUID) (bucket : String)
  -- the clock was read; waits for the row
  | clocked (alert : UUID) (bucket : String) (now : ℤ)
  -- holds the row as it was loaded; `inserted` says that the notification is inserted
  | working (row : AlertRow) (bucket : String) (now : ℤ) (inserted : Bool)

/-- A row of `notifications`, with the alert and the bucket that it is about. -/
structure PersistedNotice where
  eventId : String
  origin : Option (UUID × String)

/-- A committed trigger: the cooldown of the alert and the new `last_triggered_at`. -/
structure CommittedTrigger where
  alert : UUID
  cooldownMinutes : ℤ
  triggeredAt : ℤ

/-- The database and the tasks. -/
structure TriggerWorld where
  rows : UUID → Option AlertRow
  /-- The ids that `uuid4` has drawn. -/
  created : UUID → Bool
  notifications : List PersistedNotice
  /-- The task that has locked a row. -/
  locks : UUID → Option ℕ
  /-- The task whose insert of an event id is not committed. -/
  inserting : String → Option ℕ
  tasks : ℕ → TriggerPhase
  /-- The committed triggers, newest first. -/
  triggers : List CommittedTrigger

inductive TriggerAction where
  | createAlert (alert : EventAlert) (expiresAt : Option ℤ) (cooldownMinutes : ℤ)
  | toggleAlert (alert : UUID) (isActive : Bool)
  | deleteAlert (alert : UUID)
  /-- Another notification is persisted. -/
  | persistOther (eventId : String)
  /-- An evaluator finds the alert live and its condition met by the bar. -/
  | evaluate (task : ℕ) (alert : UUID) (bucket : String) (now : ℤ)
  /-- A matcher finds the alert active for an event. -/
  | matchEvent (task : ℕ) (alert : UUID) (bucket : String)
  | readClock (task : ℕ) (now : ℤ)
  | lockRow (task : ℕ)
  | insertNotification (task : ℕ)
  | commit (task : ℕ)
  | fail (task : ℕ)

namespace TriggerWorld

variable (hexdigest : String → String)

def start : TriggerWorld where
  rows _ := none
  created _ := false
  notifications := []
  locks _ := none
  inserting _ := none
  tasks _ := .idle
  triggers := []

def setTask (w : TriggerWorld) (task : ℕ) (phase : TriggerPhase) : TriggerWorld :=
  { w with tasks := Function.update w.tasks task phase }

def setRow (w : TriggerWorld) (alert : UUID) (row : Option AlertRow) : TriggerWorld :=
  { w with rows := Function.update w.rows alert row }

/-- The transaction of the task is over: its locks are free. -/
def release (w : TriggerWorld) (task : ℕ) : TriggerWorld :=
  { w with
    locks := fun alert => if w.locks alert = some task then none else w.locks alert
    inserting := fun eventId => if w.inserting eventId = some task then none else w.inserting eventId
    tasks := Function.update w.tasks task .idle }

def hasEvent (w : TriggerWorld) (eventId : String) : Bool :=
  w.notifications.any fun notice => notice.eventId = eventId

/-- `derive_event_id` of an alert and a bucket. -/
def alertEventId (alert : UUID) (bucket : String) : String := hexdigest (alertText alert bucket)

/-- `create_alert`. -/
def createAlert (w : TriggerWorld) (alert : EventAlert) (expiresAt : Option ℤ)
    (cooldownMinutes : ℤ) : Option TriggerWorld :=
  if w.created alert.id then none
  else
    let cooldown := if cooldownMinutes = 0 then 60 else cooldownMinutes
    let row : AlertRow := ⟨{ alert with status := .active }, expiresAt, none, cooldown, 0⟩
    some { w.setRow alert.id (some row) with created := Function.update w.created alert.id true }

/-- `toggle_alert`: the update waits for the lock of the row. -/
def toggleAlert (w : TriggerWorld) (alert : UUID) (isActive : Bool) : Option TriggerWorld :=
  match w.rows alert, w.locks alert with
  | some row, none =>
    some (w.setRow alert (some { row with status := if isActive then .active else .disabled }))
  | _, _ => none

/-- `delete_alert`. -/
def deleteAlert (w : TriggerWorld) (alert : UUID) : Option TriggerWorld :=
  if (w.locks alert).isSome then none else some (w.setRow alert none)

def persistOther (w : TriggerWorld) (eventId : String) : Option TriggerWorld :=
  if (w.inserting eventId).isSome then none
  else if w.hasEvent eventId then some w
  else some { w with notifications := ⟨eventId, none⟩ :: w.notifications }

/-- `with_for_update` and the check of the loaded row. -/
def lockRow (w : TriggerWorld) (task : ℕ) : Option TriggerWorld :=
  match w.tasks task with
  | .clocked alert bucket now =>
    if (w.locks alert).isSome then none
    else
      match w.rows alert with
      | some row =>
        if row.isLive now then
          some { w.setTask task (.working row bucket now false) with
            locks := Function.update w.locks alert (some task) }
        else some (w.release task)
      | none => some (w.release task)
  | _ => none

/-- The insert of `persist_and_plan`: it waits for another insert of the same id, and a conflict
ends the transaction. -/
def insertNotification (w : TriggerWorld) (task : ℕ) : Option TriggerWorld :=
  match w.tasks task with
  | .working row bucket now false =>
    let eventId := alertEventId hexdigest row.id bucket
    if (w.inserting eventId).isSome then none
    else if w.hasEvent eventId then some (w.release task)
    else
      some { w.setTask task (.working row bucket now true) with
        inserting := Function.update w.inserting eventId (some task) }
  | _ => none

/-- The count and the time are written from the loaded row and committed. -/
def commit (w : TriggerWorld) (task : ℕ) : Option TriggerWorld :=
  match w.tasks task with
  | .working row bucket now true =>
    let updated := (w.rows row.id).map fun current =>
      { current with lastTriggeredAt := some now, triggerCount := row.triggerCount + 1 }
    some { (w.setRow row.id updated).release task with
      notifications :=
        ⟨alertEventId hexdigest row.id bucket, some (row.id, bucket)⟩ :: w.notifications
      triggers := ⟨row.id, row.cooldownMinutes, now⟩ :: w.triggers }
  | _ => none

def step (w : TriggerWorld) : TriggerAction → Option TriggerWorld
  | .createAlert alert expiresAt cooldownMinutes => w.createAlert alert expiresAt cooldownMinutes
  | .toggleAlert alert isActive => w.toggleAlert alert isActive
  | .deleteAlert alert => w.deleteAlert alert
  | .persistOther eventId => w.persistOther eventId
  | .evaluate task alert bucket now =>
    match w.tasks task, w.rows alert with
    | .idle, some row => if row.isLive now then some (w.setTask task (.found alert bucket)) else none
    | _, _ => none
  | .matchEvent task alert bucket =>
    match w.tasks task, w.rows alert with
    | .idle, some row =>
      if row.status = .active then some (w.setTask task (.found alert bucket)) else none
    | _, _ => none
  | .readClock task now =>
    match w.tasks task with
    | .found alert bucket => some (w.setTask task (.clocked alert bucket now))
    | _ => none
  | .lockRow task => w.lockRow task
  | .insertNotification task => w.insertNotification hexdigest task
  | .commit task => w.commit hexdigest task
  | .fail task => some (w.release task)

/-! ## What the transactions hold -/

/-- The notification is about the alert. -/
def isAbout (alert : UUID) (notice : PersistedNotice) : Bool :=
  notice.origin.any fun origin => origin.1 = alert

/-- The times of two triggers of one alert are a cooldown apart, forwards. -/
def Apart (later earlier : CommittedTrigger) : Prop :=
  later.alert = earlier.alert → 0 ≤ later.cooldownMinutes →
    earlier.triggeredAt + later.cooldownMinutes * 60000000 ≤ later.triggeredAt

section Records

variable (rows : UUID → Option AlertRow) (created : UUID → Bool)
  (notifications : List PersistedNotice) (triggers : List CommittedTrigger)

/-- A row agrees with the triggers and the notifications of its alert. -/
structure RowAgrees (alert : UUID) (row : AlertRow) : Prop where
  id : row.id = alert
  created : created alert
  count : row.triggerCount = notifications.countP (isAbout alert)
  recent : ∀ x ∈ triggers, x.alert = alert → x.cooldownMinutes = row.cooldownMinutes ∧
    ∃ last ∈ row.lastTriggeredAt, 0 ≤ row.cooldownMinutes → x.triggeredAt ≤ last

/-- What is committed fits together. -/
structure Recorded : Prop where
  rows : ∀ alert row, rows alert = some row → RowAgrees created notifications triggers alert row
  uncreated : ∀ alert, created alert = false →
    notifications.countP (isAbout alert) = 0 ∧ ∀ x ∈ triggers, x.alert ≠ alert
  eventIds : (notifications.map (·.eventId)).Nodup
  origins : ∀ notice ∈ notifications, ∀ origin ∈ notice.origin,
    notice.eventId = alertEventId hexdigest origin.1 origin.2
  apart : triggers.Pairwise Apart

end Records

/-- A task that works on a row has it locked as it is, and what it inserted is not there yet. -/
structure Invariant (w : TriggerWorld) : Prop where
  working : ∀ task row bucket now inserted, w.tasks task = .working row bucket now inserted →
    w.locks row.id = some task ∧ w.rows row.id = some row ∧ row.isLive now
  inserted : ∀ task row bucket now, w.tasks task = .working row bucket now true →
    w.inserting (alertEventId hexdigest row.id bucket) = some task ∧
      w.hasEvent (alertEventId hexdigest row.id bucket) = false
  recorded : Recorded hexdigest w.rows w.created w.notifications w.triggers

theorem invariant_start : Invariant hexdigest start where
  working _ _ _ _ _ h := nomatch h
  inserted _ _ _ _ h := nomatch h
  recorded :=
    { rows := fun _ _ h => nomatch h
      uncreated := fun _ _ => ⟨rfl, fun _ h => nomatch h⟩
      eventIds := List.nodup_nil
      origins := fun _ h => nomatch h
      apart := .nil }

section Steps

variable {hexdigest} {w w' : TriggerWorld} {task : ℕ}

theorem setTask_tasks (phase : TriggerPhase) :
    (w.setTask task phase).tasks = Function.update w.tasks task phase := rfl

theorem release_tasks : (w.release task).tasks = Function.update w.tasks task .idle := rfl

/-- A task that does not come to work on a row may do as it likes. -/
theorem Invariant.setTask (h : Invariant hexdigest w) {phase : TriggerPhase}
    (hphase : ∀ row bucket now inserted, phase ≠ .working row bucket now inserted) :
    Invariant hexdigest (w.setTask task phase) := by
  have hother : ∀ t row bucket now inserted,
      (w.setTask task phase).tasks t = .working row bucket now inserted →
        w.tasks t = .working row bucket now inserted := by
    intro t row bucket now inserted ht
    by_cases heq : t = task
    · subst heq
      rw [setTask_tasks, Function.update_self] at ht
      exact absurd ht (hphase row bucket now inserted)
    · rwa [setTask_tasks, Function.update_of_ne heq] at ht
  exact ⟨fun t row bucket now inserted ht => h.working t _ _ _ _ (hother _ _ _ _ _ ht),
    fun t row bucket now ht => h.inserted t _ _ _ (hother _ _ _ _ _ ht), h.recorded⟩

/-- A task that is still at work after another one has ended. -/
theorem tasks_release {t : ℕ} {row : AlertRow} {bucket : String} {now : ℤ} {inserted : Bool}
    (ht : (w.release task).tasks t = .working row bucket now inserted) :
    t ≠ task ∧ w.tasks t = .working row bucket now inserted := by
  by_cases heq : t = task
  · subst heq
    rw [release_tasks, Function.update_self] at ht
    cases ht
  · rw [release_tasks, Function.update_of_ne heq] at ht
    exact ⟨heq, ht⟩

theorem locks_release {t : ℕ} {alert : UUID} (hne : t ≠ task) (h : w.locks alert = some t) :
    (w.release task).locks alert = some t := by
  have hother : w.locks alert ≠ some task := by simpa [h] using hne
  exact (if_neg hother).trans h

theorem inserting_release {t : ℕ} {eventId : String} (hne : t ≠ task)
    (h : w.inserting eventId = some t) : (w.release task).inserting eventId = some t := by
  have hother : w.inserting eventId ≠ some task := by simpa [h] using hne
  exact (if_neg hother).trans h

theorem Invariant.release (h : Invariant hexdigest w) : Invariant hexdigest (w.release task) := by
  refine ⟨fun t row bucket now inserted ht => ?_, fun t row bucket now ht => ?_, h.recorded⟩
  · obtain ⟨hne, ht⟩ := tasks_release ht
    obtain ⟨hlock, hrow⟩ := h.working t row bucket now inserted ht
    exact ⟨locks_release hne hlock, hrow⟩
  · obtain ⟨hne, ht⟩ := tasks_release ht
    obtain ⟨hinserting, hfree⟩ := h.inserted t row bucket now ht
    exact ⟨inserting_release hne hinserting, hfree⟩

/-- A row that no task has locked may be replaced. -/
theorem Invariant.setRow (h : Invariant hexdigest w) {alert : UUID} {row : Option AlertRow}
    {created : UUID → Bool} (hfree : w.locks alert = none ∨ w.rows alert = none)
    (hrecorded : Recorded hexdigest (Function.update w.rows alert row) created w.notifications
      w.triggers) :
    Invariant hexdigest { w.setRow alert row with created := created } := by
  refine ⟨fun t current bucket now inserted ht => ?_, h.inserted, hrecorded⟩
  obtain ⟨hlock, hcurrent, hlive⟩ := h.working t current bucket now inserted ht
  have hne : current.id ≠ alert := by
    rintro rfl
    obtain hfree | hfree := hfree
    · exact nomatch hlock.symm.trans hfree
    · exact nomatch hcurrent.symm.trans hfree
  exact ⟨hlock, (Function.update_of_ne hne _ _).trans hcurrent, hlive⟩

theorem createAlert_invariant (h : Invariant hexdigest w) {alert : EventAlert}
    {expiresAt : Option ℤ} {cooldownMinutes : ℤ}
    (hstep : w.createAlert alert expiresAt cooldownMinutes = some w') : Invariant hexdigest w' := by
  unfold createAlert at hstep
  split at hstep
  · cases hstep
  · next hfresh =>
    cases hstep
    have hfresh : w.created alert.id = false := by simpa using hfresh
    obtain ⟨hcount, htriggers⟩ := h.recorded.uncreated alert.id hfresh
    have hnorow : w.rows alert.id = none := by
      cases hrow : w.rows alert.id with
      | none => rfl
      | some row => exact absurd (h.recorded.rows _ _ hrow).created (by simp [hfresh])
    refine h.setRow (.inr hnorow) { h.recorded with
      rows := fun id row hrow => ?_
      uncreated := fun id hid => ?_ }
    · by_cases heq : id = alert.id
      · subst heq
        rw [Function.update_self] at hrow
        cases hrow
        exact ⟨rfl, Function.update_self .., hcount.symm, fun x hx halert =>
          absurd halert (htriggers x hx)⟩
      · rw [Function.update_of_ne heq] at hrow
        have hagrees := h.recorded.rows id row hrow
        exact { hagrees with created := (Function.update_of_ne heq _ _).trans hagrees.created }
    · refine h.recorded.uncreated id ?_
      by_cases heq : id = alert.id
      · rw [heq, hfresh]
      · rwa [Function.update_of_ne heq] at hid

theorem toggleAlert_invariant (h : Invariant hexdigest w) {alert : UUID} {isActive : Bool}
    (hstep : w.toggleAlert alert isActive = some w') : Invariant hexdigest w' := by
  unfold toggleAlert at hstep
  split at hstep
  · next row hrow hfree =>
    cases hstep
    refine h.setRow (.inl hfree) { h.recorded with rows := fun id current hcurrent => ?_ }
    by_cases heq : id = alert
    · subst heq
      rw [Function.update_self] at hcurrent
      cases hcurrent
      have hagrees := h.recorded.rows id row hrow
      exact ⟨hagrees.id, hagrees.created, hagrees.count, hagrees.recent⟩
    · rw [Function.update_of_ne heq] at hcurrent
      exact h.recorded.rows id current hcurrent
  · cases hstep

theorem deleteAlert_invariant (h : Invariant hexdigest w) {alert : UUID}
    (hstep : w.deleteAlert alert = some w') : Invariant hexdigest w' := by
  unfold deleteAlert at hstep
  split at hstep
  · cases hstep
  · next hfree =>
    cases hstep
    have hfree : w.locks alert = none := by simpa using hfree
    refine h.setRow (.inl hfree) { h.recorded with rows := fun id current hcurrent => ?_ }
    by_cases heq : id = alert
    · rw [heq, Function.update_self] at hcurrent
      cases hcurrent
    · rw [Function.update_of_ne heq] at hcurrent
      exact h.recorded.rows id current hcurrent

theorem hasEvent_false {eventId : String} :
    w.hasEvent eventId = false ↔ eventId ∉ w.notifications.map (·.eventId) := by
  simp [hasEvent]

theorem persistOther_invariant (h : Invariant hexdigest w) {eventId : String}
    (hstep : w.persistOther eventId = some w') : Invariant hexdigest w' := by
  unfold persistOther at hstep
  split at hstep
  · cases hstep
  · next hwaiting =>
    split at hstep
    · cases hstep
      exact h
    · next hnew =>
      cases hstep
      have hnew : w.hasEvent eventId = false := by simpa using hnew
      have habout : ∀ alert, List.countP (isAbout alert) (⟨eventId, none⟩ :: w.notifications) =
          w.notifications.countP (isAbout alert) := fun alert =>
        List.countP_cons_of_neg (by simp [isAbout])
      refine ⟨h.working, fun t row bucket now ht => ?_, ?_⟩
      · obtain ⟨hinserting, hfree⟩ := h.inserted t row bucket now ht
        refine ⟨hinserting, ?_⟩
        have hne : eventId ≠ alertEventId hexdigest row.id bucket := by
          rintro rfl
          simp [hinserting] at hwaiting
        simpa [hasEvent, hne] using hfree
      · refine ⟨fun alert row hrow => ?_, fun alert halert => ?_, ?_, ?_, h.recorded.apart⟩
        · have hagrees := h.recorded.rows alert row hrow
          exact { hagrees with count := hagrees.count.trans (habout alert).symm }
        · rw [habout]
          exact h.recorded.uncreated alert halert
        · exact List.nodup_cons.mpr ⟨hasEvent_false.mp hnew, h.recorded.eventIds⟩
        · intro notice hnotice origin horigin
          obtain rfl | hnotice := List.mem_cons.mp hnotice
          · cases horigin
          · exact h.recorded.origins notice hnotice origin horigin

theorem lockRow_invariant (h : Invariant hexdigest w) (hstep : w.lockRow task = some w') :
    Invariant hexdigest w' := by
  unfold lockRow at hstep
  split at hstep
  · next alert bucket now hclocked =>
    split at hstep
    · cases hstep
    · next hfree =>
      have hfree : w.locks alert = none := by simpa using hfree
      split at hstep
      · next row hrow =>
        split at hstep
        · next hlive =>
          cases hstep
          have hid := (h.recorded.rows alert row hrow).id
          refine ⟨fun t current bucket' now' inserted ht => ?_, fun t current bucket' now' ht => ?_,
            h.recorded⟩
          · by_cases heq : t = task
            · subst heq
              rw [setTask_tasks, Function.update_self] at ht
              cases ht
              rw [hid]
              exact ⟨Function.update_self .., hrow, hlive⟩
            · rw [setTask_tasks, Function.update_of_ne heq] at ht
              obtain ⟨hlock, hcurrent⟩ := h.working t current bucket' now' inserted ht
              have hne : current.id ≠ alert := by
                rintro rfl
                exact nomatch hlock.symm.trans hfree
              exact ⟨(Function.update_of_ne hne _ _).trans hlock, hcurrent⟩
          · by_cases heq : t = task
            · subst heq
              rw [setTask_tasks, Function.update_self] at ht
              cases ht
            · rw [setTask_tasks, Function.update_of_ne heq] at ht
              exact h.inserted t current bucket' now' ht
        · cases hstep
          exact h.release
      · cases hstep
        exact h.release
  · cases hstep

theorem insertNotification_invariant (h : Invariant hexdigest w)
    (hstep : w.insertNotification hexdigest task = some w') : Invariant hexdigest w' := by
  unfold insertNotification at hstep
  split at hstep
  · next row bucket now hworking =>
    simp only at hstep
    split at hstep
    · cases hstep
    · next hfree =>
      have hfree : w.inserting (alertEventId hexdigest row.id bucket) = none := by simpa using hfree
      split at hstep
      · cases hstep
        exact h.release
      · next hnew =>
        cases hstep
        have hnew : w.hasEvent (alertEventId hexdigest row.id bucket) = false := by simpa using hnew
        refine ⟨fun t current bucket' now' inserted ht => ?_, fun t current bucket' now' ht => ?_,
          h.recorded⟩
        · by_cases heq : t = task
          · subst heq
            rw [setTask_tasks, Function.update_self] at ht
            cases ht
            exact h.working t row bucket now false hworking
          · rw [setTask_tasks, Function.update_of_ne heq] at ht
            exact h.working t current bucket' now' inserted ht
        · by_cases heq : t = task
          · subst heq
            rw [setTask_tasks, Function.update_self] at ht
            cases ht
            exact ⟨Function.update_self .., hnew⟩
          · rw [setTask_tasks, Function.update_of_ne heq] at ht
            obtain ⟨hinserting, hnone⟩ := h.inserted t current bucket' now' ht
            have hne : alertEventId hexdigest current.id bucket' ≠
                alertEventId hexdigest row.id bucket := by
              intro hsame
              rw [hsame, hfree] at hinserting
              cases hinserting
            exact ⟨(Function.update_of_ne hne _ _).trans hinserting, hnone⟩
  · cases hstep

theorem cooled_of_isLive {row : AlertRow} {now last : ℤ} (h : row.isLive now)
    (hlast : last ∈ row.lastTriggeredAt) : last + row.cooldownMinutes * 60000000 ≤ now :=
  (of_decide_eq_true h).2.2 last hlast

/-- A trigger of a live row fits what is committed. -/
theorem Recorded.fire {rows : UUID → Option AlertRow} {created : UUID → Bool}
    {notifications : List PersistedNotice} {triggers : List CommittedTrigger} {row : AlertRow}
    {bucket : String} {now : ℤ} (h : Recorded hexdigest rows created notifications triggers)
    (hrow : rows row.id = some row) (hlive : row.isLive now)
    (hnew : alertEventId hexdigest row.id bucket ∉ notifications.map (·.eventId)) :
    Recorded hexdigest
      (Function.update rows row.id ((rows row.id).map fun current =>
        { current with lastTriggeredAt := some now, triggerCount := row.triggerCount + 1 }))
      created (⟨alertEventId hexdigest row.id bucket, some (row.id, bucket)⟩ :: notifications)
      (⟨row.id, row.cooldownMinutes, now⟩ :: triggers) := by
  have hagrees := h.rows row.id row hrow
  -- the row has cooled down since its last trigger, and that one is the latest
  have hcooled : ∀ x ∈ triggers, x.alert = row.id → 0 ≤ row.cooldownMinutes →
      x.triggeredAt + row.cooldownMinutes * 60000000 ≤ now := by
    intro x hx halert hcooldown
    obtain ⟨-, last, hlast, hle⟩ := hagrees.recent x hx halert
    have hwait := cooled_of_isLive hlive hlast
    have hle := hle hcooldown
    omega
  refine ⟨fun alert current hcurrent => ?_, fun alert halert => ?_, ?_, ?_, ?_⟩
  · by_cases heq : alert = row.id
    · subst heq
      rw [Function.update_self, hrow] at hcurrent
      cases hcurrent
      refine ⟨rfl, hagrees.created, ?_, fun x hx halert => ?_⟩
      · rw [List.countP_cons_of_pos (by simp [isAbout]), ← hagrees.count]
      · obtain rfl | hx := List.mem_cons.mp hx
        · exact ⟨rfl, now, rfl, fun _ => le_rfl⟩
        · refine ⟨(hagrees.recent x hx halert).1, now, rfl, fun hcooldown => ?_⟩
          have hcooldown : 0 ≤ row.cooldownMinutes := hcooldown
          have hwait := hcooled x hx halert hcooldown
          omega
    · rw [Function.update_of_ne heq] at hcurrent
      have hother := h.rows alert current hcurrent
      refine ⟨hother.id, hother.created, ?_, fun x hx halert => ?_⟩
      · rw [List.countP_cons_of_neg (by simpa [isAbout] using Ne.symm heq)]
        exact hother.count
      · obtain rfl | hx := List.mem_cons.mp hx
        · exact absurd halert.symm heq
        · exact hother.recent x hx halert
  · have hne : row.id ≠ alert := by
      rintro rfl
      rw [hagrees.created] at halert
      cases halert
    obtain ⟨hcount, htriggers⟩ := h.uncreated alert halert
    refine ⟨?_, fun x hx => ?_⟩
    · rw [List.countP_cons_of_neg (by simpa [isAbout] using hne)]
      exact hcount
    · obtain rfl | hx := List.mem_cons.mp hx
      · exact hne
      · exact htriggers x hx
  · exact List.nodup_cons.mpr ⟨hnew, h.eventIds⟩
  · intro notice hnotice origin horigin
    obtain rfl | hnotice := List.mem_cons.mp hnotice
    · cases horigin
      rfl
    · exact h.origins notice hnotice origin horigin
  · refine List.pairwise_cons.mpr ⟨fun x hx halert hcooldown => ?_, h.apart⟩
    exact hcooled x hx halert.symm hcooldown

theorem commit_invariant (h : Invariant hexdigest w)
    (hstep : w.commit hexdigest task = some w') : Invariant hexdigest w' := by
  unfold commit at hstep
  split at hstep
  · next row bucket now hworking =>
    cases hstep
    obtain ⟨hlock, hrow, hlive⟩ := h.working task row bucket now true hworking
    obtain ⟨hinserting, hnew⟩ := h.inserted task row bucket now hworking
    refine ⟨fun t current bucket' now' inserted ht => ?_, fun t current bucket' now' ht => ?_,
      h.recorded.fire hrow hlive (hasEvent_false.mp hnew)⟩
    · obtain ⟨hne, ht⟩ := tasks_release ht
      obtain ⟨hheld, hcurrent⟩ := h.working t current bucket' now' inserted ht
      have hother : current.id ≠ row.id := by
        intro hsame
        rw [hsame, hlock] at hheld
        exact hne (Option.some.inj hheld).symm
      exact ⟨locks_release hne hheld, (Function.update_of_ne hother _ _).trans hcurrent.1,
        hcurrent.2⟩
    · obtain ⟨hne, ht⟩ := tasks_release ht
      obtain ⟨hheld, hnone⟩ := h.inserted t current bucket' now' ht
      refine ⟨inserting_release hne hheld, ?_⟩
      have hother : alertEventId hexdigest row.id bucket ≠
          alertEventId hexdigest current.id bucket' := by
        intro hsame
        rw [← hsame, hinserting] at hheld
        exact hne (Option.some.inj hheld).symm
      simpa [hasEvent, hother] using hnone
  · cases hstep

theorem step_invariant {action : TriggerAction} (h : Invariant hexdigest w)
    (hstep : w.step hexdigest action = some w') : Invariant hexdigest w' := by
  cases action with
  | createAlert => exact createAlert_invariant h hstep
  | toggleAlert => exact toggleAlert_invariant h hstep
  | deleteAlert => exact deleteAlert_invariant h hstep
  | persistOther => exact persistOther_invariant h hstep
  | lockRow => exact lockRow_invariant h hstep
  | insertNotification => exact insertNotification_invariant h hstep
  | commit => exact commit_invariant h hstep
  | fail =>
    cases hstep
    exact h.release
  | evaluate task alert bucket now =>
    simp only [step] at hstep
    split at hstep
    · split at hstep
      · cases hstep
        exact h.setTask fun _ _ _ _ => TriggerPhase.noConfusion
      · cases hstep
    · cases hstep
  | matchEvent task alert bucket =>
    simp only [step] at hstep
    split at hstep
    · split at hstep
      · cases hstep
        exact h.setTask fun _ _ _ _ => TriggerPhase.noConfusion
      · cases hstep
    · cases hstep
  | readClock task now =>
    simp only [step] at hstep
    split at hstep
    · cases hstep
      exact h.setTask fun _ _ _ _ => TriggerPhase.noConfusion
    · cases hstep

end Steps

/-- The triggers of one alert are its cooldown apart, a pair of alert and bucket has one
notification, and an alert counts its notifications. -/
structure Sound (w : TriggerWorld) : Prop where
  apart : w.triggers.Pairwise fun x y => x.alert = y.alert →
    x.cooldownMinutes * 60000000 ≤ |x.triggeredAt - y.triggeredAt|
  once : w.notifications.Pairwise fun x y => x.origin.isSome → x.origin ≠ y.origin
  counted : ∀ alert row, w.rows alert = some row →
    row.triggerCount = w.notifications.countP (isAbout alert)

theorem Invariant.sound {w : TriggerWorld} (h : Invariant hexdigest w) : w.Sound where
  apart := by
    refine h.recorded.apart.imp fun {x y} hapart halert => ?_
    obtain hcooldown | hnegative := le_or_gt 0 x.cooldownMinutes
    · have hwait := hapart halert hcooldown
      rw [abs_of_nonneg (by omega)]
      omega
    · have hnonneg := abs_nonneg (x.triggeredAt - y.triggeredAt)
      omega
  once := by
    have hpairs := List.pairwise_map.mp h.recorded.eventIds
    refine hpairs.imp_of_mem fun {x y} hx hy hne hsome hsame => hne ?_
    obtain ⟨origin, horigin⟩ := Option.isSome_iff_exists.mp hsome
    rw [h.recorded.origins x hx origin horigin, h.recorded.origins y hy origin (hsame ▸ horigin)]
  counted alert row hrow := (h.recorded.rows alert row hrow).count

/-- Whatever the tasks do and whatever their clocks show, the triggers are sound. -/
theorem triggers_sound {actions : List TriggerAction} {w : TriggerWorld}
    (hrun : Transition.run (step hexdigest) start actions = some w) : w.Sound :=
  (Transition.run_invariant (fun _ _ _ h _ => step_invariant h) (invariant_start hexdigest)
    (Transition.meets_of_forall (fun _ _ _ => trivial) start) hrun).sound

/-- The leaders of two processes find an alert for the same bar, and the one whose clock is behind
locks the row first. -/
def overlappingLeaders : List TriggerAction :=
  [.createAlert ⟨7, .priceAbove, .active, "SPY", ""⟩ none 5,
    .evaluate 0 7 "bar:SPY:60" 1000, .evaluate 1 7 "bar:SPY:60" 2000,
    .readClock 0 1000, .readClock 1 2000, .lockRow 0, .insertNotification 0, .commit 0, .lockRow 1]

theorem triggers_sound_overlapping :
    ∃ w, Transition.run (step id) start overlappingLeaders = some w ∧ w.triggers.length = 1 ∧
      w.Sound :=
  ⟨_, rfl, rfl, @triggers_sound id overlappingLeaders _ rfl⟩

end TriggerWorld

end LlamaTrade
