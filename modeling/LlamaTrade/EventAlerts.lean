import LlamaTrade.JoinedText
import LlamaTrade.Notifications
import LlamaTrade.TransitionRuns

/-!
# Event alerts

The notifications of one tenant over many events: those of the events themselves (`pipeline.py`),
of the alerts that they fire (`alerts/matcher.py`, `alerts/engine.py`) and of webhooks that are
disabled (`delivery.py`). A notification is inserted only when its event id is new. For an alert the
id comes from the alert and a bucket of category, symbol and session; for a disabled webhook it
comes from the webhook alone.
-/

namespace LlamaTrade

/-- The number of a category. -/
def NotificationCategory.number : NotificationCategory → ℕ
  | unspecified => 0
  | sleeveFrozen => 1
  | fillQuarantined => 2
  | externalTradeAdopted => 3
  | corporateActionProposed => 4
  | corporateActionApplied => 5
  | orderFilled => 10
  | orderRejected => 11
  | positionOpened => 12
  | positionClosed => 13
  | positionDrift => 14
  | riskBreach => 15
  | evaluationStalled => 16
  | symbolNotTradable => 17
  | connectionLost => 18
  | strategyError => 19
  | sessionStarted => 20
  | sessionStopped => 21
  | sessionError => 22
  | circuitBreakerTriggered => 23
  | circuitBreakerReset => 24
  | stopLossHit => 25
  | takeProfitHit => 26
  | reconciliationDrift => 27
  | executionStarted => 40
  | executionStopped => 41
  | fundingFailed => 42
  | sleeveReleaseDeferred => 43
  | executionCancelled => 44
  | planLimitReached => 45
  | backtestCompleted => 50
  | backtestFailed => 51
  | paymentSucceeded => 60
  | paymentFailed => 61
  | trialEnding => 62
  | subscriptionUpdated => 63
  | subscriptionCanceled => 64
  | welcome => 70
  | passwordChanged => 71
  | accountLocked => 72
  | emailVerification => 73
  | passwordReset => 74
  | confirmationPending => 80
  | priceAlertTriggered => 90
  | webhookDisabled => 91

/-- What `derive_event_id` takes the digest of. -/
def eventIdText (parts : List String) : String := JoinedText.joined ':' parts

/-- The bucket of an event in `EventAlertMatcher.match`. -/
def eventBucket (event : NotificationEvent) : String :=
  "event:" ++ toString event.category.number ++ ":" ++ event.symbol ++ ":" ++ event.sessionId

/-- The text behind the id of an alert's notification (`trigger_alert`). -/
def alertText (alert : UUID) (bucket : String) : String := eventIdText [alert.text, bucket]

/-- The text behind the id of the notice about a webhook (`_persist_disabled_notice`). -/
def noticeText (tenantId webhook : UUID) : String :=
  eventIdText [toString NotificationCategory.webhookDisabled.number, tenantId.text, webhook.text,
    "disabled"]

/-- A row of `alerts`; times are in microseconds. -/
structure AlertRow extends EventAlert where
  expiresAt : Option ℤ
  lastTriggeredAt : Option ℤ
  cooldownMinutes : ℤ
  triggerCount : ℕ

/-- `alert_is_live`. -/
def AlertRow.isLive (alert : AlertRow) (now : ℤ) : Bool :=
  alert.status = .active ∧ (∀ expiresAt ∈ alert.expiresAt, now ≤ expiresAt) ∧
    ∀ last ∈ alert.lastTriggeredAt, last + alert.cooldownMinutes * 60000000 ≤ now

/-- A row of `webhooks`. -/
structure WebhookRow where
  id : UUID
  isActive : Bool
  failureCount : ℕ

/-- The rows of one tenant. -/
structure AlertWorld where
  /-- The event ids of the notifications. -/
  notifications : List String
  /-- The ids of the events whose notifications were inserted. -/
  handled : List String
  alerts : List AlertRow
  webhooks : List WebhookRow
  /-- The alerts that a handler has found for its event and has still to trigger. -/
  pending : List (UUID × String)
  /-- The alerts that were notified, with their buckets. -/
  fired : List (UUID × String)
  /-- The webhooks about which a notice was persisted. -/
  noticed : List UUID
  /-- The number of occurrences that were swallowed. -/
  swallowed : ℕ

inductive AlertAction where
  /-- An event of the stream arrives, for the first time or again. -/
  | arrive (id : String) (event : NotificationEvent)
  /-- A handler triggers an alert that it has found. -/
  | trigger (place : ℕ) (now : ℤ)
  /-- The market evaluator triggers an alert, with the minute of the bar as bucket. -/
  | evaluate (alert : UUID) (bucket : String) (now : ℤ)
  | sendWebhook (webhook : UUID) (ok : Bool)
  | updateWebhook (webhook : UUID) (isActive : Bool)
  | createWebhook (webhook : UUID)
  | deleteWebhook (webhook : UUID)
  | createAlert (alert : AlertRow)
  | toggleAlert (alert : UUID) (isActive : Bool)
  | deleteAlert (alert : UUID)

namespace AlertWorld

variable (hexdigest : String → String) (tenantId : UUID) (disableThreshold : ℕ)

def fresh : AlertWorld := ⟨[], [], [], [], [], [], [], 0⟩

def findAlert (w : AlertWorld) (alert : UUID) : Option AlertRow :=
  w.alerts.find? fun row => row.id = alert

def findWebhook (w : AlertWorld) (webhook : UUID) : Option WebhookRow :=
  w.webhooks.find? fun row => row.id = webhook

def setWebhook (w : AlertWorld) (webhook : WebhookRow) : AlertWorld :=
  { w with webhooks := w.webhooks.map fun row => if row.id = webhook.id then webhook else row }

/-- The alert is there and live. -/
def isLive (w : AlertWorld) (alert : UUID) (now : ℤ) : Bool :=
  (w.findAlert alert).any fun row => row.isLive now

/-- The commit of `trigger_alert`. -/
def fire (w : AlertWorld) (alert : UUID) (bucket : String) (now : ℤ) : AlertWorld :=
  { w with
    notifications := hexdigest (alertText alert bucket) :: w.notifications
    alerts := w.alerts.map fun row =>
      if row.id = alert then
        { row with lastTriggeredAt := some now, triggerCount := row.triggerCount + 1 }
      else row
    fired := (alert, bucket) :: w.fired }

/-- `trigger_alert`; `counted` when the alert is live at an event. -/
def triggerAlert (w : AlertWorld) (alert : UUID) (bucket : String) (now : ℤ) (counted : Bool) :
    AlertWorld :=
  if !w.isLive alert now then w
  else if hexdigest (alertText alert bucket) ∈ w.notifications then
    { w with swallowed := w.swallowed + if counted then 1 else 0 }
  else w.fire hexdigest alert bucket now

/-- The handler, up to the alerts that it triggers. -/
def arrive (w : AlertWorld) (id : String) (event : NotificationEvent) : AlertWorld :=
  if id ∈ w.notifications then
    { w with swallowed := w.swallowed + if id ∈ w.handled then 0 else 1 }
  else { w with
    notifications := id :: w.notifications
    handled := id :: w.handled
    pending := w.pending ++ (matchingAlerts (w.alerts.map (·.toEventAlert)) event).map
      fun alert => (alert, eventBucket event) }

/-- `_persist_disabled_notice`. -/
def persistDisabledNotice (w : AlertWorld) (webhook : UUID) : AlertWorld :=
  if hexdigest (noticeText tenantId webhook) ∈ w.notifications then
    { w with swallowed := w.swallowed + 1 }
  else { w with
    notifications := hexdigest (noticeText tenantId webhook) :: w.notifications
    noticed := webhook :: w.noticed }

/-- One more failure disables the webhook. -/
def disables (webhook : WebhookRow) : Bool :=
  webhook.isActive ∧ disableThreshold ≤ webhook.failureCount + 1

/-- `_dispatch_webhook` with `_track_webhook`. -/
def sendWebhook (w : AlertWorld) (webhook : UUID) (ok : Bool) : AlertWorld :=
  match w.findWebhook webhook with
  | none => w
  | some row =>
    if !row.isActive then w
    else if ok then w.setWebhook { row with failureCount := 0 }
    else
      let tracked := w.setWebhook { row with
        failureCount := row.failureCount + 1
        isActive := !disables disableThreshold row }
      if disables disableThreshold row then tracked.persistDisabledNotice hexdigest tenantId webhook
      else tracked

/-- `update_webhook`. -/
def updateWebhook (w : AlertWorld) (webhook : UUID) (isActive : Bool) : AlertWorld :=
  match w.findWebhook webhook with
  | none => w
  | some row => w.setWebhook { row with
      failureCount := if isActive && !row.isActive then 0 else row.failureCount
      isActive := isActive }

def step (w : AlertWorld) : AlertAction → Option AlertWorld
  | .arrive id event => some (w.arrive id event)
  | .trigger place now =>
    w.pending[place]?.map fun found =>
      { w with pending := w.pending.eraseIdx place }.triggerAlert hexdigest found.1 found.2 now true
  | .evaluate alert bucket now => some (w.triggerAlert hexdigest alert bucket now false)
  | .sendWebhook webhook ok => some (w.sendWebhook hexdigest tenantId disableThreshold webhook ok)
  | .updateWebhook webhook isActive => some (w.updateWebhook webhook isActive)
  | .createWebhook webhook => some { w with webhooks := w.webhooks ++ [⟨webhook, true, 0⟩] }
  | .deleteWebhook webhook => some { w with
      webhooks := w.webhooks.filter fun row => row.id ≠ webhook }
  | .createAlert alert => some { w with alerts := w.alerts ++ [alert] }
  | .toggleAlert alert isActive => some { w with
      alerts := w.alerts.map fun row =>
        if row.id = alert then
          { row with status := if isActive then .active else .disabled }
        else row }
  | .deleteAlert alert => some { w with alerts := w.alerts.filter fun row => row.id ≠ alert }

/-- The occurrence, if the action has one, is not one of the kinds that the ids do not tell apart. -/
def IsNew (w : AlertWorld) : AlertAction → Prop
  | .trigger place now => ∀ found ∈ w.pending[place]?, w.isLive found.1 now → found ∉ w.fired
  | .sendWebhook webhook ok => ∀ row ∈ w.findWebhook webhook,
      ok = false → disables disableThreshold row → webhook ∉ w.noticed
  | _ => True

/-! ## Ids -/

/-- The texts that are hashed here. -/
def IsIdText (text : String) : Prop :=
  (∃ alert bucket, text = alertText alert bucket) ∨ ∃ webhook, text = noticeText tenantId webhook

/-- SHA-256 does not collide, and the events have ids of their own. -/
structure IdsApart (actions : List AlertAction) : Prop where
  hexdigest_injective : Function.Injective hexdigest
  arrive_ne : ∀ id event, .arrive id event ∈ actions → ∀ text, IsIdText tenantId text →
    id ≠ hexdigest text

theorem pieces_text (u : UUID) : JoinedText.pieces ':' u.text = [u.text] :=
  JoinedText.pieces_of_not_mem fun h =>
    UUID.forall_mem_text (P := (· ≠ ':')) (by decide) (by decide) u _ h rfl

theorem alertText_inj {alert alert' : UUID} {bucket bucket' : String} :
    alertText alert bucket = alertText alert' bucket' ↔ (alert, bucket) = (alert', bucket') := by
  constructor
  · intro h
    rw [alertText, alertText, eventIdText, eventIdText,
      JoinedText.joined_eq_iff (List.cons_ne_nil _ _) (List.cons_ne_nil _ _)] at h
    simp only [List.flatMap_cons, List.flatMap_nil, List.append_nil, pieces_text,
      List.singleton_append, List.cons.injEq] at h
    rw [UUID.text_injective h.1, JoinedText.pieces_injective h.2]
  · intro h
    cases h
    rfl

variable {tenantId}

theorem noticeText_inj {webhook webhook' : UUID} :
    noticeText tenantId webhook = noticeText tenantId webhook' ↔ webhook = webhook' := by
  constructor
  · intro h
    rw [noticeText, noticeText, eventIdText, eventIdText,
      JoinedText.joined_eq_iff (List.cons_ne_nil _ _) (List.cons_ne_nil _ _)] at h
    simp only [List.flatMap_cons, pieces_text, List.singleton_append, List.append_cancel_left_eq,
      List.cons.injEq, true_and] at h
    exact UUID.text_injective h.1
  · rintro rfl
    rfl

/-- The id of an alert's notification starts with the id of the alert, not with a category. -/
theorem alertText_ne_noticeText (alert : UUID) (bucket : String) (webhook : UUID) :
    alertText alert bucket ≠ noticeText tenantId webhook := by
  intro h
  rw [alertText, noticeText, eventIdText, eventIdText,
    JoinedText.joined_eq_iff (List.cons_ne_nil _ _) (List.cons_ne_nil _ _)] at h
  have hnumber : JoinedText.pieces ':' (toString NotificationCategory.webhookDisabled.number) =
      ["91"] := JoinedText.pieces_of_not_mem (by decide)
  simp only [List.flatMap_cons, pieces_text, hnumber, List.singleton_append, List.cons.injEq] at h
  have hparse := alert.parse_text
  rw [h.1, show UUID.parse "91" = .error _ from rfl] at hparse
  cases hparse

/-! ## The notifications that are there -/

/-- Where the notifications come from. -/
structure Known (tenantId : UUID) (w : AlertWorld) : Prop where
  source : ∀ id ∈ w.notifications, id ∈ w.handled ∨
    (∃ found ∈ w.fired, id = hexdigest (alertText found.1 found.2)) ∨
    ∃ webhook ∈ w.noticed, id = hexdigest (noticeText tenantId webhook)
  fired : ∀ found ∈ w.fired, hexdigest (alertText found.1 found.2) ∈ w.notifications
  noticed : ∀ webhook ∈ w.noticed, hexdigest (noticeText tenantId webhook) ∈ w.notifications
  handled_ne : ∀ id ∈ w.handled, ∀ text, IsIdText tenantId text → id ≠ hexdigest text

theorem known_fresh : Known hexdigest tenantId fresh :=
  ⟨fun _ h => absurd h List.not_mem_nil, fun _ h => absurd h List.not_mem_nil,
    fun _ h => absurd h List.not_mem_nil, fun _ h => absurd h List.not_mem_nil⟩

section Steps

variable {hexdigest} {disableThreshold} {w w' : AlertWorld} {alert webhook : UUID} {bucket : String}

theorem Known.alert_mem_iff (h : Known hexdigest tenantId w) (hinj : Function.Injective hexdigest) :
    hexdigest (alertText alert bucket) ∈ w.notifications ↔ (alert, bucket) ∈ w.fired := by
  refine ⟨fun hmem => ?_, h.fired (alert, bucket)⟩
  obtain hhandled | ⟨found, hfound, htext⟩ | ⟨webhook, -, htext⟩ := h.source _ hmem
  · exact absurd rfl (h.handled_ne _ hhandled _ (.inl ⟨alert, bucket, rfl⟩))
  · rw [alertText_inj.mp (hinj htext)]
    exact hfound
  · exact absurd (hinj htext) (alertText_ne_noticeText _ _ _)

theorem Known.notice_mem_iff (h : Known hexdigest tenantId w) (hinj : Function.Injective hexdigest) :
    hexdigest (noticeText tenantId webhook) ∈ w.notifications ↔ webhook ∈ w.noticed := by
  refine ⟨fun hmem => ?_, h.noticed webhook⟩
  obtain hhandled | ⟨found, -, htext⟩ | ⟨other, hother, htext⟩ := h.source _ hmem
  · exact absurd rfl (h.handled_ne _ hhandled _ (.inr ⟨webhook, rfl⟩))
  · exact absurd (hinj htext).symm (alertText_ne_noticeText _ _ _)
  · rw [noticeText_inj.mp (hinj htext)]
    exact hother

/-- Only an event that was handled before has an id that is there. -/
theorem Known.handled_of_mem (h : Known hexdigest tenantId w) {id : String}
    (hid : ∀ text, IsIdText tenantId text → id ≠ hexdigest text) (hmem : id ∈ w.notifications) :
    id ∈ w.handled := by
  obtain hhandled | ⟨found, -, htext⟩ | ⟨webhook, -, htext⟩ := h.source _ hmem
  · exact hhandled
  · exact absurd htext (hid _ (.inl ⟨_, _, rfl⟩))
  · exact absurd htext (hid _ (.inr ⟨_, rfl⟩))

theorem Known.fire (h : Known hexdigest tenantId w) {now : ℤ} :
    Known hexdigest tenantId (w.fire hexdigest alert bucket now) := by
  refine ⟨fun id hid => ?_, fun found hfound => ?_, fun webhook hwebhook => ?_, h.handled_ne⟩
  · obtain rfl | hid := List.mem_cons.mp hid
    · exact .inr (.inl ⟨_, List.mem_cons_self .., rfl⟩)
    · obtain hhandled | ⟨found, hfound, htext⟩ | hnotice := h.source id hid
      · exact .inl hhandled
      · exact .inr (.inl ⟨found, List.mem_cons_of_mem _ hfound, htext⟩)
      · exact .inr (.inr hnotice)
  · obtain rfl | hfound := List.mem_cons.mp hfound
    · exact List.mem_cons_self ..
    · exact List.mem_cons_of_mem _ (h.fired found hfound)
  · exact List.mem_cons_of_mem _ (h.noticed webhook hwebhook)

/-- What a trigger does to the notifications, and when it swallows an occurrence. -/
theorem Known.triggerAlert (h : Known hexdigest tenantId w) (hinj : Function.Injective hexdigest)
    (alert : UUID) (bucket : String) (now : ℤ) (counted : Bool) :
    Known hexdigest tenantId (w.triggerAlert hexdigest alert bucket now counted) ∧
      (w.triggerAlert hexdigest alert bucket now counted).swallowed = w.swallowed +
        if counted = true ∧ w.isLive alert now = true ∧ (alert, bucket) ∈ w.fired then 1 else 0 := by
  unfold AlertWorld.triggerAlert
  cases hlive : w.isLive alert now with
  | false => simpa using h
  | true =>
    simp only [h.alert_mem_iff hinj]
    by_cases hfired : (alert, bucket) ∈ w.fired
    · cases counted <;> simp [hfired] <;> exact ⟨h.source, h.fired, h.noticed, h.handled_ne⟩
    · simp only [hfired, Bool.not_true, Bool.false_eq_true, if_false, and_false]
      exact ⟨h.fire, rfl⟩

theorem Known.arrive (h : Known hexdigest tenantId w) {id : String} (event : NotificationEvent)
    (hid : ∀ text, IsIdText tenantId text → id ≠ hexdigest text) :
    Known hexdigest tenantId (w.arrive id event) ∧ (w.arrive id event).swallowed = w.swallowed := by
  unfold AlertWorld.arrive
  by_cases hmem : id ∈ w.notifications
  · rw [if_pos hmem, if_pos (h.handled_of_mem hid hmem)]
    exact ⟨⟨h.source, h.fired, h.noticed, h.handled_ne⟩, rfl⟩
  · rw [if_neg hmem]
    refine ⟨⟨fun other hother => ?_, fun found hfound => ?_, fun webhook hwebhook => ?_,
      fun other hother => ?_⟩, rfl⟩
    · obtain rfl | hother := List.mem_cons.mp hother
      · exact .inl (List.mem_cons_self ..)
      · exact (h.source other hother).imp_left (List.mem_cons_of_mem _)
    · exact List.mem_cons_of_mem _ (h.fired found hfound)
    · exact List.mem_cons_of_mem _ (h.noticed webhook hwebhook)
    · obtain rfl | hother := List.mem_cons.mp hother
      · exact hid
      · exact h.handled_ne other hother

theorem Known.persistDisabledNotice (h : Known hexdigest tenantId w)
    (hinj : Function.Injective hexdigest) (webhook : UUID) :
    Known hexdigest tenantId (w.persistDisabledNotice hexdigest tenantId webhook) ∧
      (w.persistDisabledNotice hexdigest tenantId webhook).swallowed =
        w.swallowed + if webhook ∈ w.noticed then 1 else 0 := by
  unfold AlertWorld.persistDisabledNotice
  simp only [h.notice_mem_iff hinj]
  split_ifs with hnoticed
  · exact ⟨⟨h.source, h.fired, h.noticed, h.handled_ne⟩, rfl⟩
  · refine ⟨⟨fun id hid => ?_, fun found hfound => ?_, fun other hother => ?_, h.handled_ne⟩, rfl⟩
    · obtain rfl | hid := List.mem_cons.mp hid
      · exact .inr (.inr ⟨webhook, List.mem_cons_self .., rfl⟩)
      · obtain hhandled | hfired | ⟨other, hother, htext⟩ := h.source id hid
        · exact .inl hhandled
        · exact .inr (.inl hfired)
        · exact .inr (.inr ⟨other, List.mem_cons_of_mem _ hother, htext⟩)
    · exact List.mem_cons_of_mem _ (h.fired found hfound)
    · obtain rfl | hother := List.mem_cons.mp hother
      · exact List.mem_cons_self ..
      · exact List.mem_cons_of_mem _ (h.noticed other hother)

/-- What a step does to the notifications: it swallows an occurrence unless that is new. -/
structure Accounts (hexdigest : String → String) (tenantId : UUID) (w w' : AlertWorld) (new : Prop) :
    Prop where
  known : Known hexdigest tenantId w'
  same : new → w'.swallowed = w.swallowed
  more : ¬ new → w'.swallowed = w.swallowed + 1

theorem Accounts.of_known (h : Known hexdigest tenantId w') (hswallowed : w'.swallowed = w.swallowed)
    {new : Prop} (hnew : new) : Accounts hexdigest tenantId w w' new :=
  ⟨h, fun _ => hswallowed, fun hnot => absurd hnew hnot⟩

@[simp] theorem setWebhook_swallowed (w : AlertWorld) (row : WebhookRow) :
    (w.setWebhook row).swallowed = w.swallowed := rfl

@[simp] theorem setWebhook_noticed (w : AlertWorld) (row : WebhookRow) :
    (w.setWebhook row).noticed = w.noticed := rfl

theorem Known.setWebhook (h : Known hexdigest tenantId w) (row : WebhookRow) :
    Known hexdigest tenantId (w.setWebhook row) :=
  ⟨h.source, h.fired, h.noticed, h.handled_ne⟩

/-- The notifications do not depend on the other rows. -/
theorem Known.rows (h : Known hexdigest tenantId w) (alerts : List AlertRow)
    (webhooks : List WebhookRow) {new : Prop} (hnew : new) : Accounts hexdigest tenantId w
      { w with alerts := alerts, webhooks := webhooks } new :=
  ⟨⟨h.source, h.fired, h.noticed, h.handled_ne⟩, fun _ => rfl, fun hnot => absurd hnew hnot⟩

theorem Known.sendWebhook (h : Known hexdigest tenantId w) (hinj : Function.Injective hexdigest)
    {ok : Bool} : Accounts hexdigest tenantId w
      (w.sendWebhook hexdigest tenantId disableThreshold webhook ok)
      (∀ row ∈ w.findWebhook webhook, ok = false → disables disableThreshold row →
        webhook ∉ w.noticed) := by
  unfold AlertWorld.sendWebhook
  cases hrow : w.findWebhook webhook with
  | none => exact .of_known h rfl fun row hrow => by cases hrow
  | some row =>
    simp only [Option.mem_some_iff, forall_eq']
    cases hactive : row.isActive with
    | false => exact .of_known h rfl fun _ hdisables => by simp [disables, hactive] at hdisables
    | true =>
      cases ok with
      | true =>
        simp only [Bool.not_true, Bool.false_eq_true, if_false, if_true]
        exact .of_known (h.setWebhook _) (setWebhook_swallowed _ _) fun hok => by cases hok
      | false =>
        simp only [Bool.not_true, Bool.false_eq_true, if_false, forall_const]
        cases hdisables : disables disableThreshold row with
        | false =>
          simp only [Bool.false_eq_true, if_false]
          exact .of_known (h.setWebhook _) (setWebhook_swallowed _ _) fun hfalse => by cases hfalse
        | true =>
          obtain ⟨hknown, hswallowed⟩ := (h.setWebhook
            { row with failureCount := row.failureCount + 1, isActive := !true }).persistDisabledNotice
              hinj webhook
          simp only [if_true, forall_const]
          rw [setWebhook_swallowed, setWebhook_noticed] at hswallowed
          refine ⟨hknown, fun hnew => ?_, fun hold => ?_⟩
          · rw [hswallowed, if_neg hnew]
            rfl
          · rw [hswallowed, if_pos (not_not.mp hold)]

/-- One action. -/
theorem Known.after (h : Known hexdigest tenantId w) (hinj : Function.Injective hexdigest)
    {action : AlertAction} (hid : ∀ id event, action = .arrive id event →
      ∀ text, IsIdText tenantId text → id ≠ hexdigest text)
    (hstep : w.step hexdigest tenantId disableThreshold action = some w') :
    Accounts hexdigest tenantId w w' (w.IsNew disableThreshold action) := by
  cases action with
  | arrive id event =>
    cases hstep
    obtain ⟨hknown, hswallowed⟩ := h.arrive event (hid id event rfl)
    exact .of_known hknown hswallowed trivial
  | trigger place now =>
    simp only [step, Option.map_eq_some_iff] at hstep
    obtain ⟨found, hfound, rfl⟩ := hstep
    have herased : Known hexdigest tenantId { w with pending := w.pending.eraseIdx place } :=
      ⟨h.source, h.fired, h.noticed, h.handled_ne⟩
    obtain ⟨hknown, hswallowed⟩ := herased.triggerAlert hinj found.1 found.2 now true
    have hnew : w.IsNew disableThreshold (.trigger place now) ↔
        ¬ (w.isLive found.1 now = true ∧ found ∈ w.fired) := by
      simp [IsNew, hfound]
    refine ⟨hknown, fun hisNew => ?_, fun hisOld => ?_⟩
    · rw [hswallowed, if_neg fun hold => hnew.mp hisNew hold.2]
      rfl
    · have hold := not_not.mp (mt hnew.mpr hisOld)
      exact hswallowed.trans (by rw [if_pos ⟨rfl, hold⟩])
  | evaluate alert bucket now =>
    cases hstep
    obtain ⟨hknown, hswallowed⟩ := h.triggerAlert hinj alert bucket now false
    exact .of_known hknown (by simpa using hswallowed) trivial
  | sendWebhook webhook ok =>
    cases hstep
    exact h.sendWebhook hinj
  | updateWebhook webhook isActive =>
    cases hstep
    have hkept : Known hexdigest tenantId (w.updateWebhook webhook isActive) ∧
        (w.updateWebhook webhook isActive).swallowed = w.swallowed := by
      unfold AlertWorld.updateWebhook
      cases w.findWebhook webhook with
      | none => exact ⟨h, rfl⟩
      | some row => exact ⟨⟨h.source, h.fired, h.noticed, h.handled_ne⟩, rfl⟩
    exact .of_known hkept.1 hkept.2 trivial
  | createWebhook webhook =>
    cases hstep
    exact h.rows _ _ trivial
  | deleteWebhook webhook =>
    cases hstep
    exact h.rows _ _ trivial
  | createAlert alert =>
    cases hstep
    exact h.rows _ _ trivial
  | toggleAlert alert isActive =>
    cases hstep
    exact h.rows _ _ trivial
  | deleteAlert alert =>
    cases hstep
    exact h.rows _ _ trivial

end Steps

/-! ## Runs -/

section Runs

variable {hexdigest} {disableThreshold} {w w' : AlertWorld} {actions : List AlertAction}

theorem IdsApart.tail {action : AlertAction}
    (h : IdsApart hexdigest tenantId (action :: actions)) : IdsApart hexdigest tenantId actions :=
  ⟨h.hexdigest_injective, fun id event hmem => h.arrive_ne id event (List.mem_cons_of_mem _ hmem)⟩

theorem IdsApart.head {action : AlertAction} (h : IdsApart hexdigest tenantId (action :: actions)) :
    ∀ id event, action = .arrive id event → ∀ text, IsIdText tenantId text → id ≠ hexdigest text :=
  fun id event heq => h.arrive_ne id event (heq ▸ List.mem_cons_self ..)

theorem swallowed_mono (h : Known hexdigest tenantId w) (hapart : IdsApart hexdigest tenantId actions)
    (hrun : Transition.run (step hexdigest tenantId disableThreshold) w actions = some w') :
    w.swallowed ≤ w'.swallowed := by
  induction actions generalizing w with
  | nil =>
    cases hrun
    exact le_rfl
  | cons action actions ih =>
    rw [Transition.run, Option.bind_eq_some_iff] at hrun
    obtain ⟨next, hstep, hrest⟩ := hrun
    have haccounts := h.after hapart.hexdigest_injective hapart.head hstep
    have hnext : w.swallowed ≤ next.swallowed := by
      by_cases hnew : w.IsNew disableThreshold action
      · exact (haccounts.same hnew).ge
      · rw [haccounts.more hnew]
        exact Nat.le_succ _
    exact hnext.trans (ih haccounts.known hapart.tail hrest)

theorem swallowed_eq_zero_iff (h : Known hexdigest tenantId w)
    (hapart : IdsApart hexdigest tenantId actions) (hzero : w.swallowed = 0)
    (hrun : Transition.run (step hexdigest tenantId disableThreshold) w actions = some w') :
    w'.swallowed = 0 ↔
      Transition.Meets (step hexdigest tenantId disableThreshold) (IsNew disableThreshold) w actions := by
  induction actions generalizing w with
  | nil =>
    cases hrun
    exact iff_of_true hzero trivial
  | cons action actions ih =>
    rw [Transition.run, Option.bind_eq_some_iff] at hrun
    obtain ⟨next, hstep, hrest⟩ := hrun
    have haccounts := h.after hapart.hexdigest_injective hapart.head hstep
    by_cases hnew : w.IsNew disableThreshold action
    · have hnext := ih haccounts.known hapart.tail ((haccounts.same hnew).trans hzero) hrest
      exact ⟨fun hend => Transition.meets_cons hstep hnew (hnext.mp hend),
        fun hmeets => hnext.mpr (hmeets.2 next hstep)⟩
    · refine iff_of_false (fun hend => ?_) fun hmeets => hnew hmeets.1
      have hmore := haccounts.more hnew
      have hmono := swallowed_mono haccounts.known hapart.tail hrest
      omega

end Runs

end AlertWorld

namespace Sample

/-- A digest that keeps the text. -/
def plainDigest (text : String) : String := "sha256:" ++ text

/-- An alert on filled orders, with a cooldown of an hour. -/
def fillAlert : AlertRow where
  id := 7
  alertType := .orderFilled
  status := .active
  symbol := ""
  strategyFilter := ""
  expiresAt := none
  lastTriggeredAt := none
  cooldownMinutes := 60
  triggerCount := 0

/-- An order of the session `s1` is filled. -/
def fillNotification : NotificationEvent where
  category := .orderFilled
  severity := .unspecified
  symbol := "AAPL"
  strategyId := ""
  sessionId := "s1"
  reason := ""

/-- Two fills on two days. -/
def twoFills : List AlertAction :=
  [.createAlert fillAlert, .arrive "fill-1" fillNotification, .trigger 0 0, .arrive "fill-2" fillNotification,
    .trigger 0 86400000000]

theorem twoFills_apart : AlertWorld.IdsApart plainDigest 1 twoFills := by
  refine ⟨fun text text' h => ?_, fun id event hmem text _ h => ?_⟩
  · have hlist := congrArg String.toList h
    rw [← String.toList_inj]
    simpa [plainDigest] using hlist
  · have hid : id = "fill-1" ∨ id = "fill-2" := by
      simp only [twoFills, List.mem_cons, List.not_mem_nil, or_false, reduceCtorEq, false_or,
        AlertAction.arrive.injEq] at hmem
      exact hmem.imp (·.1) (·.1)
    obtain rfl | rfl := hid <;> exact absurd (congrArg String.toList h) (by simp [plainDigest])

end Sample

end LlamaTrade
