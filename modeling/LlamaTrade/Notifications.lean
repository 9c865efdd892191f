import LlamaTrade.PythonUuid

/-!
# Notifications

What an event of the `notifications` stream asks for (`pipeline.py`, `preferences.py`,
`alerts/matcher.py`). The category of an event has a default severity and default channels; a
tenant's channel rows narrow them, and email stays for the pinned severities. The plan of an event
has one delivery for each email address and each webhook. A few categories also fire the tenant's
event alerts.
-/

namespace LlamaTrade

/-- `NotificationCategory`. -/
inductive NotificationCategory where
  | unspecified
  | sleeveFrozen
  | fillQuarantined
  | externalTradeAdopted
  | corporateActionProposed
  | corporateActionApplied
  | orderFilled
  | orderRejected
  | positionOpened
  | positionClosed
  | positionDrift
  | riskBreach
  | evaluationStalled
  | symbolNotTradable
  | connectionLost
  | strategyError
  | sessionStarted
  | sessionStopped
  | sessionError
  | circuitBreakerTriggered
  | circuitBreakerReset
  | stopLossHit
  | takeProfitHit
  | reconciliationDrift
  | executionStarted
  | executionStopped
  | fundingFailed
  | sleeveReleaseDeferred
  | executionCancelled
  | planLimitReached
  | backtestCompleted
  | backtestFailed
  | paymentSucceeded
  | paymentFailed
  | trialEnding
  | subscriptionUpdated
  | subscriptionCanceled
  | welcome
  | passwordChanged
  | accountLocked
  | emailVerification
  | passwordReset
  | confirmationPending
  | priceAlertTriggered
  | webhookDisabled
  deriving DecidableEq

inductive NotificationSeverity where
  | unspecified
  | info
  | actionable
  | critical
  | security
  deriving DecidableEq

inductive ChannelType where
  | email
  | sms
  | push
  | webhook
  | slack
  | discord
  | telegram
  deriving DecidableEq

/-- The default severity and the default external channels of a category. -/
structure CategorySpec where
  severity : NotificationSeverity
  channels : List ChannelType

/-- `CATEGORY_SPECS`, with `_FALLBACK` for what it does not list. -/
def specFor : NotificationCategory → CategorySpec
  | .sleeveFrozen => ⟨.critical, [.email, .webhook]⟩
  | .fillQuarantined => ⟨.critical, [.email, .webhook]⟩
  | .externalTradeAdopted => ⟨.actionable, [.webhook]⟩
  | .corporateActionProposed => ⟨.actionable, [.email]⟩
  | .corporateActionApplied => ⟨.info, []⟩
  | .orderFilled => ⟨.info, [.webhook]⟩
  | .orderRejected => ⟨.actionable, [.webhook]⟩
  | .positionOpened => ⟨.info, [.webhook]⟩
  | .positionClosed => ⟨.info, [.webhook]⟩
  | .positionDrift => ⟨.actionable, [.email, .webhook]⟩
  | .riskBreach => ⟨.actionable, [.webhook]⟩
  | .evaluationStalled => ⟨.actionable, [.email, .webhook]⟩
  | .symbolNotTradable => ⟨.actionable, [.email, .webhook]⟩
  | .connectionLost => ⟨.actionable, [.email, .webhook]⟩
  | .strategyError => ⟨.actionable, [.email, .webhook]⟩
  | .sessionStarted => ⟨.info, []⟩
  | .sessionStopped => ⟨.info, []⟩
  | .sessionError => ⟨.critical, [.email, .webhook]⟩
  | .circuitBreakerTriggered => ⟨.critical, [.email, .webhook]⟩
  | .circuitBreakerReset => ⟨.info, [.webhook]⟩
  | .stopLossHit => ⟨.info, [.webhook]⟩
  | .takeProfitHit => ⟨.info, [.webhook]⟩
  | .reconciliationDrift => ⟨.actionable, [.email, .webhook]⟩
  | .executionStarted => ⟨.info, []⟩
  | .executionStopped => ⟨.info, []⟩
  | .fundingFailed => ⟨.actionable, [.email]⟩
  | .sleeveReleaseDeferred => ⟨.critical, [.email]⟩
  | .executionCancelled => ⟨.info, []⟩
  | .planLimitReached => ⟨.info, []⟩
  | .backtestCompleted => ⟨.info, []⟩
  | .backtestFailed => ⟨.actionable, []⟩
  | .paymentSucceeded => ⟨.info, [.email]⟩
  | .paymentFailed => ⟨.critical, [.email]⟩
  | .trialEnding => ⟨.actionable, [.email]⟩
  | .subscriptionUpdated => ⟨.info, [.email]⟩
  | .subscriptionCanceled => ⟨.info, [.email]⟩
  | .welcome => ⟨.info, [.email]⟩
  | .passwordChanged => ⟨.security, [.email]⟩
  | .accountLocked => ⟨.security, [.email]⟩
  | .emailVerification => ⟨.security, [.email]⟩
  | .passwordReset => ⟨.security, [.email]⟩
  | .confirmationPending => ⟨.actionable, []⟩
  | .priceAlertTriggered => ⟨.info, []⟩
  | .webhookDisabled => ⟨.actionable, [.email]⟩
  | .unspecified => ⟨.info, []⟩

/-- `effective_severity`: the event's own severity comes first. -/
def effectiveSeverity (category : NotificationCategory) (severity : NotificationSeverity) :
    NotificationSeverity :=
  if severity = .unspecified then (specFor category).severity else severity

/-- `PINNED_SEVERITIES`. -/
def NotificationSeverity.isPinned (severity : NotificationSeverity) : Bool :=
  severity = .critical ∨ severity = .security

/-- `NotificationEvent`, as far as the handler reads it. -/
structure NotificationEvent where
  category : NotificationCategory
  severity : NotificationSeverity
  symbol : String
  strategyId : String
  sessionId : String
  reason : String

/-- A row of `notification_channels`; `categories` is the list of its preferences, if there is one. -/
structure ChannelRow where
  channelType : ChannelType
  isEnabled : Bool
  destination : String
  categories : Option (List NotificationCategory)

/-- A row of `webhooks`, as far as a plan reads it. -/
structure WebhookTarget where
  id : UUID
  isActive : Bool
  events : List NotificationCategory

/-- What a plan reads of the tenant; `emails` are those of the active users. -/
structure TenantContacts where
  channels : List ChannelRow
  webhooks : List WebhookTarget
  emails : List String

/-- A channel row drops a category when it is disabled, or lists other categories. -/
def ChannelRow.drops (row : ChannelRow) (category : NotificationCategory) : Bool :=
  !row.isEnabled || row.categories.any fun allowed => category ∉ allowed

namespace TenantContacts

variable (tenant : TenantContacts)

/-- The row that `_channel_prefs` keeps for a channel: the last one of the query. -/
def channelPrefs (channel : ChannelType) : Option ChannelRow :=
  tenant.channels.reverse.find? fun row => row.channelType = channel

/-- `channels_for`. -/
def channelsFor (category : NotificationCategory) (severity : NotificationSeverity)
    (channel : ChannelType) : Bool :=
  (channel ∈ (specFor category).channels ∧ !(tenant.channelPrefs channel).any (·.drops category)) ∨
    (channel = .email ∧ severity.isPinned)

/-- `email_recipients`: the destination of the email channel, else the users. -/
def emailRecipients (ignoreDisabled : Bool) : List String :=
  match tenant.channels.find? fun row => row.channelType = .email with
  | some row =>
    if !row.isEnabled && !ignoreDisabled then []
    else if row.destination ≠ "" then [row.destination]
    else tenant.emails.filter (· ≠ "")
  | none => tenant.emails.filter (· ≠ "")

/-- `_webhook_targets`: a webhook without categories takes them all. -/
def webhookTargets (category : NotificationCategory) : List UUID :=
  (tenant.webhooks.filter fun webhook =>
    webhook.isActive && (webhook.events.isEmpty || category ∈ webhook.events)).map (·.id)

/-- The channels of a plan; those of an alert replace those of the category. -/
def targets (event : NotificationEvent) (channelOverride : Option (List ChannelType))
    (channel : ChannelType) : Bool :=
  match channelOverride with
  | some channels => channel ∈ channels
  | none =>
    tenant.channelsFor event.category (effectiveSeverity event.category event.severity) channel

/-- The destinations of `persist_and_plan`. -/
def destinations (event : NotificationEvent) (channelOverride : Option (List ChannelType)) :
    List (ChannelType × String) :=
  let pinned := (effectiveSeverity event.category event.severity).isPinned
  let emails :=
    if tenant.targets event channelOverride .email then
      (tenant.emailRecipients pinned).map fun address => (.email, address)
    else []
  let webhooks :=
    if tenant.targets event channelOverride .webhook then
      (tenant.webhookTargets event.category).map fun id => (.webhook, id.text)
    else []
  emails ++ webhooks

/-- A pinned severity reaches every active user, or the address that stands in for them. -/
theorem destinations_of_pinned {event : NotificationEvent}
    (hpinned : (effectiveSeverity event.category event.severity).isPinned = true) :
    ∀ address ∈ tenant.emailRecipients true, (.email, address) ∈ tenant.destinations event none := by
  intro address haddress
  have htarget : tenant.targets event none .email = true := by
    simp [targets, channelsFor, hpinned]
  simp only [destinations, htarget, if_true, hpinned, List.mem_append]
  exact .inl (List.mem_map_of_mem haddress)

end TenantContacts

/-! ## Event alerts -/

inductive AlertConditionType where
  | priceAbove
  | priceBelow
  | priceChangePercent
  | volumeAbove
  | rsiAbove
  | rsiBelow
  | orderFilled
  | strategySignal
  | reconciliationDrift
  | sleeveFrozen
  deriving DecidableEq

inductive AlertStatus where
  | active
  | triggered
  | disabled
  deriving DecidableEq

/-- A row of `alerts` as the matcher reads it; an absent symbol or filter is empty. -/
structure EventAlert where
  id : UUID
  alertType : AlertConditionType
  status : AlertStatus
  symbol : String
  /-- `condition["strategy_id"]`. -/
  strategyFilter : String

/-- `CONDITIONS_BY_CATEGORY`. -/
def conditionsByCategory : NotificationCategory → Option AlertConditionType
  | .orderFilled => some .orderFilled
  | .positionDrift => some .reconciliationDrift
  | .reconciliationDrift => some .reconciliationDrift
  | .sleeveFrozen => some .sleeveFrozen
  | _ => none

/-- `_candidates`: the active alerts of a type; a filter counts only when both sides have a value. -/
def alertCandidates (alerts : List EventAlert) (conditionType : AlertConditionType)
    (event : NotificationEvent) : List UUID :=
  (alerts.filter fun alert =>
    alert.alertType = conditionType ∧ alert.status = .active ∧
      (alert.symbol = "" ∨ event.symbol = "" ∨ alert.symbol = event.symbol) ∧
      (alert.strategyFilter = "" ∨ event.strategyId = "" ∨
        alert.strategyFilter = event.strategyId)).map (·.id)

/-- The alerts that `match` fires. -/
def matchingAlerts (alerts : List EventAlert) (event : NotificationEvent) : List UUID :=
  match conditionsByCategory event.category with
  | some conditionType => alertCandidates alerts conditionType event
  | none => []

end LlamaTrade
