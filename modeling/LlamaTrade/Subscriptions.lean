import LlamaTrade.PythonText

/-!
# Subscriptions

The row of a subscription and what the events of Stripe write to it (`routers/webhooks.py`,
`services/billing_service.py`). A handler loads the row, sets attributes and commits; a commit
writes the columns whose values differ from the loaded ones.
-/

namespace LlamaTrade

/-- `SubscriptionStatus`, without the unspecified value, which is never stored. -/
inductive SubscriptionStatus where
  | active | pastDue | canceled | trialing | paused
  deriving DecidableEq, Repr

/-- The statuses that `get_subscription` looks for. -/
def SubscriptionStatus.isLive : SubscriptionStatus → Bool
  | .active | .trialing | .pastDue => true
  | _ => false

/-- `stripe_status_to_proto`. -/
def stripeStatusToProto (status : String) : Option SubscriptionStatus :=
  match PyText.lower status with
  | "active" => some .active
  | "past_due" => some .pastDue
  | "canceled" => some .canceled
  | "cancelled" => some .canceled
  | "trialing" => some .trialing
  | "paused" => some .paused
  | "incomplete" => some .pastDue
  | "incomplete_expired" => some .canceled
  | "unpaid" => some .pastDue
  | _ => none

/-- The columns of `subscriptions` that decide what a subscription is. Times are Unix timestamps. -/
structure SubscriptionRow where
  stripeSubscriptionId : Option String
  status : SubscriptionStatus
  cancelAtPeriodEnd : Bool
  currentPeriodStart : ℤ
  currentPeriodEnd : ℤ
  deriving DecidableEq, Repr

/-- A subscription of Stripe; the period is that of its first item. -/
structure StripeSubscription where
  id : String
  status : String
  cancelAtPeriodEnd : Bool
  currentPeriodStart : Option ℤ
  currentPeriodEnd : Option ℤ
  deriving DecidableEq, Repr

/-- The events that the webhook handles; `other` are those that do not touch a subscription. -/
inductive StripeEvent where
  | subscriptionCreated (sub : StripeSubscription)
  | subscriptionUpdated (sub : StripeSubscription)
  | subscriptionDeleted (id : String)
  | invoicePaymentFailed (subscription : Option String)
  | other
  deriving DecidableEq, Repr

/-- The subscription whose row the handler of an event looks up. -/
def StripeEvent.subscriptionId : StripeEvent → Option String
  | .subscriptionCreated sub => some sub.id
  | .subscriptionUpdated sub => some sub.id
  | .subscriptionDeleted id => some id
  | .invoicePaymentFailed subscription => subscription
  | .other => none

/-- The attributes that a handler sets; `none` leaves one as it is. -/
structure RowWrites where
  status : Option SubscriptionStatus
  cancelAtPeriodEnd : Option Bool
  currentPeriodStart : Option ℤ
  currentPeriodEnd : Option ℤ
  deriving DecidableEq, Repr

/-- What the handlers set on the row of the subscription. -/
def StripeEvent.writes : StripeEvent → RowWrites
  | .subscriptionCreated sub =>
    ⟨stripeStatusToProto sub.status, none, sub.currentPeriodStart, sub.currentPeriodEnd⟩
  | .subscriptionUpdated sub =>
    ⟨stripeStatusToProto sub.status, some sub.cancelAtPeriodEnd, sub.currentPeriodStart,
      sub.currentPeriodEnd⟩
  | .subscriptionDeleted _ => ⟨some .canceled, none, none, none⟩
  | .invoicePaymentFailed _ => ⟨some .pastDue, none, none, none⟩
  | .other => ⟨none, none, none, none⟩

namespace SubscriptionRow

def apply (row : SubscriptionRow) (writes : RowWrites) : SubscriptionRow :=
  { row with
    status := writes.status.getD row.status
    cancelAtPeriodEnd := writes.cancelAtPeriodEnd.getD row.cancelAtPeriodEnd
    currentPeriodStart := writes.currentPeriodStart.getD row.currentPeriodStart
    currentPeriodEnd := writes.currentPeriodEnd.getD row.currentPeriodEnd }

/-- The commit of a session that loaded the row and set some attributes. -/
def flush (row loaded : SubscriptionRow) (writes : RowWrites) : SubscriptionRow :=
  let set := loaded.apply writes
  { row with
    status := if set.status = loaded.status then row.status else set.status
    cancelAtPeriodEnd :=
      if set.cancelAtPeriodEnd = loaded.cancelAtPeriodEnd then row.cancelAtPeriodEnd
      else set.cancelAtPeriodEnd
    currentPeriodStart :=
      if set.currentPeriodStart = loaded.currentPeriodStart then row.currentPeriodStart
      else set.currentPeriodStart
    currentPeriodEnd :=
      if set.currentPeriodEnd = loaded.currentPeriodEnd then row.currentPeriodEnd
      else set.currentPeriodEnd }

/-- A commit on the row as it was loaded writes what was set. -/
theorem flush_loaded (row : SubscriptionRow) (writes : RowWrites) :
    row.flush row writes = row.apply writes := by
  have hkept : ∀ {α : Type} [DecidableEq α] (set old : α), (if set = old then old else set) = set := by
    intro α _ set old
    split_ifs with h
    · exact h.symm
    · rfl
  simp only [flush, hkept]
  rfl

@[simp] theorem flush_stripeSubscriptionId (row loaded : SubscriptionRow) (writes : RowWrites) :
    (row.flush loaded writes).stripeSubscriptionId = row.stripeSubscriptionId := rfl

@[simp] theorem apply_stripeSubscriptionId (row : SubscriptionRow) (writes : RowWrites) :
    (row.apply writes).stripeSubscriptionId = row.stripeSubscriptionId := rfl

end SubscriptionRow

end LlamaTrade
