import LlamaTrade.Subscriptions
import LlamaTrade.TransitionRuns

/-!
# Live subscriptions

The subscriptions of one tenant, with the requests and the webhooks that write them
(`services/billing_service.py`, `routers/webhooks.py`). A request that changes a subscription reads
it, asks Stripe and commits. Every lookup expects at most one row and raises when it finds more;
no constraint of the table and no check of `create_subscription` keeps a tenant to one live row.
-/

namespace LlamaTrade

/-- `scalar_one_or_none`. -/
def scalarOneOrNone {α : Type} : List α → Except PyError (Option α)
  | [] => .ok none
  | [x] => .ok (some x)
  | _ => .error (.service .database "Multiple rows were found when one or none was required")

/-- Where a request waits, with the place of its row and the row as it was loaded. -/
inductive BillingPhase where
  | idle
  | updating (i : ℕ) (loaded : SubscriptionRow)
  | canceling (i : ℕ) (loaded : SubscriptionRow) (atPeriodEnd : Bool)
  | reactivating (i : ℕ) (loaded : SubscriptionRow)
  | handling (i : ℕ) (loaded : SubscriptionRow) (event : StripeEvent)

structure BillingWorld where
  /-- The rows of the tenant, in the order of their creation. -/
  rows : List SubscriptionRow
  tasks : ℕ → BillingPhase

inductive BillingAction where
  /-- `create_subscription` on the free plan. -/
  | createFree (periodStart periodEnd : ℤ)
  /-- `create_subscription` on a paid plan, with the subscription that Stripe has created. -/
  | createPaid (stripeId status : String) (cancel : Bool) (periodStart periodEnd : ℤ)
  | update (t : ℕ)
  /-- Stripe has answered the update. -/
  | commitUpdate (t : ℕ) (status : String) (periodStart periodEnd : ℤ)
  | cancel (t : ℕ) (atPeriodEnd : Bool)
  | commitCancel (t : ℕ)
  | reactivate (t : ℕ)
  | commitReactivate (t : ℕ)
  | deliver (t : ℕ) (event : StripeEvent)
  | commitWebhook (t : ℕ)
  /-- A request raises, or its process is lost. -/
  | leave (t : ℕ)

namespace BillingWorld

variable (w : BillingWorld)

def setTask (t : ℕ) (phase : BillingPhase) : BillingWorld :=
  { w with tasks := Function.update w.tasks t phase }

/-- The rows that a query selects, with their places. -/
def select (p : SubscriptionRow → Bool) : List (SubscriptionRow × ℕ) :=
  w.rows.zipIdx.filter fun row => p row.1

/-- A request that goes on with the one row of a query, if there is one. -/
def begin (t : ℕ) (p : SubscriptionRow → Bool) (phase : SubscriptionRow → ℕ → BillingPhase) :
    Option BillingWorld :=
  match w.tasks t, scalarOneOrNone (w.select p) with
  | .idle, .ok (some (row, i)) => some (w.setTask t (phase row i))
  | .idle, _ => some w
  | _, _ => none

/-- The commit of a request on the row at a place. -/
def commit (t i : ℕ) (loaded : SubscriptionRow) (writes : RowWrites) : BillingWorld :=
  match w.rows[i]? with
  | some row => { w.setTask t .idle with rows := w.rows.set i (row.flush loaded writes) }
  | none => w.setTask t .idle

/-- `get_subscription`: the newest row first. -/
def getSubscription : Except PyError (Option SubscriptionRow) :=
  scalarOneOrNone (w.rows.filter fun row => row.status.isLive).reverse

end BillingWorld

/-- The rows that `update_subscription` and `cancel_subscription` look for. -/
def SubscriptionRow.isActive (row : SubscriptionRow) : Bool :=
  row.status = .active ∨ row.status = .trialing

/-- A status of Stripe that is unknown at the creation is stored as past due. -/
def createdStatus (status : String) : SubscriptionStatus :=
  (stripeStatusToProto status).getD .pastDue

def cancelWrites (atPeriodEnd : Bool) : RowWrites :=
  if atPeriodEnd then ⟨none, some true, none, none⟩ else ⟨some .canceled, none, none, none⟩

/-- One step of the system; `none` when it is not enabled. -/
def billingStep (w : BillingWorld) : BillingAction → Option BillingWorld
  | .createFree periodStart periodEnd =>
    some { w with rows := w.rows ++ [⟨none, .active, false, periodStart, periodEnd⟩] }
  | .createPaid stripeId status cancel periodStart periodEnd =>
    some { w with
      rows := w.rows ++ [⟨some stripeId, createdStatus status, cancel, periodStart, periodEnd⟩] }
  | .update t =>
    w.begin t SubscriptionRow.isActive fun row i =>
      -- a subscription without Stripe cannot be updated
      if row.stripeSubscriptionId.isSome then .updating i row else .idle
  | .commitUpdate t status periodStart periodEnd =>
    match w.tasks t with
    | .updating i loaded =>
      some (w.commit t i loaded
        ⟨stripeStatusToProto status, none, some periodStart, some periodEnd⟩)
    | _ => none
  | .cancel t atPeriodEnd =>
    w.begin t SubscriptionRow.isActive fun row i => .canceling i row atPeriodEnd
  | .commitCancel t =>
    match w.tasks t with
    | .canceling i loaded atPeriodEnd => some (w.commit t i loaded (cancelWrites atPeriodEnd))
    | _ => none
  | .reactivate t =>
    w.begin t (fun row => row.cancelAtPeriodEnd && row.isActive) fun row i => .reactivating i row
  | .commitReactivate t =>
    match w.tasks t with
    | .reactivating i loaded => some (w.commit t i loaded ⟨none, some false, none, none⟩)
    | _ => none
  | .deliver t event =>
    w.begin t (fun row => event.subscriptionId.isSome && row.stripeSubscriptionId = event.subscriptionId)
      fun row i => .handling i row event
  | .commitWebhook t =>
    match w.tasks t with
    | .handling i loaded event => some (w.commit t i loaded event.writes)
    | _ => none
  | .leave t => some (w.setTask t .idle)

/-! ## One live row -/

/-- The number of live rows. -/
def BillingWorld.live (w : BillingWorld) : ℕ := w.rows.countP fun row => row.status.isLive

/-- No row but the one at a place is live. -/
def BillingWorld.othersEnded (w : BillingWorld) (i : ℕ) : Bool :=
  (w.rows.eraseIdx i).all fun row => !row.status.isLive

/-- A new row that is live finds no live row, and a live status is written only to a row beside which
no other is live. -/
def writesLiveAlone (w : BillingWorld) : BillingAction → Bool
  | .createFree _ _ => w.live = 0
  | .createPaid _ status _ _ _ => (createdStatus status).isLive → w.live = 0
  | .commitUpdate t status _ _ =>
    match w.tasks t with
    | .updating i _ => (stripeStatusToProto status).any SubscriptionStatus.isLive → w.othersEnded i
    | _ => true
  | .commitWebhook t =>
    match w.tasks t with
    | .handling i _ event => event.writes.status.any SubscriptionStatus.isLive → w.othersEnded i
    | _ => true
  | _ => true

section OneLive

variable {w w' : BillingWorld} {action : BillingAction} {t i : ℕ} {row loaded : SubscriptionRow}
  {writes : RowWrites}

/-- A commit makes a row live only by writing a live status. -/
theorem flush_isLive (h : (row.flush loaded writes).status.isLive = true) :
    row.status.isLive = true ∨ writes.status.any SubscriptionStatus.isLive = true := by
  have hflush : (row.flush loaded writes).status =
      if (loaded.apply writes).status = loaded.status then row.status
      else (loaded.apply writes).status := rfl
  rw [hflush] at h
  split_ifs at h with hsame
  · exact .inl h
  · right
    have hset : (loaded.apply writes).status = writes.status.getD loaded.status := rfl
    rw [hset] at h hsame
    cases hstatus : writes.status with
    | none => exact absurd (by rw [hstatus]; rfl) hsame
    | some status =>
      rw [hstatus] at h
      exact h

theorem countP_set_eraseIdx {α : Type} {p : α → Bool} {xs : List α} {x : α} (hi : i < xs.length) :
    (xs.set i x).countP p = (xs.eraseIdx i).countP p + if p x then 1 else 0 := by
  rw [List.set_eq_take_append_cons_drop, if_pos hi, List.eraseIdx_eq_take_drop_succ,
    List.countP_append, List.countP_append, List.countP_cons]
  omega

theorem BillingWorld.othersEnded_iff :
    w.othersEnded i = true ↔ ((w.rows.eraseIdx i).countP fun row => row.status.isLive) = 0 := by
  simp [BillingWorld.othersEnded, List.countP_eq_zero]

/-- A commit that writes a live status only alone leaves at most one live row. -/
theorem commit_live (hone : w.live ≤ 1)
    (halone : writes.status.any SubscriptionStatus.isLive = true → w.othersEnded i = true) :
    (w.commit t i loaded writes).live ≤ 1 := by
  unfold BillingWorld.commit
  split
  next row hrow =>
    obtain ⟨hi, hget⟩ := List.getElem?_eq_some_iff.mp hrow
    have hcount : ∀ x, (w.rows.set i x).countP (fun row => row.status.isLive) =
        ((w.rows.eraseIdx i).countP fun row => row.status.isLive) + if x.status.isLive then 1 else 0 :=
      fun x => countP_set_eraseIdx hi
    have hold := hcount row
    rw [← hget, List.set_getElem_self hi, hget] at hold
    rw [BillingWorld.live] at hone ⊢
    rw [hcount]
    by_cases hlive : (row.flush loaded writes).status.isLive = true
    · rcases flush_isLive hlive with hrow | hwrites
      · rw [if_pos hrow] at hold
        rw [if_pos hlive]
        omega
      · rw [BillingWorld.othersEnded_iff.mp (halone hwrites), if_pos hlive]
    · rw [if_neg hlive]
      omega
  · exact hone

/-- A request that only reads leaves the rows alone. -/
theorem begin_rows {p : SubscriptionRow → Bool} {phase : SubscriptionRow → ℕ → BillingPhase}
    (h : w.begin t p phase = some w') : w'.rows = w.rows := by
  unfold BillingWorld.begin at h
  split at h <;> cases h <;> rfl

theorem live_step (hone : w.live ≤ 1) (hok : writesLiveAlone w action = true)
    (h : billingStep w action = some w') : w'.live ≤ 1 := by
  have hread : w'.rows = w.rows → w'.live ≤ 1 := fun hrows => by
    rw [BillingWorld.live, hrows]
    exact hone
  cases action with
  | createFree periodStart periodEnd =>
    cases h
    have hnone : w.live = 0 := by simpa [writesLiveAlone] using hok
    rw [BillingWorld.live] at hnone ⊢
    rw [List.countP_append, hnone]
    exact Nat.le_refl 1
  | createPaid stripeId status cancel periodStart periodEnd =>
    cases h
    have hnone : (createdStatus status).isLive = true → w.live = 0 := by
      simpa only [writesLiveAlone, decide_eq_true_eq] using hok
    rw [BillingWorld.live] at hnone hone ⊢
    rw [List.countP_append, List.countP_singleton]
    by_cases hlive : (createdStatus status).isLive = true
    · rw [hnone hlive, if_pos hlive]
    · rw [if_neg hlive]
      omega
  | update t => exact hread (begin_rows h)
  | commitUpdate t status periodStart periodEnd =>
    simp only [billingStep] at h
    split at h <;> cases h
    next i loaded htask =>
      refine commit_live hone fun hlive => ?_
      simp only [writesLiveAlone, htask, decide_eq_true_eq] at hok
      exact hok hlive
  | cancel t atPeriodEnd => exact hread (begin_rows h)
  | commitCancel t =>
    simp only [billingStep] at h
    split at h <;> cases h
    next i loaded atPeriodEnd htask =>
      refine commit_live hone fun hlive => ?_
      cases atPeriodEnd <;> cases hlive
  | reactivate t => exact hread (begin_rows h)
  | commitReactivate t =>
    simp only [billingStep] at h
    split at h <;> cases h
    exact commit_live hone nofun
  | deliver t event => exact hread (begin_rows h)
  | commitWebhook t =>
    simp only [billingStep] at h
    split at h <;> cases h
    next i loaded event htask =>
      refine commit_live hone fun hlive => ?_
      simp only [writesLiveAlone, htask, decide_eq_true_eq] at hok
      exact hok hlive
  | leave t =>
    cases h
    exact hone

/-- With at most one live row the lookup does not raise. -/
theorem getSubscription_isOk (hone : w.live ≤ 1) : ∃ sub, w.getSubscription = .ok sub := by
  rw [BillingWorld.live, List.countP_eq_length_filter, ← List.length_reverse] at hone
  unfold BillingWorld.getSubscription
  generalize (w.rows.filter fun row => row.status.isLive).reverse = found at hone
  match found with
  | [] => exact ⟨none, rfl⟩
  | [row] => exact ⟨some row, rfl⟩
  | _ :: _ :: rest =>
    rw [List.length_cons, List.length_cons] at hone
    omega

/-- If a live row is only created when the tenant has none, and a live status is only written beside
no other live row, then a tenant never has two live rows, and the lookup never raises. -/
theorem one_live_subscription {actions : List BillingAction} (hnew : w.rows = [])
    (hmeets : Transition.Meets billingStep (fun w action => writesLiveAlone w action = true) w actions)
    (hrun : Transition.run billingStep w actions = some w') :
    w'.live ≤ 1 ∧ ∃ sub, w'.getSubscription = .ok sub := by
  have hinit : w.live ≤ 1 := by simp [BillingWorld.live, hnew]
  have hone : w'.live ≤ 1 :=
    Transition.run_invariant (fun _ _ _ => live_step) hinit hmeets hrun
  exact ⟨hone, getSubscription_isOk hone⟩

end OneLive

namespace Sample

def noSubscriptions : BillingWorld := ⟨[], fun _ => .idle⟩

/-- A paid subscription is canceled at once, and the tenant goes back to the free plan. -/
def backToFree : List BillingAction :=
  [.createPaid "sub_1" "trialing" false 0 100,
    .deliver 0 (.subscriptionUpdated ⟨"sub_1", "active", false, some 100, some 200⟩), .commitWebhook 0,
    .cancel 1 false, .commitCancel 1, .createFree 150 9999]

end Sample

theorem one_live_subscription_back_to_free :
    ∃ w', Transition.run billingStep Sample.noSubscriptions Sample.backToFree = some w' ∧
      w'.live ≤ 1 ∧ ∃ sub, w'.getSubscription = .ok sub := by
  obtain ⟨w', hrun⟩ := Option.isSome_iff_exists.mp
    (show (Transition.run billingStep Sample.noSubscriptions Sample.backToFree).isSome = true by
      decide)
  exact ⟨w', hrun, one_live_subscription rfl (by decide) hrun⟩

/-- A tenant on the free plan subscribes to a paid one. -/
theorem two_live_subscriptions :
    (Transition.run billingStep Sample.noSubscriptions
      [.createFree 0 9999, .createPaid "sub_1" "active" false 10 110]).map (fun w =>
        (w.live, w.getSubscription.toOption)) = some (2, none) := by
  decide

end LlamaTrade
