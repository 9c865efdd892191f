import LlamaTrade.OrderedReplay
import LlamaTrade.Subscriptions
import LlamaTrade.TransitionRuns

/-!
# The order of webhooks

Stripe delivers the events of a subscription in any order, more than once and to any replica
(`routers/webhooks.py`). Each replica remembers the ids of the events that it has handled; nothing
else keeps an old event from being applied after a newer one. The events are numbered in the order
in which they were created.
-/

namespace LlamaTrade

/-- An event as it is delivered. -/
structure StripeWebhook where
  id : String
  event : StripeEvent

/-- `_SEEN_EVENTS_MAX`. -/
def seenEventsMax : ℕ := 4096

/-- `_mark_event_seen`: the id is the last one, and the oldest ones fall out. -/
def markEventSeen (seen : List String) (id : String) : List String :=
  let moved := seen.erase id ++ [id]
  moved.drop (moved.length - seenEventsMax)

/-- Where a request waits: the row is loaded, or the row is written and the id not yet marked. -/
inductive WebhookPhase where
  | idle
  | handling (replica i : ℕ) (loaded : SubscriptionRow)
  | handled (replica i : ℕ)

structure WebhookWorld where
  row : SubscriptionRow
  /-- `_seen_event_ids` of each replica, the oldest first. -/
  seen : ℕ → List String
  tasks : ℕ → WebhookPhase
  /-- The events whose handlers have committed. -/
  applied : List ℕ

inductive WebhookAction where
  | deliver (t replica i : ℕ)
  | commit (t : ℕ)
  | mark (t : ℕ)
  /-- The handler raises, or the replica is lost. -/
  | fail (t : ℕ)

def WebhookWorld.setTask (w : WebhookWorld) (t : ℕ) (phase : WebhookPhase) : WebhookWorld :=
  { w with tasks := Function.update w.tasks t phase }

/-- What an event writes to the row with a given id of Stripe; the handler of an event of another
subscription finds another row. -/
def StripeEvent.writesTo (event : StripeEvent) (stripeId : Option String) : RowWrites :=
  if event.subscriptionId.isSome ∧ event.subscriptionId = stripeId then event.writes
  else ⟨none, none, none, none⟩

section Webhooks

variable (history : List StripeWebhook)

/-- What the event with a given number writes to the row. -/
def writesOf (stripeId : Option String) (i : ℕ) : RowWrites :=
  match history[i]? with
  | some webhook => webhook.event.writesTo stripeId
  | none => ⟨none, none, none, none⟩

/-- Apply the event with a given number. -/
def applyEventAt (stripeId : Option String) (row : SubscriptionRow) (i : ℕ) : SubscriptionRow :=
  row.apply (writesOf history stripeId i)

/-- Delivery of some of the events in the order of creation. -/
def replayed (row : SubscriptionRow) (delivered : List ℕ) : SubscriptionRow :=
  ((List.range history.length).filter (· ∈ delivered)).foldl
    (applyEventAt history row.stripeSubscriptionId) row

/-- Delivery of all events in the order of creation. -/
def deliveredInOrder (row : SubscriptionRow) : SubscriptionRow :=
  (List.range history.length).foldl (applyEventAt history row.stripeSubscriptionId) row

/-- One step of the system; `none` when it is not enabled. -/
def webhookStep (w : WebhookWorld) : WebhookAction → Option WebhookWorld
  | .deliver t replica i =>
    match w.tasks t, history[i]? with
    | .idle, some webhook =>
      if webhook.id ≠ "" ∧ webhook.id ∈ w.seen replica then
        some { w with
          seen := Function.update w.seen replica (markEventSeen (w.seen replica) webhook.id) }
      else some (w.setTask t (.handling replica i w.row))
    | _, _ => none
  | .commit t =>
    match w.tasks t with
    | .handling replica i loaded =>
      some { w.setTask t (.handled replica i) with
        row := w.row.flush loaded (writesOf history w.row.stripeSubscriptionId i)
        applied := i :: w.applied }
    | _ => none
  | .mark t =>
    match w.tasks t with
    | .handled replica i =>
      let id := (history[i]?.map StripeWebhook.id).getD ""
      some { w.setTask t .idle with
        seen := if id = "" then w.seen
          else Function.update w.seen replica (markEventSeen (w.seen replica) id) }
    | _ => none
  | .fail t => some (w.setTask t .idle)

/-- The two events do not set one attribute to different values. -/
def RowWrites.compatible (a b : RowWrites) : Bool :=
  (a.status.isNone ∨ b.status.isNone ∨ a.status = b.status) ∧
    (a.cancelAtPeriodEnd.isNone ∨ b.cancelAtPeriodEnd.isNone ∨
      a.cancelAtPeriodEnd = b.cancelAtPeriodEnd) ∧
    (a.currentPeriodStart.isNone ∨ b.currentPeriodStart.isNone ∨
      a.currentPeriodStart = b.currentPeriodStart) ∧
    (a.currentPeriodEnd.isNone ∨ b.currentPeriodEnd.isNone ∨
      a.currentPeriodEnd = b.currentPeriodEnd)

/-- A handler commits on the row as it has loaded it, and no event that was created later and sets
one of its attributes to another value has been applied before. -/
def webhookInOrder (w : WebhookWorld) : WebhookAction → Bool
  | .commit t =>
    match w.tasks t with
    | .handling _ i loaded =>
      loaded = w.row ∧ ∀ j ∈ w.applied, i < j →
        (writesOf history w.row.stripeSubscriptionId i).compatible
          (writesOf history w.row.stripeSubscriptionId j)
    | _ => true
  | _ => true

end Webhooks

/-- No event has been delivered. -/
structure WebhookWorld.New (w : WebhookWorld) : Prop where
  tasks : ∀ t, w.tasks t = .idle
  applied : w.applied = []

/-! ## Writes that commute -/

section Writes

variable {row : SubscriptionRow} {a b : RowWrites}

theorem getD_getD_comm {α : Type} {x y : Option α} {d : α}
    (h : x.isNone ∨ y.isNone ∨ x = y) : y.getD (x.getD d) = x.getD (y.getD d) := by
  cases x with
  | none => rfl
  | some u =>
    cases y with
    | none => rfl
    | some v =>
      have huv : u = v := by simpa using h
      rw [huv]

theorem SubscriptionRow.apply_comm (h : a.compatible b = true) :
    (row.apply a).apply b = (row.apply b).apply a := by
  simp only [RowWrites.compatible, decide_eq_true_eq] at h
  obtain ⟨hstatus, hcancel, hstart, hend⟩ := h
  simp only [SubscriptionRow.apply, getD_getD_comm hstatus, getD_getD_comm hcancel,
    getD_getD_comm hstart, getD_getD_comm hend]

theorem SubscriptionRow.apply_apply : (row.apply a).apply a = row.apply a := by
  obtain ⟨status, cancel, periodStart, periodEnd⟩ := a
  cases status <;> cases cancel <;> cases periodStart <;> cases periodEnd <;> rfl

end Writes

/-! ## Runs -/

section Runs

variable {history : List StripeWebhook} {row : SubscriptionRow} {w w' : WebhookWorld}
  {action : WebhookAction}

/-- The row is what the applied events give in the order of their creation. -/
structure OrderInvariant (history : List StripeWebhook) (row : SubscriptionRow)
    (w : WebhookWorld) : Prop where
  stripeId : w.row.stripeSubscriptionId = row.stripeSubscriptionId
  replay : w.row = replayed history row w.applied
  known : ∀ t replica i loaded, w.tasks t = .handling replica i loaded → i < history.length

/-- The invariant after a task has moved to a phase in which it waits for no commit. -/
theorem OrderInvariant.setTask (h : OrderInvariant history row w) {t : ℕ} {phase : WebhookPhase}
    (hphase : ∀ replica i loaded, phase = .handling replica i loaded → i < history.length)
    (hrow : w'.row = w.row) (happlied : w'.applied = w.applied)
    (htasks : w'.tasks = Function.update w.tasks t phase) : OrderInvariant history row w' := by
  refine ⟨by rw [hrow, h.stripeId], by rw [hrow, happlied, h.replay], fun u replica i loaded hu => ?_⟩
  rw [htasks] at hu
  by_cases hut : u = t
  · rw [hut, Function.update_self] at hu
    exact hphase replica i loaded hu
  · rw [Function.update_of_ne hut] at hu
    exact h.known u replica i loaded hu

theorem replayed_cons {i : ℕ} {applied : List ℕ} (hi : i < history.length)
    (hcompatible : ∀ j ∈ applied, i < j →
      (writesOf history row.stripeSubscriptionId i).compatible
        (writesOf history row.stripeSubscriptionId j) = true) :
    replayed history row (i :: applied) =
      applyEventAt history row.stripeSubscriptionId (replayed history row applied) i := by
  have hplace := @Replay.foldl_filter_insert _ _
    (applyEventAt history row.stripeSubscriptionId) i _ (List.range history.length)
    List.pairwise_lt_range (List.mem_range.mpr hi) (fun s => SubscriptionRow.apply_apply)
    (fun j => decide (j ∈ applied))
    (fun j _ hlt hj s => SubscriptionRow.apply_comm (hcompatible j (of_decide_eq_true hj) hlt)) row
  rw [replayed, replayed, ← hplace]
  congr 2
  funext j
  simp [Bool.decide_or]

theorem orderInvariant_step (hinv : OrderInvariant history row w)
    (hok : webhookInOrder history w action = true)
    (h : webhookStep history w action = some w') : OrderInvariant history row w' := by
  cases action with
  | deliver t replica i =>
    simp only [webhookStep] at h
    split at h
    next webhook hidle hget =>
      split_ifs at h with hseen <;> cases h
      · exact ⟨hinv.stripeId, hinv.replay, hinv.known⟩
      · refine hinv.setTask (fun _ _ _ hphase => ?_) rfl rfl rfl
        cases hphase
        exact (List.getElem?_eq_some_iff.mp hget).1
    next => cases h
  | commit t =>
    simp only [webhookStep] at h
    split at h <;> cases h
    next replica i loaded htask =>
      have hi := hinv.known t replica i loaded htask
      have hcond : loaded = w.row ∧ ∀ j ∈ w.applied, i < j →
          (writesOf history w.row.stripeSubscriptionId i).compatible
            (writesOf history w.row.stripeSubscriptionId j) = true := by
        simpa [webhookInOrder, htask] using hok
      obtain ⟨rfl, hcompatible⟩ := hcond
      have hcommitted : OrderInvariant history row
          { w with
            row := w.row.flush w.row (writesOf history w.row.stripeSubscriptionId i)
            applied := i :: w.applied } := by
        rw [hinv.stripeId] at hcompatible ⊢
        refine ⟨hinv.stripeId, ?_, hinv.known⟩
        rw [SubscriptionRow.flush_loaded, replayed_cons hi hcompatible, ← hinv.replay]
        rfl
      exact hcommitted.setTask (fun _ _ _ hphase => by cases hphase) rfl rfl rfl
  | mark t =>
    simp only [webhookStep] at h
    split at h <;> cases h
    exact hinv.setTask (fun _ _ _ hphase => by cases hphase) rfl rfl rfl
  | fail t =>
    cases h
    exact hinv.setTask (fun _ _ _ hphase => by cases hphase) rfl rfl rfl

theorem WebhookWorld.New.orderInvariant (h : w.New) : OrderInvariant history w.row w := by
  refine ⟨rfl, ?_, fun t replica i loaded ht => ?_⟩
  · simp [replayed, h.applied]
  · rw [h.tasks t] at ht
    cases ht

theorem foldl_keeps_canceled {stripeId : Option String} {is : List ℕ} {s : SubscriptionRow}
    (hlater : ∀ i ∈ is, (writesOf history stripeId i).status.getD .canceled = .canceled)
    (hs : s.status = .canceled) :
    (is.foldl (applyEventAt history stripeId) s).status = .canceled := by
  induction is generalizing s with
  | nil => exact hs
  | cons i is ih =>
    refine ih (fun j hj => hlater j (.tail _ hj)) ?_
    rw [applyEventAt, SubscriptionRow.apply, hs]
    exact hlater i List.mem_cons_self

theorem foldl_canceled {stripeId : Option String} {is : List ℕ} {s : SubscriptionRow} {d : ℕ}
    (hsorted : is.Pairwise (· < ·)) (hmem : d ∈ is)
    (hdeleted : (writesOf history stripeId d).status = some .canceled)
    (hlater : ∀ i ∈ is, d < i → (writesOf history stripeId i).status.getD .canceled = .canceled) :
    (is.foldl (applyEventAt history stripeId) s).status = .canceled := by
  induction is generalizing s with
  | nil => cases hmem
  | cons i is ih =>
    obtain ⟨hfirst, hsorted⟩ := List.pairwise_cons.mp hsorted
    rw [List.foldl_cons]
    rcases List.mem_cons.mp hmem with rfl | hmem
    · refine foldl_keeps_canceled (fun j hj => hlater j (.tail _ hj) (hfirst j hj)) ?_
      rw [applyEventAt, SubscriptionRow.apply, hdeleted]
      rfl
    · exact ih hsorted hmem fun j hj => hlater j (.tail _ hj)

/-- The status after a deletion, when nothing that was created later sets another one. -/
theorem replayed_status {applied : List ℕ} {d : ℕ} (hd : d < history.length)
    (hmem : d ∈ applied)
    (hdeleted : (writesOf history row.stripeSubscriptionId d).status = some .canceled)
    (hlater : ∀ i < history.length, d < i →
      (writesOf history row.stripeSubscriptionId i).status.getD .canceled = .canceled) :
    (replayed history row applied).status = .canceled := by
  refine foldl_canceled (List.pairwise_lt_range.filter _) ?_ hdeleted fun i hi hlt => ?_
  · exact List.mem_filter.mpr ⟨List.mem_range.mpr hd, decide_eq_true hmem⟩
  · exact hlater i (List.mem_range.mp (List.mem_filter.mp hi).1) hlt

/-- If every handler commits on the row as it has loaded it, and not after an event that was created
later and sets one of its attributes to another value, then, once every event was applied, the row is
the one that delivery in the order of creation gives, for every order of delivery, with duplicates
and over any number of replicas. A deleted subscription stays canceled from then on if no event that
was created after the deletion sets another status. -/
theorem webhook_order_irrelevant {actions : List WebhookAction} (hnew : w.New)
    (hmeets : Transition.Meets (webhookStep history)
      (fun w action => webhookInOrder history w action = true) w actions)
    (hrun : Transition.run (webhookStep history) w actions = some w') :
    ((∀ i < history.length, i ∈ w'.applied) → w'.row = deliveredInOrder history w.row) ∧
      ∀ d ∈ w'.applied, d < history.length →
        (writesOf history w.row.stripeSubscriptionId d).status = some .canceled →
        (∀ i < history.length, d < i →
          (writesOf history w.row.stripeSubscriptionId i).status.getD .canceled = .canceled) →
        w'.row.status = .canceled := by
  have hinv : OrderInvariant history w.row w' :=
    Transition.run_invariant (fun _ _ _ => orderInvariant_step) hnew.orderInvariant hmeets hrun
  refine ⟨fun hall => ?_, fun d hmem hd hdeleted hlater => ?_⟩
  · rw [hinv.replay, replayed, deliveredInOrder, List.filter_eq_self.mpr fun i hi => ?_]
    exact decide_eq_true (hall i (List.mem_range.mp hi))
  · rw [hinv.replay]
    exact replayed_status hd hmem hdeleted hlater

end Runs

namespace Sample

def stripeSub (status : String) (cancel : Bool) (periodStart periodEnd : ℤ) : StripeSubscription :=
  ⟨"sub_1", status, cancel, some periodStart, some periodEnd⟩

/-- A subscription that is renewed and then deleted. -/
def renewedThenDeleted : List StripeWebhook :=
  [⟨"evt_1", .subscriptionUpdated (stripeSub "active" false 100 200)⟩,
    ⟨"evt_2", .subscriptionDeleted "sub_1"⟩]

def trialRow : WebhookWorld where
  row := ⟨some "sub_1", .trialing, false, 0, 100⟩
  seen := fun _ => []
  tasks := fun _ => .idle
  applied := []

theorem trialRow_new : trialRow.New := ⟨fun _ => rfl, rfl⟩

/-- The update comes twice, to two replicas, before the deletion. -/
def deliveredTwice : List WebhookAction :=
  [.deliver 0 0 0, .commit 0, .mark 0, .deliver 1 1 0, .commit 1, .mark 1, .deliver 0 0 1, .commit 0]

/-- The update comes once more to a replica that has not seen it, after the deletion. -/
def redeliveredLate : List WebhookAction :=
  [.deliver 0 0 0, .commit 0, .mark 0, .deliver 0 0 1, .commit 0, .mark 0, .deliver 1 1 0, .commit 1]

end Sample

theorem webhook_order_irrelevant_twice :
    ∃ w', Transition.run (webhookStep Sample.renewedThenDeleted) Sample.trialRow
        Sample.deliveredTwice = some w' ∧
      w'.row = deliveredInOrder Sample.renewedThenDeleted Sample.trialRow.row := by
  obtain ⟨w', hrun, happlied⟩ := Option.map_eq_some_iff.mp
    (show (Transition.run (webhookStep Sample.renewedThenDeleted) Sample.trialRow
      Sample.deliveredTwice).map (·.applied) = some [1, 0, 0] by decide)
  refine ⟨w', hrun, (webhook_order_irrelevant Sample.trialRow_new (by decide) hrun).1 ?_⟩
  rw [happlied]
  decide

/-- Delivery in order leaves the subscription canceled; the late duplicate makes it active. -/
theorem deleted_subscription_revived :
    (Transition.run (webhookStep Sample.renewedThenDeleted) Sample.trialRow
        Sample.redeliveredLate).map (fun w => (w.row.status, w.applied)) =
        some (.active, [0, 1, 0]) ∧
      (deliveredInOrder Sample.renewedThenDeleted Sample.trialRow.row).status = .canceled := by
  decide

end LlamaTrade
