import LlamaTrade.ExecutorSteps
import LlamaTrade.TransitionRuns
import Mathlib.Data.List.Nodup

/-!
# Orders are submitted once

A signal's POST always carries the signal's client order id, and the broker takes an id once:
no run creates two orders for a signal. A bracket leg is sent without an id. It is created once
if no two tasks place the legs of one parent, and if a POST that is sent again never arrives
beside the one before it.
-/

namespace LlamaTrade

/-! ## What has been sent -/

/-- The POSTs for a purpose that have reached the broker or may reach it. -/
def ExecutorWorld.placed (w : ExecutorWorld) (purpose : Purpose) : ℕ :=
  w.broker.countP (·.purpose = purpose) + w.wire.countP (·.purpose = purpose)

/-- The parent whose legs a task is sending. -/
def ExecutorPhase.placing : ExecutorPhase → Option UUID
  | .sendingLeg job _ _ => some job.parent.id
  | .waitingLeg job _ _ _ => some job.parent.id
  | _ => none

/-- The legs that a task has not finished with. -/
def ExecutorPhase.legsLeft : ExecutorPhase → List BracketType
  | .sendingLeg _ legs _ => legs.map (·.1)
  | .waitingLeg _ legs _ _ => legs.map (·.1)
  | _ => []

/-- The legs that a task has never sent. -/
def ExecutorPhase.unsent : ExecutorPhase → List BracketType
  | .sendingLeg _ legs tries => if tries = 0 then legs.map (·.1) else (legs.map (·.1)).tail
  | .waitingLeg _ legs _ _ => (legs.map (·.1)).tail
  | _ => []

/-- The legs of a parent are placed when none of them has been sent and no other task is
placing them, and the POST of a leg is sent again when the one before it was lost on its way. -/
def LegsPlacedOnce (w : ExecutorWorld) : ExecutorAction → Prop
  | .createLegs t ok _ _ =>
    match w.tasks t with
    | .handlingFills ⟨parent :: _, _⟩ => ok = true →
      (∀ type, w.placed (.leg parent.id type) = 0) ∧ ∀ t', (w.tasks t').placing ≠ some parent.id
    | _ => True
  | .post t =>
    match w.tasks t with
    | .sendingLeg job (leg :: _) (_ + 1) => w.placed (.leg job.parent.id leg.1) = 0
    | _ => True
  | _ => True

section Placed

variable {hexdigest : String → String} {w w' : ExecutorWorld} {action : ExecutorAction}

@[simp] theorem placed_setTask (t : ℕ) (phase : ExecutorPhase) (purpose : Purpose) :
    (w.setTask t phase).placed purpose = w.placed purpose := rfl

@[simp] theorem placed_commit (t : ℕ) (writes : List (UUID × RowWrite)) (phase : ExecutorPhase)
    (purpose : Purpose) : (w.commit t writes phase).placed purpose = w.placed purpose := rfl

theorem placed_send (t : ℕ) (clientOrderId : Option String) (sent purpose : Purpose)
    (phase : ℕ → ExecutorPhase) : (w.send t clientOrderId sent phase).placed purpose =
      w.placed purpose + if sent = purpose then 1 else 0 := by
  simp only [ExecutorWorld.placed, ExecutorWorld.send, ExecutorWorld.setTask, List.countP_append,
    List.countP_singleton, decide_eq_true_eq]
  omega

/-- A POST that is taken from the wire is not counted there any more. -/
theorem countP_filter_token {wire : List Submission} {post : Submission} (hpost : post ∈ wire)
    (purpose : Purpose) :
    (wire.filter (·.token ≠ post.token)).countP (·.purpose = purpose) +
      (if post.purpose = purpose then 1 else 0) ≤ wire.countP (·.purpose = purpose) := by
  rw [List.countP_eq_countP_filter_add wire (·.purpose = purpose) (·.token ≠ post.token)]
  gcongr
  split_ifs with hpurpose
  · refine List.countP_pos_iff.mpr ⟨post, ?_, decide_eq_true hpurpose⟩
    simpa using hpost
  · exact Nat.zero_le _

theorem countP_filter_token_le (wire : List Submission) (token : ℕ) (purpose : Purpose) :
    (wire.filter (·.token ≠ token)).countP (·.purpose = purpose) ≤
      wire.countP (·.purpose = purpose) :=
  List.filter_sublist.countP_le

theorem countP_changed (id : String) (status : AlpacaStatus) (filledQty : Decimal)
    (filledAvgPrice : Option Decimal) (purpose : Purpose) (orders : List BrokerOrder) :
    (orders.map fun order =>
      if order.id = id then { order with status, filledQty, filledAvgPrice } else order).countP
        (·.purpose = purpose) = orders.countP (·.purpose = purpose) := by
  rw [List.countP_map]
  congr 1
  funext order
  simp only [Function.comp_apply]
  split_ifs <;> rfl

/-- Only the sending of a POST adds to what has been sent for a purpose. -/
theorem placed_le (heffect : ExecutorEffect hexdigest w action w')
    (hpost : ∀ t, action ≠ .post t) (purpose : Purpose) : w'.placed purpose ≤ w.placed purpose := by
  cases heffect with
  | moved _ => exact le_rfl
  | inserted _ _ => exact le_rfl
  | legsCreated _ _ _ => exact le_rfl
  | posted _ => exact absurd rfl (hpost _)
  | legPosted _ => exact absurd rfl (hpost _)
  | accepted post hmem htoken _ _ =>
    subst htoken
    have hwire := countP_filter_token hmem purpose
    simp only [ExecutorWorld.placed, List.countP_append, List.countP_singleton, decide_eq_true_eq]
    omega
  | refused _ _ _ _ =>
    have hwire := countP_filter_token_le w.wire ‹_› purpose
    simp only [ExecutorWorld.placed]
    omega
  | lost =>
    have hwire := countP_filter_token_le w.wire ‹_› purpose
    simp only [ExecutorWorld.placed]
    omega
  | changed _ =>
    simp only [ExecutorWorld.placed, countP_changed]
    exact le_rfl

end Placed

/-! ## Tasks -/

/-- A task goes on with the legs it was sending, or sends none. -/
def LegsShrink (old new : ExecutorPhase) : Prop :=
  new.placing = none ∨
    (new.placing = old.placing ∧ new.legsLeft.Sublist old.legsLeft ∧ new.unsent ⊆ old.unsent)

section Shrinking

variable {hexdigest : String → String} {w w' : ExecutorWorld} {action : ExecutorAction}

theorem LegsShrink.refl (phase : ExecutorPhase) : LegsShrink phase phase :=
  .inr ⟨rfl, List.Sublist.refl _, fun _ h => h⟩

theorem afterFailure_shrinks {failure : AlpacaFailure} {old new : ExecutorPhase}
    (h : afterFailure failure old = some new) : LegsShrink old new := by
  unfold afterFailure at h
  split at h
  · split_ifs at h
    · cases h
      exact .inl rfl
    · cases h
      exact .inl rfl
  · split_ifs at h
    · cases h
      exact .inr ⟨rfl, List.Sublist.refl _, fun _ h => h⟩
    · cases h
      exact .inl rfl
  · cases h

theorem afterAnswer_shrinks {order : BrokerOrder} {old new : ExecutorPhase}
    (h : afterAnswer order old = some new) : LegsShrink old new := by
  unfold afterAnswer at h
  split at h
  · cases h
    exact .inl rfl
  · simp only at h
    split_ifs at h
    · cases h
      exact .inl rfl
    · cases h
      exact .inr ⟨rfl, List.sublist_cons_self _ _, fun _ h => h⟩
  · cases h

theorem local_shrinks {t : ℕ} {old new : ExecutorPhase} {writes : List (UUID × RowWrite)}
    (h : LocalStep hexdigest w action t old new writes) : LegsShrink old new := by
  cases h with
  | submit _ hphase =>
    obtain ⟨rfl, -⟩ | rfl := hphase
    · exact .inl rfl
    · exact .inl rfl
  | fail hphase => exact afterFailure_shrinks hphase
  | _ => exact .inl rfl

theorem update_shrinks {tasks : ℕ → ExecutorPhase} {t : ℕ} {phase : ExecutorPhase}
    (h : LegsShrink (tasks t) phase) (t' : ℕ) :
    LegsShrink (tasks t') (Function.update tasks t phase t') := by
  by_cases ht : t' = t
  · subst ht
    rwa [Function.update_self]
  · rw [Function.update_of_ne ht]
    exact LegsShrink.refl _

/-- Only the creation of legs gives a task legs to send, and only a POST sends one. -/
theorem tasks_shrink (heffect : ExecutorEffect hexdigest w action w')
    (hpost : ∀ t, action ≠ .post t) (hcreate : ∀ t id c, action ≠ .createLegs t true id c) (t : ℕ) :
    LegsShrink (w.tasks t) (w'.tasks t) := by
  cases heffect with
  | moved h => exact update_shrinks (local_shrinks h) t
  | inserted _ _ => exact update_shrinks (.inl rfl) t
  | legsCreated _ _ _ => exact absurd rfl (hcreate _ _ _)
  | posted _ => exact absurd rfl (hpost _)
  | legPosted _ => exact absurd rfl (hpost _)
  | accepted _ _ _ _ htasks =>
    obtain rfl | ⟨t', phase, -, -, hphase, rfl⟩ := htasks
    · exact LegsShrink.refl _
    · exact update_shrinks (afterAnswer_shrinks hphase) t
  | refused _ _ _ htasks =>
    obtain rfl | ⟨t', phase, -, -, hphase, rfl⟩ := htasks
    · exact LegsShrink.refl _
    · exact update_shrinks (afterFailure_shrinks hphase) t
  | lost => exact LegsShrink.refl _
  | changed _ => exact LegsShrink.refl _

end Shrinking

/-! ## Legs -/

/-- A leg has been sent at most once; the legs of a parent are sent by one task; and what the
task has not sent, nobody has. -/
structure LegsOnce (w : ExecutorWorld) : Prop where
  once : ∀ parent type, w.placed (.leg parent type) ≤ 1
  distinct : ∀ t, (w.tasks t).legsLeft.Nodup
  alone : ∀ {t t' parent}, (w.tasks t).placing = some parent → (w.tasks t').placing = some parent →
    t = t'
  fresh : ∀ {t parent}, (w.tasks t).placing = some parent → ∀ type ∈ (w.tasks t).unsent,
    w.placed (.leg parent type) = 0

section Legs

variable {hexdigest : String → String} {w w' : ExecutorWorld} {action : ExecutorAction}

theorem legsLeft_eq_nil {phase : ExecutorPhase} (h : phase.placing = none) : phase.legsLeft = [] := by
  cases phase <;> first | rfl | cases h

/-- The invariant survives steps that send nothing and take up no legs. -/
theorem LegsOnce.shrink (hinv : LegsOnce w)
    (hplaced : ∀ purpose, w'.placed purpose ≤ w.placed purpose)
    (htasks : ∀ t, LegsShrink (w.tasks t) (w'.tasks t)) : LegsOnce w' := by
  have hplacing : ∀ {t parent}, (w'.tasks t).placing = some parent →
      (w.tasks t).placing = some parent ∧ (w'.tasks t).unsent ⊆ (w.tasks t).unsent := by
    intro t parent ht
    obtain hnone | ⟨hsame, -, hunsent⟩ := htasks t
    · rw [hnone] at ht
      cases ht
    · exact ⟨hsame ▸ ht, hunsent⟩
  constructor
  case once => exact fun parent type => (hplaced _).trans (hinv.once parent type)
  case distinct =>
    intro t
    obtain hnone | ⟨-, hleft, -⟩ := htasks t
    · rw [legsLeft_eq_nil hnone]
      exact List.nodup_nil
    · exact hleft.nodup (hinv.distinct t)
  case alone => exact fun ht ht' => hinv.alone (hplacing ht).1 (hplacing ht').1
  case fresh =>
    intro t parent ht type htype
    have hzero := hinv.fresh (hplacing ht).1 type ((hplacing ht).2 htype)
    have hle := hplaced (.leg parent type)
    omega

theorem purpose_ne_leg (a : OrderAttempt) (parent : UUID) (type : BracketType) :
    a.purpose ≠ .leg parent type := by
  unfold OrderAttempt.purpose
  split
  · exact nofun
  · exact nofun

/-- The POST of an order is not one of a leg. -/
theorem LegsOnce.posted (hinv : LegsOnce w) {t tries : ℕ} {a : OrderAttempt} {row : UUID}
    (clientOrderId : Option String) :
    LegsOnce (w.send t clientOrderId a.purpose (.waiting a row tries)) := by
  have hplaced : ∀ parent type,
      (w.send t clientOrderId a.purpose (.waiting a row tries)).placed (.leg parent type) =
        w.placed (.leg parent type) := by
    intro parent type
    rw [placed_send, if_neg (purpose_ne_leg a parent type), Nat.add_zero]
  have htasks : LegsOnce (w.setTask t (.waiting a row tries w.nextToken)) :=
    hinv.shrink (fun _ => le_rfl) (update_shrinks (.inl rfl))
  constructor
  case once => exact fun parent type => (hplaced parent type).trans_le (hinv.once parent type)
  case distinct => exact htasks.distinct
  case alone => exact htasks.alone
  case fresh => exact fun ht type htype => (hplaced _ type).trans (htasks.fresh ht type htype)

/-- The POST of a leg that nobody has sent. -/
theorem LegsOnce.legPosted (hinv : LegsOnce w) {t tries : ℕ} {job : LegJob}
    {leg : BracketType × UUID} {legs : List (BracketType × UUID)}
    (htask : w.tasks t = .sendingLeg job (leg :: legs) tries)
    (hzero : w.placed (.leg job.parent.id leg.1) = 0) :
    LegsOnce (w.send t none (.leg job.parent.id leg.1) (.waitingLeg job (leg :: legs) tries)) := by
  have hplacing : (w.tasks t).placing = some job.parent.id := by rw [htask]; rfl
  have hdistinct : (leg.1 :: legs.map (·.1)).Nodup := by
    have h := hinv.distinct t
    rwa [htask] at h
  have hshrinks : LegsShrink (w.tasks t) (.waitingLeg job (leg :: legs) tries w.nextToken) := by
    rw [htask]
    refine .inr ⟨rfl, List.Sublist.refl _, fun type htype => ?_⟩
    change type ∈ legs.map (·.1) at htype
    simp only [ExecutorPhase.unsent, List.map_cons, List.tail_cons]
    split_ifs
    · exact List.mem_cons_of_mem _ htype
    · exact htype
  have htasks : LegsOnce (w.setTask t (.waitingLeg job (leg :: legs) tries w.nextToken)) :=
    hinv.shrink (fun _ => le_rfl) (update_shrinks hshrinks)
  constructor
  case once =>
    intro parent type
    rw [placed_send]
    split_ifs with heq
    · rw [← heq, hzero]
    · exact hinv.once parent type
  case distinct => exact htasks.distinct
  case alone => exact htasks.alone
  case fresh =>
    intro t' parent ht type htype
    have hfresh := htasks.fresh ht type htype
    rw [placed_send, if_neg]
    · exact hfresh
    · intro heq
      obtain ⟨rfl, rfl⟩ := Purpose.leg.inj heq
      have hself : t' = t := htasks.alone ht (by simp [ExecutorWorld.setTask, ExecutorPhase.placing])
      subst hself
      have hmem : leg.1 ∈ legs.map (·.1) := by
        simpa [ExecutorWorld.send, ExecutorWorld.setTask, ExecutorPhase.unsent] using htype
      exact (List.nodup_cons.mp hdistinct).1 hmem

theorem legTypes_nodup (parent : OrderRow) : (legTypes parent).Nodup := by
  unfold legTypes
  split_ifs <;> decide

/-- A task takes up the legs of a parent that nobody has sent or is sending. -/
theorem LegsOnce.created (hinv : LegsOnce w) {t : ℕ} {parent : OrderRow} {rest : SyncTail}
    {id : BracketType → UUID} {rows : List OrderRow}
    (hzero : ∀ type, w.placed (.leg parent.id type) = 0)
    (halone : ∀ t', (w.tasks t').placing ≠ some parent.id) :
    LegsOnce { w.setTask t (.sendingLeg
        ⟨parent, (legTypes parent).map fun type => (type, id type), [], rest⟩
        ((legTypes parent).map fun type => (type, id type)) 0) with rows := rows } := by
  have htypes : ((legTypes parent).map fun type => (type, id type)).map (·.1) = legTypes parent := by
    rw [List.map_map]
    exact List.map_id _
  constructor
  case once => exact hinv.once
  case distinct =>
    intro t'
    by_cases ht : t' = t
    · subst ht
      simp only [ExecutorWorld.setTask, Function.update_self, ExecutorPhase.legsLeft, htypes]
      exact legTypes_nodup parent
    · simp only [ExecutorWorld.setTask, Function.update_of_ne ht]
      exact hinv.distinct t'
  case alone =>
    intro t₁ t₂ p h₁ h₂
    by_cases ht₁ : t₁ = t
    · by_cases ht₂ : t₂ = t
      · exact ht₁.trans ht₂.symm
      · subst ht₁
        simp only [ExecutorWorld.setTask, Function.update_self, ExecutorPhase.placing,
          Option.some.injEq] at h₁
        simp only [ExecutorWorld.setTask, Function.update_of_ne ht₂, ← h₁] at h₂
        exact absurd h₂ (halone t₂)
    · by_cases ht₂ : t₂ = t
      · subst ht₂
        simp only [ExecutorWorld.setTask, Function.update_self, ExecutorPhase.placing,
          Option.some.injEq] at h₂
        simp only [ExecutorWorld.setTask, Function.update_of_ne ht₁, ← h₂] at h₁
        exact absurd h₁ (halone t₁)
      · simp only [ExecutorWorld.setTask, Function.update_of_ne ht₁] at h₁
        simp only [ExecutorWorld.setTask, Function.update_of_ne ht₂] at h₂
        exact hinv.alone h₁ h₂
  case fresh =>
    intro t' p hp type htype
    by_cases ht : t' = t
    · subst ht
      simp only [ExecutorWorld.setTask, Function.update_self, ExecutorPhase.placing,
        Option.some.injEq] at hp
      exact hp ▸ hzero type
    · simp only [ExecutorWorld.setTask, Function.update_of_ne ht] at hp htype
      exact hinv.fresh hp type htype

/-- What one step does to the invariant of the legs. -/
theorem LegsOnce.step (hinv : LegsOnce w) (hok : LegsPlacedOnce w action)
    (h : executorStep hexdigest w action = some w') : LegsOnce w' := by
  have heffect := executorStep_effect h
  by_cases hpost : ∃ t, action = .post t
  · obtain ⟨t, rfl⟩ := hpost
    cases heffect with
    | moved hstep =>
      exact hinv.shrink (fun _ => le_rfl) (update_shrinks (local_shrinks hstep))
    | posted _ => exact hinv.posted _
    | @legPosted _ job leg legs tries htask =>
      refine hinv.legPosted htask ?_
      cases tries with
      | zero =>
        refine hinv.fresh (t := t) (by rw [htask]; rfl) leg.1 ?_
        rw [htask]
        exact List.mem_cons_self ..
      | succ n =>
        simp only [LegsPlacedOnce, htask] at hok
        exact hok
  · by_cases hcreate : ∃ t id c, action = .createLegs t true id c
    · obtain ⟨t, id, c, rfl⟩ := hcreate
      cases heffect with
      | moved hstep =>
        exact hinv.shrink (fun _ => le_rfl) (update_shrinks (local_shrinks hstep))
      | legsCreated _ htask _ =>
        simp only [LegsPlacedOnce, htask] at hok
        exact hinv.created (hok trivial).1 (hok trivial).2
    · push Not at hpost hcreate
      exact hinv.shrink (placed_le heffect hpost) (tasks_shrink heffect hpost hcreate)

theorem LegsOnce.empty : LegsOnce .empty :=
  ⟨fun _ _ => Nat.zero_le 1, fun _ => List.nodup_nil, nofun, nofun⟩

end Legs

/-! ## Signals -/

/-- The POSTs and orders of a signal carry its client order id, and no two orders share one. -/
structure SignalsKeyed (hexdigest : String → String) (w : ExecutorWorld) : Prop where
  wire : ∀ post ∈ w.wire, ∀ key, post.purpose = .signal key →
    post.clientOrderId = some (generateDeterministicOrderId hexdigest key)
  broker : ∀ order ∈ w.broker, ∀ key, order.purpose = .signal key →
    order.clientOrderId = some (generateDeterministicOrderId hexdigest key)
  unique : (w.broker.filterMap (·.clientOrderId)).Nodup

section Signals

variable {hexdigest : String → String} {w w' : ExecutorWorld} {action : ExecutorAction}

theorem purpose_clientOrderId {a : OrderAttempt} {key : SignalKey} (h : a.purpose = .signal key) :
    a.clientOrderId hexdigest = generateDeterministicOrderId hexdigest key := by
  unfold OrderAttempt.purpose at h
  unfold OrderAttempt.clientOrderId
  split at h
  · cases h
    rfl
  · cases h

/-- An order that the broker accepts has a client order id that no other order has. -/
theorem acceptable_fresh {post : Submission} {id clientOrderId : String}
    (h : w.acceptable post id = true) (hid : post.clientOrderId = some clientOrderId) :
    clientOrderId ∉ w.broker.filterMap (·.clientOrderId) := by
  unfold ExecutorWorld.acceptable at h
  rw [hid, Bool.and_eq_true] at h
  intro hmem
  obtain ⟨order, horder, hsame⟩ := List.mem_filterMap.mp hmem
  have hnone := List.find?_eq_none.mp (of_decide_eq_true h.2) order horder
  exact hnone (decide_eq_true hsame)

theorem filterMap_changed (id : String) (status : AlpacaStatus) (filledQty : Decimal)
    (filledAvgPrice : Option Decimal) (orders : List BrokerOrder) :
    (orders.map fun order => if order.id = id then { order with status, filledQty, filledAvgPrice }
      else order).filterMap (·.clientOrderId) = orders.filterMap (·.clientOrderId) := by
  rw [List.filterMap_map]
  congr 1
  funext order
  simp only [Function.comp_apply]
  split_ifs <;> rfl

theorem SignalsKeyed.step (hinv : SignalsKeyed hexdigest w)
    (h : executorStep hexdigest w action = some w') : SignalsKeyed hexdigest w' := by
  have heffect := executorStep_effect h
  clear h
  have hfilter : ∀ {token}, ∀ post ∈ w.wire.filter (·.token ≠ token), ∀ key,
      post.purpose = .signal key →
        post.clientOrderId = some (generateDeterministicOrderId hexdigest key) :=
    fun post hpost => hinv.wire post (List.mem_of_mem_filter hpost)
  cases heffect with
  | moved _ => exact ⟨hinv.wire, hinv.broker, hinv.unique⟩
  | inserted _ _ => exact ⟨hinv.wire, hinv.broker, hinv.unique⟩
  | legsCreated _ _ _ => exact ⟨hinv.wire, hinv.broker, hinv.unique⟩
  | posted _ =>
    refine ⟨fun post hpost key hkey => ?_, hinv.broker, hinv.unique⟩
    obtain hpost | hpost := List.mem_append.mp hpost
    · exact hinv.wire post hpost key hkey
    · cases List.mem_singleton.mp hpost
      exact congrArg some (purpose_clientOrderId hkey)
  | legPosted _ =>
    refine ⟨fun post hpost key hkey => ?_, hinv.broker, hinv.unique⟩
    obtain hpost | hpost := List.mem_append.mp hpost
    · exact hinv.wire post hpost key hkey
    · cases List.mem_singleton.mp hpost
      cases hkey
  | accepted post hpost _ hnew _ =>
    refine ⟨hfilter, fun order horder key hkey => ?_, ?_⟩
    · obtain horder | horder := List.mem_append.mp horder
      · exact hinv.broker order horder key hkey
      · cases List.mem_singleton.mp horder
        exact hinv.wire post hpost key hkey
    · rw [List.filterMap_append]
      cases hid : post.clientOrderId with
      | none => simpa [hid] using hinv.unique
      | some clientOrderId =>
        simp only [List.filterMap_cons, List.filterMap_nil]
        rw [List.nodup_append]
        refine ⟨hinv.unique, List.nodup_singleton _, fun c hc c' hc' heq => ?_⟩
        rw [List.mem_singleton.mp hc'] at heq
        exact acceptable_fresh hnew hid (heq ▸ hc)
  | refused _ _ _ _ => exact ⟨hfilter, hinv.broker, hinv.unique⟩
  | lost => exact ⟨hfilter, hinv.broker, hinv.unique⟩
  | changed _ =>
    refine ⟨hinv.wire, fun order horder key hkey => ?_, ?_⟩
    · obtain ⟨old, hold, rfl⟩ := List.mem_map.mp horder
      split_ifs at hkey ⊢
      · exact hinv.broker old hold key hkey
      · exact hinv.broker old hold key hkey
    · rw [filterMap_changed]
      exact hinv.unique

theorem SignalsKeyed.empty : SignalsKeyed hexdigest .empty :=
  ⟨fun _ hpost => absurd hpost List.not_mem_nil, fun _ horder => absurd horder List.not_mem_nil,
    List.nodup_nil⟩

/-- Orders that share a client order id are one order. -/
theorem SignalsKeyed.once (hinv : SignalsKeyed hexdigest w) (key : SignalKey) :
    w.broker.countP (·.purpose = .signal key) ≤ 1 := by
  have hle : w.broker.countP (·.purpose = .signal key) ≤
      (w.broker.filterMap (·.clientOrderId)).count (generateDeterministicOrderId hexdigest key) := by
    rw [List.count_eq_countP, List.countP_filterMap]
    refine List.countP_mono_left fun order horder hpurpose => ?_
    rw [hinv.broker order horder key (of_decide_eq_true hpurpose)]
    simp
  exact hle.trans (List.nodup_iff_count_le_one.mp hinv.unique _)

end Signals

/-- **Orders are submitted once.** Start with no orders, and let any number of tasks submit,
replay, recover and sync, crash anywhere, and lose any answer. The broker never has two orders
for one signal. If moreover the legs of a parent are placed once, it never has two stop losses
or two take profits for one parent. -/
theorem orders_submitted_once (hexdigest : String → String) {w : ExecutorWorld}
    {actions : List ExecutorAction}
    (hrun : Transition.run (executorStep hexdigest) .empty actions = some w) :
    (∀ key, w.broker.countP (·.purpose = .signal key) ≤ 1) ∧
      (Transition.Meets (executorStep hexdigest) LegsPlacedOnce .empty actions →
        ∀ parent type, w.broker.countP (·.purpose = .leg parent type) ≤ 1) := by
  refine ⟨?_, fun hmeets => ?_⟩
  · have hany : Transition.Meets (executorStep hexdigest) (fun _ _ => True) .empty actions :=
      Transition.meets_of_forall (fun _ _ _ => trivial) _
    have hkeyed : SignalsKeyed hexdigest w :=
      Transition.run_invariant (fun _ _ _ hinv _ hstep => hinv.step hstep) SignalsKeyed.empty hany hrun
    exact hkeyed.once
  · intro parent type
    have hlegs : LegsOnce w :=
      Transition.run_invariant (fun _ _ _ hinv hok hstep => hinv.step hok hstep) LegsOnce.empty
        hmeets hrun
    exact (Nat.le_add_right _ _).trans (hlegs.once parent type)

namespace Sample

/-- A signal to buy SPY with a stop loss. -/
def spySignal : OrderAttempt where
  tenantId := 2
  sessionId := 21
  symbol := "SPY"
  side := .buy
  qty := .finite false 10 0
  stopLossPrice := some (.finite false 45 0)
  takeProfitPrice := none
  sleeveId := none
  accountId := none
  key := .signal ⟨2024, 5, 1, 14, 30, 0, 0, true⟩

/-- The digest of the signal's key. -/
def spyDigest : String → String :=
  fun _ => "9c0b8e1c70114e36e405e4bb0399532e60c0ad33544e09346db57ca6154ef372"

def spyRow : UUID := 20

/-- The signal is submitted, filled and synced; the sync is about to place the stop loss. -/
def filledSignal : List ExecutorAction :=
  [.submit 0 spySignal, .find 0, .check 0 true spyRow, .post 0,
    .handle 0 (.accept "b1" .accepted (.finite false 0 0) none) (some 0),
    .record 0 true, .announce 0 true,
    .move "b1" .filled (.finite false 10 0) (some (.finite false 50 0)),
    .syncAll 0 2 21, .fetch 0 spyRow true, .syncCommit 0,
    .createLegs 0 true (fun _ => 30) (fun _ => 31), .post 0]

/-- The broker takes the stop loss. -/
def placedLeg : List ExecutorAction :=
  [.handle 1 (.accept "b2" .accepted (.finite false 0 0) none) (some 0), .recordLegs 0 true]

/-- The broker takes the stop loss, but its answer times out, and the POST is sent again. -/
def retriedLeg : List ExecutorAction :=
  [.handle 1 (.accept "b2" .accepted (.finite false 0 0) none) none, .fail 0 .timeout, .post 0,
    .handle 2 (.accept "b3" .accepted (.finite false 0 0) none) (some 0), .recordLegs 0 true]

end Sample

/-- A signal is filled, and its stop loss is placed without an incident. -/
theorem orders_submitted_once_filled_signal :
    ∃ w, Transition.run (executorStep Sample.spyDigest) .empty
        (Sample.filledSignal ++ Sample.placedLeg) = some w ∧ w.broker.length = 2 ∧
      (∀ key, w.broker.countP (·.purpose = .signal key) ≤ 1) ∧
      ∀ parent type, w.broker.countP (·.purpose = .leg parent type) ≤ 1 := by
  have hmeets : Transition.Meets (executorStep Sample.spyDigest) LegsPlacedOnce .empty
      (Sample.filledSignal ++ Sample.placedLeg) := by
    iterate 11 refine Transition.meets_cons rfl trivial ?_
    refine Transition.meets_cons rfl (fun _ => ⟨fun type => rfl, fun t => ?_⟩) ?_
    · by_cases ht : t = 0
      · subst ht
        intro hplacing
        cases hplacing
      · simp [ExecutorWorld.commit, ExecutorWorld.setTask, ExecutorWorld.send, ExecutorWorld.empty,
          ExecutorPhase.placing, ht]
    · iterate 3 refine Transition.meets_cons rfl trivial ?_
      trivial
  obtain ⟨w, hrun, hlength⟩ : ∃ w, Transition.run (executorStep Sample.spyDigest) .empty
      (Sample.filledSignal ++ Sample.placedLeg) = some w ∧ w.broker.length = 2 := ⟨_, rfl, rfl⟩
  have honce := orders_submitted_once Sample.spyDigest hrun
  exact ⟨w, hrun, hlength, honce.1, honce.2 hmeets⟩

/-- A stop loss whose answer is lost is placed twice. -/
theorem retried_leg_placed_twice :
    ∃ w, Transition.run (executorStep Sample.spyDigest) .empty
        (Sample.filledSignal ++ Sample.retriedLeg) = some w ∧
      w.broker.countP (·.purpose = .leg Sample.spyRow .stopLoss) = 2 ∧
      ¬ ∀ parent type, w.broker.countP (·.purpose = .leg parent type) ≤ 1 := by
  refine ⟨_, rfl, by decide, fun h => ?_⟩
  exact absurd (h Sample.spyRow .stopLoss) (by decide)

end LlamaTrade
