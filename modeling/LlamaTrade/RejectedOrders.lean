import LlamaTrade.ExecutorFacts

/-!
# Rejected orders are not live

A row is marked as rejected by the handler of everything that can go wrong in a submission, by
the recovery of stranded rows, and where the broker reports it. The broker has no working order
under a rejected row's client order id in every run in which the first two find the broker
without one and without a POST on its way, and no submission is resumed for a row that is
rejected or about to be.
-/

namespace LlamaTrade

/-- The client order id under which a task may still send a POST. -/
def ExecutorPhase.sends (hexdigest : String → String) : ExecutorPhase → Option String
  | .sending a _ _ => some (a.clientOrderId hexdigest)
  | .waiting a _ _ _ => some (a.clientOrderId hexdigest)
  | _ => none

namespace ExecutorWorld

variable (hexdigest : String → String) (w : ExecutorWorld)

/-- The broker has no order under the client order id and, but for a task and a POST, nobody
sends one. -/
structure Unsent (task token : Option ℕ) (c : String) : Prop where
  broker : ∀ order ∈ w.broker, order.clientOrderId ≠ some c
  wire : ∀ post ∈ w.wire, post.clientOrderId = some c → token = some post.token
  tasks : ∀ t, (w.tasks t).sends hexdigest = some c → task = some t

/-- The broker will never have a working order under the client order id. -/
def Settled (c : String) : Prop := w.Dead c ∨ w.Unsent hexdigest none none c

/-- A row with the client order id is rejected, or a task is about to reject it. -/
def Rejects (c : String) : Prop :=
  (∃ row ∈ w.rows, row.clientOrderId = c ∧ row.status = .rejected) ∨
    ∃ t, (w.tasks t).rejects hexdigest c

end ExecutorWorld

/-- A submission is given up, and a stranded row is not found, when nothing works at the broker
under the client order id or is on its way there; no submission is resumed for a row that is
rejected or about to be. -/
def RejectsSettled (hexdigest : String → String) (w : ExecutorWorld) : ExecutorAction → Prop
  | .fail t failure => ∀ a row, afterFailure failure (w.tasks t) = some (.rejecting a row) →
    w.Dead (a.clientOrderId hexdigest) ∨
      w.Unsent hexdigest (some t) none (a.clientOrderId hexdigest)
  | .handle token (.refuse failure) (some t) => ∀ a row,
    afterFailure failure (w.tasks t) = some (.rejecting a row) →
      w.Dead (a.clientOrderId hexdigest) ∨
        w.Unsent hexdigest (some t) (some token) (a.clientOrderId hexdigest)
  | .record t false => ∀ a row order, w.tasks t = .recording a row order →
    w.Dead (a.clientOrderId hexdigest)
  | .announce t false => ∀ a row, w.tasks t = .announcing a row →
    w.Dead (a.clientOrderId hexdigest)
  | .check t true _ => ∀ a row, w.tasks t = .checking a (some row) →
    ¬ w.Rejects hexdigest (a.clientOrderId hexdigest)
  | .recoverLookup t true => ∀ row todo seen, w.tasks t = .recovering (row :: todo) seen →
    w.orderByClientId row.clientOrderId = none →
      w.Unsent hexdigest none none row.clientOrderId
  | _ => True

section Settled

variable {hexdigest : String → String} {w w' : ExecutorWorld} {action : ExecutorAction}

theorem ExecutorWorld.Grows.dead (h : w.Grows w') {c : String} (hdead : w.Dead c) : w'.Dead c := by
  obtain ⟨order, horder, hc, hstatus⟩ := hdead
  obtain ⟨order', horder', -, hc', hstill⟩ := h.broker order horder
  exact ⟨order', horder', hc'.trans hc, hstill hstatus⟩

/-- Nobody sends a POST under the client order id of a leg. -/
theorem unsent_of_leg (hknown : ExecutorKnown hexdigest w) {id parent : UUID} {c : String}
    (hleg : (id, c, some parent) ∈ w.keys) : w.Unsent hexdigest none none c := by
  have hmain : ∀ id', ¬ w.MainAt id' c := by
    intro id' hat
    have hsame := hknown.key_eq_of_clientOrderId hleg hat rfl
    cases hsame
  constructor
  case broker =>
    intro order horder hc
    obtain ⟨id', hat⟩ := hknown.broker order horder c hc
    exact hmain id' hat
  case wire =>
    intro post hpost hc
    obtain ⟨id', hat⟩ := hknown.wire post hpost c hc
    exact absurd hat (hmain id')
  case tasks =>
    intro t hsends
    have hknows := hknown.tasks t
    cases hphase : w.tasks t with
    | sending a row tries =>
      rw [hphase] at hsends hknows
      cases hsends
      exact absurd hknows (hmain _)
    | waiting a row tries token =>
      rw [hphase] at hsends hknows
      cases hsends
      exact absurd hknows.1 (hmain _)
    | _ =>
      rw [hphase] at hsends
      cases hsends

theorem afterFailure_sends {failure : AlpacaFailure} {old new : ExecutorPhase} {c : String}
    (h : afterFailure failure old = some new) (hsends : new.sends hexdigest = some c) :
    old.sends hexdigest = some c := by
  unfold afterFailure at h
  split at h
  · split_ifs at h
    · cases h
      exact hsends
    · cases h
      cases hsends
  · split_ifs at h
    · cases h
      cases hsends
    · cases h
      cases hsends
  · cases h

theorem afterAnswer_sends {order : BrokerOrder} {old new : ExecutorPhase}
    (h : afterAnswer order old = some new) : new.sends hexdigest = none := by
  unfold afterAnswer at h
  split at h
  · cases h
    rfl
  · simp only at h
    split_ifs at h
    · cases h
      rfl
    · cases h
      rfl
  · cases h

/-- A task starts to send when it resumes a submission. -/
theorem local_sends {t : ℕ} {old new : ExecutorPhase} {writes : List (UUID × RowWrite)}
    {c : String} (h : LocalStep hexdigest w action t old new writes)
    (hsends : new.sends hexdigest = some c) :
    old.sends hexdigest = some c ∨ ∃ id a row, action = .check t true id ∧
      old = .checking a (some row) ∧ a.clientOrderId hexdigest = c := by
  cases h with
  | submit _ hphase =>
    obtain ⟨rfl, -⟩ | rfl := hphase
    · cases hsends
    · cases hsends
  | resume => exact .inr ⟨_, _, _, rfl, rfl, Option.some.inj hsends⟩
  | fail hphase => exact .inl (afterFailure_sends hphase hsends)
  | _ => cases hsends

/-- Where the senders come from after a step that sets one task. -/
theorem update_sends {tasks : ℕ → ExecutorPhase} {t t' : ℕ} {phase : ExecutorPhase} {c : String}
    (hold : ∀ t, (tasks t).sends hexdigest = some c → none = some t)
    (hphase : phase.sends hexdigest = some c → (tasks t).sends hexdigest = some c)
    (h : (Function.update tasks t phase t').sends hexdigest = some c) : none = some t' := by
  by_cases ht : t' = t
  · subst ht
    rw [Function.update_self] at h
    exact hold t' (hphase h)
  · rw [Function.update_of_ne ht] at h
    exact hold t' h

/-- Nothing is sent for a client order id of a row unless its submission is resumed. -/
theorem unsent_step (heffect : ExecutorEffect hexdigest w action w') {c : String}
    (hunsent : w.Unsent hexdigest none none c) (hrow : ∃ row ∈ w.rows, row.clientOrderId = c)
    (hresume : ∀ t id a row, action = .check t true id → w.tasks t = .checking a (some row) →
      a.clientOrderId hexdigest ≠ c) : w'.Unsent hexdigest none none c := by
  obtain ⟨hbroker, hwire, htasks⟩ := hunsent
  cases heffect with
  | @moved _ t phase writes h =>
    refine ⟨hbroker, hwire, fun t' => update_sends htasks fun hsends => ?_⟩
    obtain hold | ⟨id, a, row, haction, htask, hc⟩ := local_sends h hsends
    · exact hold
    · exact absurd hc (hresume t id a row haction htask)
  | @inserted t id a htask hnew =>
    refine ⟨hbroker, hwire, fun t' => update_sends htasks fun hsends => ?_⟩
    -- a new row would have the client order id of the old one
    obtain ⟨row, hrow, hc⟩ := hrow
    rw [ExecutorWorld.insertable, Bool.and_eq_true, decide_eq_true_eq, decide_eq_true_eq,
      List.map_append, List.map_append, List.nodup_append, List.nodup_append] at hnew
    have hfresh := hnew.2.2.2 _ (List.mem_map.mpr ⟨row, hrow, rfl⟩) _ (List.mem_singleton_self _)
    exact absurd (hc.trans (Option.some.inj hsends).symm) hfresh
  | legsCreated _ _ _ => exact ⟨hbroker, hwire, fun t' => update_sends htasks fun hsends => by cases hsends⟩
  | @posted t a row tries htask =>
    have hother : a.clientOrderId hexdigest ≠ c := by
      intro hc
      have hsends := htasks t (by rw [htask, ← hc]; rfl)
      cases hsends
    refine ⟨hbroker, fun post hpost hc => ?_, fun t' => update_sends htasks fun hsends => ?_⟩
    · obtain hold | hnew := List.mem_append.mp hpost
      · exact hwire post hold hc
      · rw [List.mem_singleton.mp hnew] at hc
        exact absurd (Option.some.inj hc) hother
    · exact absurd (Option.some.inj hsends) hother
  | legPosted htask =>
    refine ⟨hbroker, fun post hpost hc => ?_, fun t' => update_sends htasks fun hsends => by cases hsends⟩
    obtain hold | hnew := List.mem_append.mp hpost
    · exact hwire post hold hc
    · rw [List.mem_singleton.mp hnew] at hc
      cases hc
  | accepted post hpost htoken hnew htasks' =>
    refine ⟨fun order horder hc => ?_, fun p hp => hwire p (List.mem_of_mem_filter hp), ?_⟩
    · obtain hold | hadded := List.mem_append.mp horder
      · exact hbroker order hold hc
      · rw [List.mem_singleton.mp hadded] at hc
        cases hwire post hpost hc
    · obtain rfl | ⟨t, phase, -, -, hphase, rfl⟩ := htasks'
      · exact htasks
      · refine fun t' => update_sends htasks fun hsends => ?_
        rw [afterAnswer_sends hphase] at hsends
        cases hsends
  | refused post hpost htoken htasks' =>
    refine ⟨hbroker, fun p hp => hwire p (List.mem_of_mem_filter hp), ?_⟩
    obtain rfl | ⟨t, phase, -, -, hphase, rfl⟩ := htasks'
    · exact htasks
    · exact fun t' => update_sends htasks (afterFailure_sends hphase)
  | lost => exact ⟨hbroker, fun p hp => hwire p (List.mem_of_mem_filter hp), htasks⟩
  | changed _ =>
    refine ⟨fun order horder hc => ?_, hwire, htasks⟩
    obtain ⟨old, hold, rfl⟩ := List.mem_map.mp horder
    refine hbroker old hold ?_
    split_ifs at hc
    · exact hc
    · exact hc

theorem settled_step (heffect : ExecutorEffect hexdigest w action w') {c : String}
    (hsettled : w.Settled hexdigest c) (hrow : ∃ row ∈ w.rows, row.clientOrderId = c)
    (hresume : ∀ t id a row, action = .check t true id → w.tasks t = .checking a (some row) →
      a.clientOrderId hexdigest ≠ c) : w'.Settled hexdigest c := by
  obtain hdead | hunsent := hsettled
  · exact .inl ((executor_grows heffect).dead hdead)
  · exact .inr (unsent_step heffect hunsent hrow hresume)

/-- The rows that are rejected, or about to be, exist. -/
theorem row_of_rejects (hknown : ExecutorKnown hexdigest w) {c : String}
    (h : w.Rejects hexdigest c) : ∃ row ∈ w.rows, row.clientOrderId = c := by
  have hkey : ∀ {id parent}, (id, c, parent) ∈ w.keys → ∃ row ∈ w.rows, row.clientOrderId = c := by
    intro id parent hmem
    obtain ⟨row, hrow, hkey⟩ := List.mem_map.mp hmem
    exact ⟨row, hrow, congrArg (·.2.1) hkey⟩
  obtain ⟨row, hrow, hc, -⟩ | ⟨t, hrejects⟩ := h
  · exact ⟨row, hrow, hc⟩
  · have hknows := hknown.tasks t
    cases hphase : w.tasks t with
    | rejecting a row =>
      rw [hphase] at hrejects hknows
      have hc : a.clientOrderId hexdigest = c := hrejects
      subst hc
      exact hkey hknows
    | recovering todo seen =>
      rw [hphase] at hrejects hknows
      obtain ⟨row, hseen, hc⟩ := hrejects
      subst hc
      exact hkey (hknows.2 _ hseen).1
    | _ =>
      rw [hphase] at hrejects
      exact absurd hrejects id

/-! ## Steps -/

/-- What a rejection after a step rests on: one before it, an order that is dead or a leg, or a
decision that the step takes. -/
theorem local_rejects (hknown : ExecutorKnown hexdigest w) {t : ℕ} {phase : ExecutorPhase}
    {writes : List (UUID × RowWrite)} {c : String}
    (h : LocalStep hexdigest w action t (w.tasks t) phase writes)
    (hrejects : (w.commit t writes phase).Rejects hexdigest c) :
    w.Rejects hexdigest c ∨ w.Dead c ∨ (∃ id parent, (id, c, some parent) ∈ w.keys) ∨
      phase.rejects hexdigest c := by
  obtain ⟨row', hrow', hc, hstatus⟩ | ⟨t', hrejects⟩ := hrejects
  · obtain ⟨row, hrow, hkey, hfrom, -⟩ := mem_writeRows hrow'
    have hclient : row.clientOrderId = c := (congrArg (·.2.1) hkey).symm.trans hc
    obtain hsame | ⟨e, he, heid, hwritten⟩ := hfrom
    · exact .inl (.inl ⟨row, hrow, hclient, hsame ▸ hstatus⟩)
    · obtain ⟨c', parent, hmem, -, hrejected⟩ := local_writes (hknown.tasks t) h e he
      have hrowkey := hknown.key_eq hmem (mem_keys hrow) heid
      have hc' : c' = c := (congrArg (·.2.1) hrowkey).trans hclient
      subst hc'
      obtain hleg | hdead | htask := hrejected (hstatus ▸ hwritten)
      · obtain ⟨p, rfl⟩ := Option.ne_none_iff_exists'.mp hleg
        exact .inr (.inr (.inl ⟨e.1, p, hmem⟩))
      · exact .inr (.inl hdead)
      · exact .inl (.inr ⟨t, htask⟩)
  · by_cases ht : t' = t
    · subst ht
      rw [commit_tasks, Function.update_self] at hrejects
      exact .inr (.inr (.inr hrejects))
    · rw [commit_tasks, Function.update_of_ne ht] at hrejects
      exact .inl (.inr ⟨t', hrejects⟩)

/-- A task that gives up its own POST leaves nothing behind. -/
theorem unsent_of_given_up {t : ℕ} {token : Option ℕ} {phase : ExecutorPhase} {c : String}
    (hunsent : w.Unsent hexdigest (some t) token c) (hphase : phase.sends hexdigest = none)
    (hbroker : w'.broker = w.broker)
    (hwire : ∀ post ∈ w'.wire, post ∈ w.wire ∧ token ≠ some post.token)
    (htasks : w'.tasks = Function.update w.tasks t phase) : w'.Unsent hexdigest none none c := by
  refine ⟨hbroker ▸ hunsent.broker, fun post hpost hc => ?_, fun t' hsends => ?_⟩
  · exact absurd (hunsent.wire post (hwire post hpost).1 hc) (hwire post hpost).2
  · rw [htasks] at hsends
    by_cases ht : t' = t
    · subst ht
      rw [Function.update_self, hphase] at hsends
      cases hsends
    · rw [Function.update_of_ne ht] at hsends
      exact absurd (Option.some.inj (hunsent.tasks t' hsends)).symm ht

/-- What a failed POST decides on was its own submission. -/
theorem afterFailure_rejects {failure : AlpacaFailure} {old new : ExecutorPhase} {c : String}
    (h : afterFailure failure old = some new) (hrejects : new.rejects hexdigest c) :
    ∃ a row, new = .rejecting a row ∧ a.clientOrderId hexdigest = c := by
  unfold afterFailure at h
  split at h
  · split_ifs at h
    · cases h
      exact absurd hrejects id
    · cases h
      exact ⟨_, _, rfl, hrejects⟩
  · split_ifs at h
    · cases h
      exact absurd hrejects id
    · cases h
      exact absurd hrejects id
  · cases h

/-- A decision to reject that a task takes is about a client order id that is settled. -/
theorem local_decides {t : ℕ} {phase : ExecutorPhase} {writes : List (UUID × RowWrite)} {c : String}
    (hok : RejectsSettled hexdigest w action)
    (h : LocalStep hexdigest w action t (w.tasks t) phase writes)
    (hrejects : phase.rejects hexdigest c) :
    (w.tasks t).rejects hexdigest c ∨ w.Dead c ∨
      (w.commit t writes phase).Unsent hexdigest none none c := by
  generalize hold : w.tasks t = old at h
  cases h with
  | submit _ hphase =>
    obtain ⟨rfl, -⟩ | rfl := hphase
    · exact absurd hrejects id
    · exact absurd hrejects id
  | fail hphase =>
    obtain ⟨a, row, rfl, rfl⟩ := afterFailure_rejects hphase hrejects
    refine .inr ((hok a row (hold ▸ hphase)).imp_right fun hunsent => ?_)
    exact unsent_of_given_up hunsent rfl rfl (fun post hpost => ⟨hpost, nofun⟩) rfl
  | recordFails =>
    have hdead := hok _ _ _ hold
    exact .inr (.inl (hrejects ▸ hdead))
  | announceFails =>
    have hdead := hok _ _ hold
    exact .inr (.inl (hrejects ▸ hdead))
  | recover _ _ =>
    obtain ⟨row, hseen, -⟩ := hrejects
    cases hseen
  | @recoverLookup _ row todo seen =>
    obtain ⟨row', hseen, rfl⟩ := hrejects
    obtain hseen | hseen := List.mem_append.mp hseen
    · exact .inl ⟨row', hseen, rfl⟩
    · obtain ⟨rfl, hnone⟩ := Prod.mk.inj (List.mem_singleton.mp hseen)
      have hunsent := hok row' todo seen hold hnone.symm
      refine .inr (.inr ⟨hunsent.broker, hunsent.wire, fun t' => ?_⟩)
      exact update_sends hunsent.tasks nofun
  | recoverSkip => exact .inl hrejects
  | _ => exact absurd hrejects id

theorem afterAnswer_not_rejects {order : BrokerOrder} {old new : ExecutorPhase} {c : String}
    (h : afterAnswer order old = some new) : ¬ new.rejects hexdigest c := by
  unfold afterAnswer at h
  split at h
  · cases h
    exact id
  · simp only at h
    split_ifs at h
    · cases h
      exact id
    · cases h
      exact id
  · cases h

/-- What is rejected after a step that sets one task and writes no rejection. -/
theorem rejects_of_update {t : ℕ} {phase : ExecutorPhase} {c : String}
    (hrows : ∀ row ∈ w'.rows, row ∈ w.rows ∨ row.status ≠ .rejected)
    (htasks : w'.tasks = Function.update w.tasks t phase) (h : w'.Rejects hexdigest c) :
    w.Rejects hexdigest c ∨ phase.rejects hexdigest c := by
  obtain ⟨row, hrow, hc, hstatus⟩ | ⟨t', ht'⟩ := h
  · obtain hold | hnot := hrows row hrow
    · exact .inl (.inl ⟨row, hold, hc, hstatus⟩)
    · exact absurd hstatus hnot
  · rw [htasks] at ht'
    by_cases ht : t' = t
    · subst ht
      rw [Function.update_self] at ht'
      exact .inr ht'
    · rw [Function.update_of_ne ht] at ht'
      exact .inl (.inr ⟨t', ht'⟩)

/-- What a step preserves: whatever is rejected, or about to be, is settled. -/
theorem rejects_settled_step (hknown : ExecutorKnown hexdigest w)
    (hinv : ∀ c, w.Rejects hexdigest c → w.Settled hexdigest c)
    (hok : RejectsSettled hexdigest w action) (h : executorStep hexdigest w action = some w') :
    ∀ c, w'.Rejects hexdigest c → w'.Settled hexdigest c := by
  intro c hrejects
  have hknown' := hknown.step h
  have heffect := executorStep_effect h
  clear h
  have hgrows := executor_grows heffect
  -- what was rejected before stays settled: its submission is not resumed
  have hkept : w.Rejects hexdigest c → w'.Settled hexdigest c := by
    intro hbefore
    refine settled_step heffect (hinv c hbefore) (row_of_rejects hknown hbefore) ?_
    rintro t id a row rfl htask rfl
    exact hok a row htask hbefore
  have hfrom : ∀ {t : ℕ} {phase : ExecutorPhase},
      (∀ row ∈ w'.rows, row ∈ w.rows ∨ row.status ≠ .rejected) →
      w'.tasks = Function.update w.tasks t phase →
      (phase.rejects hexdigest c → (w.tasks t).rejects hexdigest c ∨ w'.Settled hexdigest c) →
      w'.Settled hexdigest c := by
    intro t phase hrows htasks hphase
    obtain hbefore | hdecided := rejects_of_update hrows htasks hrejects
    · exact hkept hbefore
    · obtain hbefore | hsettled := hphase hdecided
      · exact hkept (.inr ⟨t, hbefore⟩)
      · exact hsettled
  have hunchanged : w'.rows = w.rows → w'.tasks = w.tasks → w'.Settled hexdigest c := by
    intro hrows htasks
    refine hfrom (t := 0) (fun row hrow => .inl (hrows ▸ hrow)) ?_ .inl
    rw [htasks, Function.update_eq_self]
  cases heffect with
  | moved h =>
    obtain hbefore | hdead | ⟨id, parent, hleg⟩ | hdecided := local_rejects hknown h hrejects
    · exact hkept hbefore
    · exact .inl (hgrows.dead hdead)
    · exact .inr (unsent_of_leg hknown' (hgrows.keys hleg))
    · obtain hbefore | hdead | hunsent := local_decides hok h hdecided
      · exact hkept (.inr ⟨_, hbefore⟩)
      · exact .inl (hgrows.dead hdead)
      · exact .inr hunsent
  | inserted _ _ =>
    refine hfrom (fun row hrow => ?_) rfl (absurd · id)
    refine (List.mem_append.mp hrow).imp_right fun hnew => ?_
    rw [List.mem_singleton.mp hnew]
    exact nofun
  | legsCreated _ _ _ =>
    refine hfrom (fun row hrow => ?_) rfl (absurd · id)
    refine (List.mem_append.mp hrow).imp_right fun hnew => ?_
    obtain ⟨type, -, rfl⟩ := List.mem_map.mp hnew
    exact nofun
  | posted _ => exact hfrom (fun _ hrow => .inl hrow) rfl (absurd · id)
  | legPosted _ => exact hfrom (fun _ hrow => .inl hrow) rfl (absurd · id)
  | accepted _ _ _ _ htasks =>
    obtain rfl | ⟨t, phase, -, -, hphase, rfl⟩ := htasks
    · exact hunchanged rfl rfl
    · exact hfrom (fun _ hrow => .inl hrow) rfl fun hdecided =>
        absurd hdecided (afterAnswer_not_rejects hphase)
  | @refused token failure answers _ post hpost htoken htasks =>
    obtain rfl | ⟨t, phase, rfl, -, hphase, rfl⟩ := htasks
    · exact hunchanged rfl rfl
    · refine hfrom (fun _ hrow => .inl hrow) rfl fun hdecided => .inr ?_
      obtain ⟨a, row, rfl, rfl⟩ := afterFailure_rejects hphase hdecided
      obtain hdead | hunsent := hok a row hphase
      · exact .inl (hgrows.dead hdead)
      · refine .inr (unsent_of_given_up hunsent rfl rfl (fun p hp => ?_) rfl)
        obtain ⟨hmem, hne⟩ := List.mem_filter.mp hp
        exact ⟨hmem, fun heq => of_decide_eq_true hne (Option.some.inj heq).symm⟩
  | lost => exact hunchanged rfl rfl
  | changed _ => exact hunchanged rfl rfl

/-- No two orders of the broker share a client order id. -/
theorem SignalsKeyed.order_eq (hkeyed : SignalsKeyed hexdigest w) {order order' : BrokerOrder}
    {c : String} (horder : order ∈ w.broker) (horder' : order' ∈ w.broker)
    (hc : order.clientOrderId = some c) (hc' : order'.clientOrderId = some c) : order = order' := by
  have hpairs := List.pairwise_filterMap.mp hkeyed.unique
  have hsymm : Std.Symm fun (o o' : BrokerOrder) => ∀ b, o.clientOrderId = some b →
      ∀ b', o'.clientOrderId = some b' → b ≠ b' :=
    ⟨fun _ _ h b hb b' hb' heq => h b' hb' b hb heq.symm⟩
  by_contra hne
  exact hpairs.forall horder horder' hne c hc c hc' rfl

end Settled

/-- **Rejected orders are not live.** Start with no orders. In every run in which a submission
is given up, or a stranded row is not found, only when nothing works at the broker under its
client order id or is on its way there, and in which no submission of a row is resumed that is
rejected or about to be, the broker has no working, partially filled or filled order under the
client order id of a rejected row. -/
theorem rejected_orders_not_live (hexdigest : String → String) {w : ExecutorWorld}
    {actions : List ExecutorAction}
    (hmeets : Transition.Meets (executorStep hexdigest) (RejectsSettled hexdigest) .empty actions)
    (hrun : Transition.run (executorStep hexdigest) .empty actions = some w) :
    ∀ row ∈ w.rows, row.status = .rejected → ∀ order ∈ w.broker,
      order.clientOrderId = some row.clientOrderId → order.status.isDead = true := by
  obtain ⟨-, hkeyed, hsettled⟩ : ExecutorKnown hexdigest w ∧ SignalsKeyed hexdigest w ∧
      ∀ c, w.Rejects hexdigest c → w.Settled hexdigest c := by
    refine Transition.run_invariant (I := fun w => ExecutorKnown hexdigest w ∧
      SignalsKeyed hexdigest w ∧ ∀ c, w.Rejects hexdigest c → w.Settled hexdigest c)
      (fun w action w' hinv hok hstep => ?_) ⟨ExecutorKnown.empty, SignalsKeyed.empty, ?_⟩
      hmeets hrun
    · exact ⟨hinv.1.step hstep, hinv.2.1.step hstep,
        rejects_settled_step hinv.1 hinv.2.2 hok hstep⟩
    · rintro c (⟨row, hrow, -⟩ | ⟨t, ht⟩)
      · cases hrow
      · exact absurd ht id
  intro row hrow hstatus order horder hc
  obtain ⟨dead, hdead, hdeadc, hisDead⟩ | hunsent :=
    hsettled row.clientOrderId (.inl ⟨row, hrow, rfl, hstatus⟩)
  · rw [hkeyed.order_eq horder hdead hc hdeadc]
    exact hisDead
  · exact absurd hc (hunsent.broker order horder)

namespace Sample

/-- A signal whose POST is on its way. -/
def sentSignal : List ExecutorAction :=
  [.submit 0 spySignal, .find 0, .check 0 true spyRow, .post 0]

/-- The broker refuses the order. -/
def refusedSignal : List ExecutorAction :=
  sentSignal ++ [.handle 0 (.refuse .invalidRequest) (some 0), .reject 0]

/-- The broker takes the order, but its answer times out; it then refuses the POST that is sent
again as a duplicate. -/
def duplicateSignal : List ExecutorAction :=
  sentSignal ++ [.handle 0 (.accept "b1" .accepted (.finite false 0 0) none) none,
    .fail 0 .timeout, .post 0, .handle 1 (.refuse .symbolNotFound) (some 0), .reject 0]

end Sample

/-- An order that the broker refuses is rejected. -/
theorem rejected_orders_not_live_refused :
    ∃ w, Transition.run (executorStep Sample.spyDigest) .empty Sample.refusedSignal = some w ∧
      w.rows.map (·.status) = [.rejected] ∧
      ∀ row ∈ w.rows, row.status = .rejected → ∀ order ∈ w.broker,
        order.clientOrderId = some row.clientOrderId → order.status.isDead = true := by
  have hmeets : Transition.Meets (executorStep Sample.spyDigest) (RejectsSettled Sample.spyDigest)
      .empty Sample.refusedSignal := by
    iterate 2 refine Transition.meets_cons rfl trivial ?_
    refine Transition.meets_cons rfl (fun a row h => ?_) ?_
    · have htask : ExecutorPhase.checking Sample.spySignal none = .checking a (some row) := h
      cases htask
    refine Transition.meets_cons rfl trivial ?_
    refine Transition.meets_cons rfl (fun a row _ => .inr ⟨?_, ?_, ?_⟩) ?_
    · exact fun _ horder => absurd horder List.not_mem_nil
    · intro post hpost _
      rw [List.mem_singleton.mp hpost]
      rfl
    · intro t hsends
      by_cases ht : t = 0
      · rw [ht]
      · simp [ExecutorWorld.setTask, ExecutorWorld.send, ExecutorWorld.empty, ExecutorPhase.sends,
          ht] at hsends
    · exact Transition.meets_cons rfl trivial trivial
  obtain ⟨w, hrun, hrows⟩ : ∃ w, Transition.run (executorStep Sample.spyDigest) .empty
      Sample.refusedSignal = some w ∧ w.rows.map (·.status) = [.rejected] := ⟨_, rfl, rfl⟩
  exact ⟨w, hrun, hrows, rejected_orders_not_live Sample.spyDigest hmeets hrun⟩

/-- An order whose answer is lost works at the broker and is rejected in the table. -/
theorem duplicate_signal_rejected_live :
    ∃ w, Transition.run (executorStep Sample.spyDigest) .empty Sample.duplicateSignal = some w ∧
      ¬ ∀ row ∈ w.rows, row.status = .rejected → ∀ order ∈ w.broker,
        order.clientOrderId = some row.clientOrderId → order.status.isDead = true := by
  refine ⟨_, rfl, ?_⟩
  decide

end LlamaTrade
