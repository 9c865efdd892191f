import LlamaTrade.FundedExecutions

/-!
# Stranded sleeves

The sleeve of an execution that has ended is closed by the stop or later by the sweep, which
finds it through `sleeve_id`. Where an execution ends without a `sleeve_id` only when it has no
open sleeve and nothing is about to open one, no sleeve is left behind: it is closed, or its
execution is not over, or the sweep finds it. A start whose answer is lost leaves a funded
sleeve that the row knows nothing of, and the archive of the strategy then ends the execution
as one that was never funded.
-/

namespace LlamaTrade

/-- A request between the check of `start_execution` and its commit. -/
def ExecutionPhase.Starts : ExecutionPhase → Prop
  | .starting _ _ | .funding _ _ | .allocating _ _ | .recordingStart _ _ => True
  | _ => False

/-- Nothing is about to open the sleeve of the execution. -/
def ExecutionWorld.Unfunding (w : ExecutionWorld) : Prop :=
  (∀ t, ¬(w.tasks t).Starts) ∧ ∀ inFlight ∈ w.wire, ∀ amount, inFlight.call ≠ .allocate amount

/-- An execution that ends without a `sleeve_id` has no open sleeve, and gets none. -/
def EndsReleased (terms : ExecutionTerms) (w : ExecutionWorld) : ExecutionAction → Prop
  | .commitStop _ | .cancel _ => w.row.sleeveId = none →
      (∀ s ∈ sleevesOf terms.executionId w.db, s.2 = true) ∧
        (sleevesOf terms.executionId w.db = [] → w.Unfunding)
  | _ => True

def ExecutionStatus.IsOver (status : ExecutionStatus) : Prop :=
  status ≠ .pending ∧ status ≠ .running ∧ status ≠ .paused

/-- The execution's sleeve is closed, or it has none and gets none. -/
def ExecutionWorld.Released (w : ExecutionWorld) (sleeve : Option (UUID × Bool)) : Prop :=
  (∃ id, sleeve = some (id, true)) ∨ sleeve = none ∧ w.Unfunding

/-- The sleeve stays the execution's, and stays closed. -/
def SleeveLater (sleeve sleeve' : Option (UUID × Bool)) : Prop :=
  ∀ id closed, sleeve = some (id, closed) → ∃ closed', sleeve' = some (id, closed') ∧
    (closed = true → closed' = true)

/-- What a request knows of the sleeve, and that its call was sent. -/
def ExecutionPhase.Knows (sleeve : Option (UUID × Bool)) (nextToken : ℕ) : ExecutionPhase → Prop
  | .recordingStart _ (some id) => ∃ closed, sleeve = some (id, closed)
  | .clearing => ∃ id, sleeve = some (id, true)
  | .allocating _ token | .closing token => token < nextToken
  | _ => True

def LedgerCall.Knows (sleeve : Option (UUID × Bool)) : LedgerCall → Prop
  | .allocate _ => True
  | .close _ id _ => ∃ closed, sleeve = some (id, closed)

def LedgerCall.IsClose : LedgerCall → Prop
  | .allocate _ => False
  | .close _ _ _ => True

/-- The row, the requests and the calls know the sleeve of the execution. -/
structure SleeveTracked (terms : ExecutionTerms) (w : ExecutionWorld) (sleeve : Option (UUID × Bool)) :
    Prop where
  sleeveIs : SleeveIs terms w.db sleeve
  row : ∀ id, w.row.sleeveId = some id →
    w.row.accountId = some terms.account ∧ ∃ closed, sleeve = some (id, closed)
  tasks : ∀ t, (w.tasks t).Knows sleeve w.nextToken
  calls : ∀ c ∈ w.wire, c.token < w.nextToken ∧ c.call.Knows sleeve
  closing : ∀ c ∈ w.wire, ∀ t, w.tasks t = .closing c.token → c.call.IsClose
  ended : w.row.status.IsOver → w.row.sleeveId = none → w.Released sleeve

section Later

variable {sleeve sleeve' : Option (UUID × Bool)}

theorem SleeveLater.refl : SleeveLater sleeve sleeve :=
  fun _ closed h => ⟨closed, h, id⟩

theorem SleeveLater.known (h : SleeveLater sleeve sleeve') {id : UUID}
    (hsome : ∃ closed, sleeve = some (id, closed)) : ∃ closed, sleeve' = some (id, closed) := by
  obtain ⟨closed, hsome⟩ := hsome
  obtain ⟨closed', hsome', -⟩ := h id closed hsome
  exact ⟨closed', hsome'⟩

theorem SleeveLater.closed (h : SleeveLater sleeve sleeve') (hclosed : ∃ id, sleeve = some (id, true)) :
    ∃ id, sleeve' = some (id, true) := by
  obtain ⟨id, hclosed⟩ := hclosed
  obtain ⟨closed', hsome', hkept⟩ := h id true hclosed
  rw [hkept rfl] at hsome'
  exact ⟨id, hsome'⟩

theorem ExecutionPhase.Knows.later {phase : ExecutionPhase} {next next' : ℕ}
    (h : phase.Knows sleeve next) (hlater : SleeveLater sleeve sleeve') (hnext : next ≤ next') :
    phase.Knows sleeve' next' := by
  cases phase with
  | recordingStart loaded answer =>
    cases answer with
    | none => trivial
    | some id => exact hlater.known h
  | clearing => exact hlater.closed h
  | allocating loaded token => exact lt_of_lt_of_le h hnext
  | closing token => exact lt_of_lt_of_le h hnext
  | _ => trivial

theorem LedgerCall.Knows.later {call : LedgerCall} (h : call.Knows sleeve)
    (hlater : SleeveLater sleeve sleeve') : call.Knows sleeve' := by
  cases call with
  | allocate amount => trivial
  | close account id reason => exact hlater.known h

theorem knows_update {tasks : ℕ → ExecutionPhase} {next : ℕ} (h : ∀ t, (tasks t).Knows sleeve next)
    {t : ℕ} {phase : ExecutionPhase} (hphase : phase.Knows sleeve next) (t' : ℕ) :
    (Function.update tasks t phase t').Knows sleeve next := by
  by_cases ht : t' = t
  · subst ht
    rwa [Function.update_self]
  · rw [Function.update_of_ne ht]
    exact h t'

theorem starts_update {tasks : ℕ → ExecutionPhase} (h : ∀ t, ¬(tasks t).Starts) {t : ℕ}
    {phase : ExecutionPhase} (hphase : ¬phase.Starts) (t' : ℕ) :
    ¬(Function.update tasks t phase t').Starts := by
  by_cases ht : t' = t
  · subst ht
    rwa [Function.update_self]
  · rw [Function.update_of_ne ht]
    exact h t'

end Later

section Steps

variable {env : Platform} {terms : ExecutionTerms} {w w' : ExecutionWorld} {action : ExecutionAction}
  {sleeve sleeve' : Option (UUID × Bool)}

theorem tracked_created (h : JustCreated terms w) : SleeveTracked terms w none where
  sleeveIs := h.sleeves
  row id hid := by
    rw [h.row] at hid
    cases hid
  tasks t := by
    rw [h.tasks t]
    trivial
  calls c hc := by
    rw [h.wire] at hc
    cases hc
  closing c hc := by
    rw [h.wire] at hc
    cases hc
  ended hover := by
    rw [h.row] at hover
    exact absurd rfl hover.1

/-- The calls on the wire are some of those that were there, and no request waits for another
of them. -/
theorem SleeveTracked.quiet (h : SleeveTracked terms w sleeve) (hrow : w'.row = w.row)
    (hnext : w'.nextToken = w.nextToken) (hsleeve : SleeveIs terms w'.db sleeve')
    (hlater : SleeveLater sleeve sleeve') (htasks : ∀ t, (w'.tasks t).Knows sleeve' w'.nextToken)
    (hwire : ∀ c ∈ w'.wire, c ∈ w.wire)
    (hclosing : ∀ t token, w'.tasks t = .closing token → w.tasks t = .closing token)
    (hreleased : w.row.status.IsOver → w.Released sleeve → w'.Released sleeve') :
    SleeveTracked terms w' sleeve' where
  sleeveIs := hsleeve
  row id hid := by
    rw [hrow] at hid ⊢
    exact ⟨(h.row id hid).1, hlater.known (h.row id hid).2⟩
  tasks := htasks
  calls c hc := by
    rw [hnext]
    obtain ⟨htoken, hknows⟩ := h.calls c (hwire c hc)
    exact ⟨htoken, hknows.later hlater⟩
  closing c hc t htask := h.closing c (hwire c hc) t (hclosing t _ htask)
  ended hover hnone := by
    rw [hrow] at hover hnone
    exact hreleased hover (h.ended hover hnone)

theorem closing_update {tasks : ℕ → ExecutionPhase} {t t' token : ℕ} {phase : ExecutionPhase}
    (hphase : phase ≠ .closing token) (h : Function.update tasks t phase t' = .closing token) :
    tasks t' = .closing token := by
  by_cases ht : t' = t
  · subst ht
    rw [Function.update_self] at h
    exact absurd h hphase
  · rwa [Function.update_of_ne ht] at h

theorem ExecutionWorld.Released.setTask {t : ℕ} {phase : ExecutionPhase} (h : w.Released sleeve)
    (hphase : ¬phase.Starts) : (w.setTask t phase).Released sleeve :=
  h.imp_right fun hnone => ⟨hnone.1, starts_update hnone.2.1 hphase, hnone.2.2⟩

/-- A request that writes nothing; a start begins only before the execution is over. -/
theorem SleeveTracked.move (h : SleeveTracked terms w sleeve) {t : ℕ} {old phase : ExecutionPhase}
    (hmove : RequestMove terms w action t old phase) : SleeveTracked terms (w.setTask t phase) sleeve := by
  have hknows : phase.Knows sleeve w.nextToken := by cases hmove <;> trivial
  have hwaits : ∀ token, phase ≠ .closing token := by
    cases hmove <;> exact fun _ hphase => by cases hphase
  have hstarts : w.row.status.IsOver → ¬phase.Starts := by
    intro hover
    cases hmove with
    | fund hpending _ => exact absurd hpending hover.1
    | unfunded hpending _ => exact absurd hpending hover.1
    | _ => exact id
  exact h.quiet rfl rfl h.sleeveIs .refl (knows_update h.tasks hknows) (fun _ hc => hc)
    (fun _ token => closing_update (hwaits token))
    fun hover hreleased => hreleased.setTask (hstarts hover)

/-- The condition says that an execution that ends without its sleeve is released. -/
theorem SleeveTracked.released (h : SleeveTracked terms w sleeve)
    (hends : (∀ s ∈ sleevesOf terms.executionId w.db, s.2 = true) ∧
      (sleevesOf terms.executionId w.db = [] → w.Unfunding)) : w.Released sleeve := by
  rw [h.sleeveIs] at hends
  cases sleeve with
  | none => exact .inr ⟨rfl, hends.2 rfl⟩
  | some s =>
    obtain ⟨id, closed⟩ := s
    have hclosed : closed = true := hends.1 _ (List.mem_singleton.mpr rfl)
    exact .inl ⟨id, by rw [hclosed]⟩

/-- A commit whose row knows the sleeve. -/
theorem SleeveTracked.commit (h : SleeveTracked terms w sleeve) {t : ℕ} {row : ExecutionState}
    {phase : ExecutionPhase} (hknows : phase.Knows sleeve w.nextToken)
    (hwaits : ∀ token, phase ≠ .closing token) (hstarts : ¬phase.Starts)
    (hrow : ∀ id, row.sleeveId = some id →
      row.accountId = some terms.account ∧ ∃ closed, sleeve = some (id, closed))
    (hover : row.status.IsOver → row.sleeveId = none → w.Released sleeve) :
    SleeveTracked terms (w.commit t row phase) sleeve where
  sleeveIs := h.sleeveIs
  row := hrow
  tasks := knows_update h.tasks hknows
  calls := h.calls
  closing c hc _ htask := h.closing c hc _ (closing_update (hwaits _) htask)
  ended hstatus hnone := (hover hstatus hnone).setTask hstarts

theorem tracked_committed (h : SleeveTracked terms w sleeve) (hok : EndsReleased terms w action) {t : ℕ}
    {old phase : ExecutionPhase} {row : ExecutionState} (htask : w.tasks t = old)
    (hcommit : RowCommit terms w action t old row phase) :
    SleeveTracked terms (w.commit t row phase) sleeve := by
  have hread := h.tasks t
  rw [htask] at hread
  cases hcommit with
  | @start t loaded answer =>
    refine h.commit trivial (fun _ hphase => by cases hphase) id ?_ ?_
    · cases answer with
      | none => exact h.row
      | some id =>
        intro id' hid'
        cases hid'
        exact ⟨rfl, hread⟩
    · cases answer with
      | none => exact fun hover => absurd rfl hover.2.1
      | some id => exact fun hover => absurd rfl hover.2.1
  | pause =>
    exact h.commit trivial (fun _ hphase => by cases hphase) id h.row
      fun hover => absurd rfl hover.2.2
  | resume =>
    exact h.commit trivial (fun _ hphase => by cases hphase) id h.row
      fun hover => absurd rfl hover.2.1
  | stop =>
    exact h.commit trivial (fun _ hphase => by cases hphase) id h.row
      fun _ hnone => h.released (hok hnone)
  | clear =>
    exact h.commit trivial (fun _ hphase => by cases hphase) id
      (fun _ hid => by cases hid) fun _ _ => .inl hread
  | cancel =>
    exact h.commit trivial (fun _ hphase => by cases hphase) id h.row
      fun _ hnone => h.released (hok hnone)

/-- A request sends a call that knows the sleeve; an allocation is sent by a start. -/
theorem SleeveTracked.send (h : SleeveTracked terms w sleeve) {t : ℕ} {call : LedgerCall}
    {phase : ℕ → ExecutionPhase} (hcall : call.Knows sleeve)
    (hphase : (phase w.nextToken).Knows sleeve (w.nextToken + 1))
    (hwaits : ∀ token, phase w.nextToken = .closing token → token = w.nextToken ∧ call.IsClose)
    (hstarts : call.IsClose ∧ ¬(phase w.nextToken).Starts ∨ (w.tasks t).Starts) :
    SleeveTracked terms (w.send t call phase) sleeve where
  sleeveIs := h.sleeveIs
  row := h.row
  tasks := knows_update (fun t => (h.tasks t).later .refl (Nat.le_succ _)) hphase
  calls c hc := by
    obtain hold | hnew := List.mem_append.mp hc
    · obtain ⟨htoken, hknows⟩ := h.calls c hold
      exact ⟨Nat.lt_succ_of_lt htoken, hknows⟩
    · rw [List.mem_singleton.mp hnew]
      exact ⟨Nat.lt_succ_self _, hcall⟩
  closing c hc t' htask := by
    have htask' : Function.update w.tasks t (phase w.nextToken) t' = .closing c.token := htask
    obtain hold | hnew := List.mem_append.mp hc
    · by_cases hself : phase w.nextToken = .closing c.token
      · have htoken := (h.calls c hold).1
        rw [(hwaits _ hself).1] at htoken
        exact absurd htoken (lt_irrefl _)
      · exact h.closing c hold t' (closing_update hself htask')
    · rw [List.mem_singleton.mp hnew] at htask' ⊢
      by_cases hself : phase w.nextToken = .closing w.nextToken
      · exact (hwaits _ hself).2
      · have hwaited := h.tasks t'
        rw [closing_update hself htask'] at hwaited
        exact absurd hwaited (lt_irrefl _)
  ended hover hnone := by
    refine (h.ended hover hnone).imp_right fun hquiet => ?_
    obtain ⟨hclose, hidle⟩ | hstart := hstarts
    · refine ⟨hquiet.1, starts_update hquiet.2.1 hidle, fun c hc amount hallocate => ?_⟩
      obtain hold | hnew := List.mem_append.mp hc
      · exact hquiet.2.2 c hold amount hallocate
      · rw [List.mem_singleton.mp hnew] at hallocate
        subst hallocate
        exact hclose
    · exact absurd hstart (hquiet.2.1 t)

theorem starts_afterServed {phase : ExecutionPhase} {answer : Option UUID}
    (h : (afterServed answer phase).Starts) : phase.Starts := by
  cases phase with
  | allocating loaded token => trivial
  | closing token => exact h.elim
  | _ => exact h

theorem afterServed_ne_closing (answer : Option UUID) (phase : ExecutionPhase) (token : ℕ) :
    afterServed answer phase ≠ .closing token := by
  intro h
  cases phase <;> cases h

/-- A served call, with the sleeve that it answers to a start or the closed one to a close. -/
theorem SleeveTracked.served (h : SleeveTracked terms w sleeve) {inFlight : CallInFlight} {db : Database}
    {granted : List Decimal} {answer : Option UUID} {answers : Option ℕ} {tasks : ℕ → ExecutionPhase}
    (hcall : inFlight ∈ w.wire) (hsleeve : SleeveIs terms db sleeve')
    (hlater : SleeveLater sleeve sleeve')
    (hanswer : ∀ id, answer = some id → ∃ closed, sleeve' = some (id, closed))
    (hclosed : inFlight.call.IsClose → ∃ id, sleeve' = some (id, true))
    (hnone : sleeve = none → w.Unfunding → sleeve' = none)
    (htasks : answers = none ∧ tasks = w.tasks ∨ ∃ t, answers = some t ∧
      (w.tasks t).token = some inFlight.token ∧
      tasks = Function.update w.tasks t (afterServed answer (w.tasks t))) :
    SleeveTracked terms
      ⟨w.row, db, w.wire.filter (·.token ≠ inFlight.token), w.nextToken, granted, tasks⟩ sleeve' := by
  have hknows : ∀ t, (tasks t).Knows sleeve' w.nextToken := by
    have hkept : ∀ t, (w.tasks t).Knows sleeve' w.nextToken :=
      fun t => (h.tasks t).later hlater le_rfl
    obtain ⟨-, rfl⟩ | ⟨t, -, hwaits, rfl⟩ := htasks
    · exact hkept
    · refine knows_update hkept ?_
      have hclosing := h.closing inFlight hcall t
      have hself := hkept t
      cases hphase : w.tasks t with
      | allocating loaded token =>
        cases answer with
        | none => trivial
        | some id => exact hanswer id rfl
      | closing token =>
        rw [hphase] at hwaits
        cases hwaits
        exact hclosed (hclosing hphase)
      | _ =>
        rw [hphase] at hself
        exact hself
  have hclosing : ∀ t token, tasks t = .closing token → w.tasks t = .closing token := by
    intro t token htask
    obtain ⟨-, rfl⟩ | ⟨t', -, -, rfl⟩ := htasks
    · exact htask
    · exact closing_update (afterServed_ne_closing _ _ _) htask
  refine h.quiet rfl rfl hsleeve hlater hknows (fun c hc => (List.mem_filter.mp hc).1) hclosing
    fun _ hreleased => ?_
  obtain hover | ⟨habsent, hquiet⟩ := hreleased
  · exact .inl (hlater.closed hover)
  · refine .inr ⟨hnone habsent hquiet, fun t hstarts => ?_, fun c hc => ?_⟩
    · obtain ⟨-, rfl⟩ | ⟨t', -, -, rfl⟩ := htasks
      · exact hquiet.1 t hstarts
      · exact starts_update hquiet.1 (fun hafter => hquiet.1 t' (starts_afterServed hafter)) t hstarts
    · exact hquiet.2 c (List.mem_filter.mp hc).1

/-- An allocation opens the sleeve or finds it; it is not on its way to an execution that is
released without one. -/
theorem SleeveTracked.allocated (h : SleeveTracked terms w sleeve) {token : ℕ} {amount : Decimal}
    {fresh : ℕ → UUID} {db : Database} {granted : List Decimal} {answer : Option UUID}
    {answers : Option ℕ} {tasks : ℕ → ExecutionPhase} (hcall : ⟨token, .allocate amount⟩ ∈ w.wire)
    (hserve : (LedgerCall.allocate amount).serve env terms w.db fresh = .ok (db, answer))
    (htasks : answers = none ∧ tasks = w.tasks ∨ ∃ t, answers = some t ∧
      (w.tasks t).token = some token ∧
      tasks = Function.update w.tasks t (afterServed answer (w.tasks t))) :
    ∃ sleeve', SleeveTracked terms
      ⟨w.row, db, w.wire.filter (·.token ≠ token), w.nextToken, granted, tasks⟩ sleeve' := by
  obtain ⟨id, closed, hanswer, hsleeve, hwas⟩ := serve_allocate h.sleeveIs hserve
  have hlater : SleeveLater sleeve (some (id, closed)) := by
    intro id' closed' hold
    obtain ⟨hnone, -⟩ | hsame := hwas
    · rw [hnone] at hold
      cases hold
    · rw [hsame] at hold
      cases hold
      exact ⟨closed, rfl, fun hclosed => hclosed⟩
  refine ⟨_, h.served hcall hsleeve hlater (fun id' hid' => ?_) (fun hclose => hclose.elim)
    (fun _ hquiet => ?_) htasks⟩
  · rw [hanswer] at hid'
    cases hid'
    exact ⟨closed, rfl⟩
  · exact absurd rfl (hquiet.2 _ hcall amount)

theorem SleeveTracked.closed (h : SleeveTracked terms w sleeve) {token : ℕ} {account id : UUID}
    {reason : String} {fresh : ℕ → UUID} {db : Database} {granted : List Decimal} {answer : Option UUID}
    {answers : Option ℕ} {tasks : ℕ → ExecutionPhase}
    (hcall : ⟨token, .close account id reason⟩ ∈ w.wire)
    (hserve : (LedgerCall.close account id reason).serve env terms w.db fresh = .ok (db, answer))
    (htasks : answers = none ∧ tasks = w.tasks ∨ ∃ t, answers = some t ∧
      (w.tasks t).token = some token ∧
      tasks = Function.update w.tasks t (afterServed answer (w.tasks t))) :
    ∃ sleeve', SleeveTracked terms
      ⟨w.row, db, w.wire.filter (·.token ≠ token), w.nextToken, granted, tasks⟩ sleeve' := by
  obtain ⟨closed, hknown⟩ := (h.calls _ hcall).2
  have hsleeve := serve_close h.sleeveIs hserve
  have hanswer : answer = none := by
    simp only [LedgerCall.serve, bind_eq_ok] at hserve
    obtain ⟨_, -, hserve⟩ := hserve
    cases hserve
    rfl
  rw [hknown, Option.map_some, decide_eq_true rfl, Bool.or_true] at hsleeve
  have hlater : SleeveLater sleeve (some (id, true)) := by
    intro id' closed' hold
    rw [hknown] at hold
    cases hold
    exact ⟨true, rfl, fun _ => rfl⟩
  refine ⟨_, h.served hcall hsleeve hlater (fun id' hid' => ?_) (fun _ => ⟨id, rfl⟩)
    (fun hnone _ => ?_) htasks⟩
  · rw [hanswer] at hid'
    cases hid'
  · rw [hknown] at hnone
    cases hnone

/-- Every step after which an execution that ends without its sleeve is released keeps track of
the sleeve. -/
theorem tracked_step (h : SleeveTracked terms w sleeve) (hok : EndsReleased terms w action)
    (hstep : executionStep env terms w action = some w') : ∃ sleeve', SleeveTracked terms w' sleeve' := by
  cases executionStep_effect hstep with
  | same => exact ⟨_, h⟩
  | moved hmove => exact ⟨_, h.move hmove⟩
  | committed hcommit => exact ⟨_, tracked_committed h hok rfl hcommit⟩
  | @bootstrapped t fresh loaded amount db base htask hdb =>
    have hstarts : (w.tasks t).Starts := by
      rw [htask]
      trivial
    refine ⟨sleeve, h.quiet rfl rfl (h.sleeveIs.congr (ensureBaseSleeves_sleevesOf hdb)) .refl
      (knows_update h.tasks trivial) (fun _ hc => hc)
      (fun _ token => closing_update fun hphase => by cases hphase) fun _ hreleased => ?_⟩
    exact hreleased.imp_right fun hquiet => absurd hstarts (hquiet.2.1 t)
  | @allocateSent t loaded amount htask =>
    refine ⟨_, h.send trivial (Nat.lt_succ_self _) (fun _ hphase => by cases hphase) (.inr ?_)⟩
    rw [htask]
    trivial
  | @closeSent _ t account id reason hid htask =>
    refine ⟨_, h.send (h.row id hid).2 (Nat.lt_succ_self _) (fun _ hphase => ?_)
      (.inl ⟨trivial, fun hstarts => hstarts⟩)⟩
    cases hphase
    exact ⟨rfl, trivial⟩
  | @served token fresh answers db answer tasks inFlight hcall htoken hserve htasks =>
    subst htoken
    obtain ⟨token, call⟩ := inFlight
    cases call with
    | allocate amount => exact h.allocated hcall hserve htasks
    | close account id reason => exact h.closed hcall hserve htasks
  | @failed token fresh answers tasks inFlight hcall htoken htasks =>
    have hknows : ∀ t, (tasks t).Knows sleeve w.nextToken := by
      obtain rfl | ⟨t, -, rfl⟩ := htasks
      · exact h.tasks
      · exact knows_update h.tasks trivial
    refine ⟨sleeve, h.quiet rfl rfl h.sleeveIs .refl hknows (fun c hc => (List.mem_filter.mp hc).1)
      (fun t token htask => ?_) fun _ hreleased => hreleased.imp_right fun hquiet =>
        ⟨hquiet.1, fun t hstarts => ?_, fun c hc => hquiet.2.2 c (List.mem_filter.mp hc).1⟩⟩
    · obtain rfl | ⟨t', -, rfl⟩ := htasks
      · exact htask
      · exact closing_update (fun hphase => by cases hphase) htask
    · obtain rfl | ⟨t', -, rfl⟩ := htasks
      · exact hquiet.2.1 t hstarts
      · refine starts_update hquiet.2.1 ?_ t hstarts
        exact id
  | dropped =>
    exact ⟨sleeve, h.quiet rfl rfl h.sleeveIs .refl h.tasks (fun c hc => (List.mem_filter.mp hc).1)
      (fun _ _ htask => htask) fun _ hreleased => hreleased.imp_right fun hquiet =>
        ⟨hquiet.1, hquiet.2.1, fun c hc => hquiet.2.2 c (List.mem_filter.mp hc).1⟩⟩
  | other hsleeves =>
    exact ⟨sleeve, h.quiet rfl rfl (h.sleeveIs.congr hsleeves) .refl h.tasks (fun _ hc => hc)
      (fun _ _ htask => htask) fun _ hreleased => hreleased⟩

end Steps

/-- **No sleeve is stranded.** In every run of an execution that ends without a `sleeve_id` only
when it has no open sleeve and gets none: whatever the requests in flight, an open sleeve of the
execution is that of an execution that is not over, or the row still names it for the sweep. -/
theorem no_sleeve_stranded {env : Platform} {terms : ExecutionTerms} {w w' : ExecutionWorld}
    {actions : List ExecutionAction} (hcreated : JustCreated terms w)
    (hmeets : Transition.Meets (executionStep env terms) (EndsReleased terms) w actions)
    (hrun : Transition.run (executionStep env terms) w actions = some w') {s : Sleeve}
    (hs : s ∈ w'.db.sleeves) (hof : s.strategyExecutionId = some terms.executionId)
    (hopen : s.status ≠ .closed) :
    w'.row.status = .pending ∨ w'.row.status = .running ∨ w'.row.status = .paused ∨
      w'.row.sleeveId = some s.id ∧ w'.row.accountId = some terms.account := by
  obtain ⟨sleeve, htracked⟩ : ∃ sleeve, SleeveTracked terms w' sleeve :=
    Transition.run_invariant (I := fun w => ∃ sleeve, SleeveTracked terms w sleeve)
      (fun _ _ _ h hok hstep => tracked_step h.choose_spec hok hstep)
      ⟨none, tracked_created hcreated⟩ hmeets hrun
  have hsleeve := htracked.sleeveIs.id_eq hs hof
  rw [decide_eq_false hopen] at hsleeve
  by_cases hover : w'.row.status.IsOver
  · cases hid : w'.row.sleeveId with
    | none =>
      obtain ⟨id, hclosed⟩ | ⟨hnone, -⟩ := htracked.ended hover hid
      · rw [hsleeve] at hclosed
        cases hclosed
      · rw [hsleeve] at hnone
        cases hnone
    | some id =>
      obtain ⟨haccount, closed, hknown⟩ := htracked.row id hid
      rw [hsleeve] at hknown
      cases hknown
      exact .inr (.inr (.inr ⟨rfl, haccount⟩))
  · unfold ExecutionStatus.IsOver at hover
    tauto

namespace Sample

/-- The execution is started and funded with 100, and a stop has checked it. -/
def startFunded : List ExecutionAction :=
  startAllocating 0 0 100 (some 0) ++ [.commitStart 0, .stop 1]

/-- The stop goes on without reaching the ledger. -/
def stopUnreached : List ExecutionAction := [.commitStop 1, .refresh 1 false ""]

/-- The answer to the allocation of a start is lost, and the strategy is archived. -/
def archivedAfterLostAnswer : List ExecutionAction :=
  startAllocating 0 0 100 none ++ [.giveUp 0, .archive 1, .select 1, .cancel 1]

def openedSleeve : Sleeve :=
  newSleeve tenant account .strategy (some 40) (drawnFrom 110 0)

end Sample

theorem no_sleeve_stranded_stopped :
    ∃ w', Transition.run (executionStep Sample.plainPlatform Sample.fundedTerms)
        Sample.fundableExecution (Sample.startFunded ++ Sample.stopUnreached) = some w' ∧
      w'.row.status = .stopped ∧ Sample.openedSleeve ∈ w'.db.sleeves ∧
      (w'.row.status = .pending ∨ w'.row.status = .running ∨ w'.row.status = .paused ∨
        w'.row.sleeveId = some Sample.openedSleeve.id ∧
          w'.row.accountId = some Sample.fundedTerms.account) := by
  have hfunded : (Transition.run (executionStep Sample.plainPlatform Sample.fundedTerms)
      Sample.fundableExecution Sample.startFunded).map (·.row.sleeveId) =
        some (some Sample.openedSleeve.id) := by
    decide +kernel
  have hmeets : Transition.Meets (executionStep Sample.plainPlatform Sample.fundedTerms)
      (EndsReleased Sample.fundedTerms) Sample.fundableExecution
      (Sample.startFunded ++ Sample.stopUnreached) := by
    refine Transition.meets_append (Transition.meets_of_forall ?_ _) fun w hw => ?_
    · simp [Sample.startFunded, Sample.startAllocating, EndsReleased]
    · rw [hw, Option.map_some, Option.some.injEq] at hfunded
      refine ⟨fun hnone => ?_, fun _ _ => ⟨trivial, fun _ _ => trivial⟩⟩
      rw [hfunded] at hnone
      cases hnone
  have hends : (Transition.run (executionStep Sample.plainPlatform Sample.fundedTerms)
      Sample.fundableExecution (Sample.startFunded ++ Sample.stopUnreached)).map
        (fun w => (w.row.status, decide (Sample.openedSleeve ∈ w.db.sleeves))) =
          some (.stopped, true) := by
    decide +kernel
  obtain ⟨w', hrun, hends⟩ := Option.map_eq_some_iff.mp hends
  obtain ⟨hstatus, hmem⟩ := Prod.mk.inj hends
  have hmem := of_decide_eq_true hmem
  exact ⟨w', hrun, hstatus, hmem,
    no_sleeve_stranded Sample.fundableExecution_created hmeets hrun hmem rfl (by decide)⟩

/-- The funded sleeve is open, the execution is STOPPED and its row names no sleeve. -/
theorem lost_answer_strands_sleeve :
    ∃ w', Transition.run (executionStep Sample.plainPlatform Sample.fundedTerms)
        Sample.fundableExecution Sample.archivedAfterLostAnswer = some w' ∧
      (∀ t, w'.tasks t = .idle) ∧ w'.wire = [] ∧ w'.row = ⟨.stopped, none, none⟩ ∧
      Sample.openedSleeve ∈ w'.db.sleeves ∧
      ((w'.db.projectAccount Sample.tenant Sample.account).sleeve Sample.openedSleeve.id.text).cash =
        .finite false 100 0 := by
  refine ⟨_, rfl, fun t => ?_, rfl, rfl, ?_⟩
  · match t with
    | 0 => rfl
    | 1 => rfl
    | t + 2 => rfl
  · decide +kernel

end LlamaTrade
