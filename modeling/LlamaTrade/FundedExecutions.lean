import LlamaTrade.ExecutionSleeves
import LlamaTrade.StoppedExecutions

/-!
# Funding an execution

`_fund_sleeve` asks the ledger for the capital of the execution, without an id for the
request, and the sleeve that guards against a second allocation is recorded by a later
commit. Where a start that is to fund the execution finds no other start before its
allocation, no allocation on its way and no sleeve of the execution in the ledger, the
execution is funded at most once. A start whose answer is lost leaves the row as it was, and
the next one funds the sleeve again.
-/

namespace LlamaTrade

/-- A start that has not sent its allocation yet, and what it will ask for. -/
def ExecutionPhase.Preparing (amount : Decimal) : ExecutionPhase → Prop
  | .starting _ wanted | .funding _ wanted => wanted = amount
  | _ => False

/-- A start that is to fund the execution is the first to do so. -/
def FundsFirst (terms : ExecutionTerms) (w : ExecutionWorld) : ExecutionAction → Prop
  | .start _ ledger => w.row.status = .pending → fundingIntent terms w.row ledger ≠ none →
      (∀ t amount, ¬(w.tasks t).Preparing amount) ∧
        (∀ inFlight ∈ w.wire, ∀ amount, inFlight.call ≠ .allocate amount) ∧
          sleevesOf terms.executionId w.db = []
  | _ => True

/-- At most one allocation has been granted, is on its way or is being prepared. -/
structure FundedOnce (terms : ExecutionTerms) (w : ExecutionWorld) : Prop where
  sleeve : ∃ sleeve, SleeveIs terms w.db sleeve ∧ (w.granted ≠ [] → sleeve ≠ none)
  granted : w.granted = [] ∨ ∃ capital, terms.allocatedCapital = some capital ∧ w.granted = [capital]
  preparing : ∀ t amount, (w.tasks t).Preparing amount →
    terms.allocatedCapital = some amount ∧ w.granted = [] ∧
      ∀ inFlight ∈ w.wire, ∀ amount', inFlight.call ≠ .allocate amount'
  alone : ∀ t t' amount amount', (w.tasks t).Preparing amount → (w.tasks t').Preparing amount' → t = t'
  sent : ∀ inFlight ∈ w.wire, ∀ amount, inFlight.call = .allocate amount →
    terms.allocatedCapital = some amount ∧ w.granted = []
  -- the ledger handles the calls of one token at once
  single : ∀ c ∈ w.wire, ∀ c' ∈ w.wire, ∀ amount amount', c.call = .allocate amount →
    c'.call = .allocate amount' → c.token = c'.token

section Steps

variable {env : Platform} {terms : ExecutionTerms} {w w' : ExecutionWorld} {action : ExecutionAction}

theorem fundedOnce_created (h : JustCreated terms w) : FundedOnce terms w where
  sleeve := ⟨none, h.sleeves, fun hgranted => absurd h.granted hgranted⟩
  granted := .inl h.granted
  preparing t amount hpreparing := by
    rw [h.tasks t] at hpreparing
    exact hpreparing.elim
  alone t t' amount amount' hpreparing := by
    rw [h.tasks t] at hpreparing
    exact hpreparing.elim
  sent inFlight hcall := by
    rw [h.wire] at hcall
    cases hcall
  single c hc := by
    rw [h.wire] at hc
    cases hc

/-- The invariant looks at the tasks that prepare an allocation only: a step that adds none, and
no allocation on the wire, keeps it. -/
theorem FundedOnce.of_fewer (h : FundedOnce terms w) (hgranted : w'.granted = w.granted)
    (hsleeve : ∀ sleeve, SleeveIs terms w.db sleeve →
      ∃ sleeve', SleeveIs terms w'.db sleeve' ∧ (sleeve ≠ none → sleeve' ≠ none))
    (hwire : ∀ c ∈ w'.wire, ∀ amount, c.call = .allocate amount → c ∈ w.wire)
    (htasks : ∀ t amount, (w'.tasks t).Preparing amount → (w.tasks t).Preparing amount) :
    FundedOnce terms w' where
  sleeve := by
    obtain ⟨sleeve, his, hsome⟩ := h.sleeve
    obtain ⟨sleeve', his', hsome'⟩ := hsleeve sleeve his
    rw [hgranted]
    exact ⟨sleeve', his', fun hne => hsome' (hsome hne)⟩
  granted := by
    rw [hgranted]
    exact h.granted
  preparing t amount hpreparing := by
    obtain ⟨hcapital, hnone, hquiet⟩ := h.preparing t amount (htasks t amount hpreparing)
    rw [hgranted]
    exact ⟨hcapital, hnone, fun c hc amount' hcall => hquiet c (hwire c hc amount' hcall) amount' hcall⟩
  alone t t' amount amount' ht ht' := h.alone t t' amount amount' (htasks t _ ht) (htasks t' _ ht')
  sent c hc amount hcall := by
    rw [hgranted]
    exact h.sent c (hwire c hc amount hcall) amount hcall
  single c hc c' hc' amount amount' hcall hcall' :=
    h.single c (hwire c hc amount hcall) c' (hwire c' hc' amount' hcall') amount amount' hcall hcall'

theorem preparing_update {tasks : ℕ → ExecutionPhase} {t t' : ℕ} {phase : ExecutionPhase}
    {amount : Decimal} (hphase : phase.Preparing amount → (tasks t).Preparing amount)
    (h : (Function.update tasks t phase t').Preparing amount) : (tasks t').Preparing amount := by
  by_cases ht : t' = t
  · subst ht
    rw [Function.update_self] at h
    exact hphase h
  · rwa [Function.update_of_ne ht] at h

theorem FundedOnce.setTask (h : FundedOnce terms w) {t : ℕ} {phase : ExecutionPhase}
    (hphase : ∀ amount, phase.Preparing amount → (w.tasks t).Preparing amount) :
    FundedOnce terms (w.setTask t phase) :=
  h.of_fewer rfl (fun sleeve his => ⟨sleeve, his, id⟩) (fun _ hc _ _ => hc)
    fun _ amount => preparing_update (hphase amount)

/-- Only the start that is to fund the execution begins to prepare an allocation. -/
theorem FundedOnce.move (h : FundedOnce terms w) (hok : FundsFirst terms w action) {t : ℕ}
    {old phase : ExecutionPhase} (htask : w.tasks t = old)
    (hmove : RequestMove terms w action t old phase) : FundedOnce terms (w.setTask t phase) := by
  cases hmove with
  | @fund t ledger amount hpending hintent =>
    obtain ⟨hnone, hquiet, hsleeves⟩ := hok hpending (by rw [hintent]; exact Option.some_ne_none _)
    have hcapital : terms.allocatedCapital = some amount := by
      unfold fundingIntent at hintent
      split_ifs at hintent
      exact hintent
    have hgranted : w.granted = [] := by
      obtain ⟨sleeve, his, hsome⟩ := h.sleeve
      rw [SleeveIs, hsleeves] at his
      cases sleeve with
      | none => exact not_not.mp fun hne => hsome hne rfl
      | some s => cases his
    have honly : ∀ t' amount',
        (Function.update w.tasks t (.starting w.row amount) t').Preparing amount' →
          t' = t ∧ amount' = amount := by
      intro t' amount' hpreparing
      by_cases ht : t' = t
      · subst ht
        rw [Function.update_self] at hpreparing
        exact ⟨rfl, hpreparing.symm⟩
      · rw [Function.update_of_ne ht] at hpreparing
        exact absurd hpreparing (hnone t' amount')
    exact
      { sleeve := h.sleeve
        granted := h.granted
        preparing := fun t' amount' hpreparing => by
          rw [(honly t' amount' hpreparing).2]
          exact ⟨hcapital, hgranted, hquiet⟩
        alone := fun t₁ t₂ a₁ a₂ h₁ h₂ => (honly t₁ a₁ h₁).1.trans (honly t₂ a₂ h₂).1.symm
        sent := h.sent
        single := h.single }
  | _ => exact h.setTask fun _ hpreparing => hpreparing.elim

/-- The one start that prepares an allocation sends it. -/
theorem FundedOnce.send (h : FundedOnce terms w) {t : ℕ} {loaded : ExecutionState} {amount : Decimal}
    (htask : w.tasks t = .funding loaded amount) :
    FundedOnce terms (w.send t (.allocate amount) (.allocating loaded)) := by
  have hpreparing : (w.tasks t).Preparing amount := by rw [htask]; rfl
  obtain ⟨hcapital, hgranted, hquiet⟩ := h.preparing t amount hpreparing
  have hnone : ∀ t' amount',
      ¬(Function.update w.tasks t (.allocating loaded w.nextToken) t').Preparing amount' := by
    intro t' amount' hother
    by_cases ht : t' = t
    · subst ht
      rw [Function.update_self] at hother
      exact hother
    · rw [Function.update_of_ne ht] at hother
      exact ht (h.alone t' t amount' amount hother hpreparing)
  have hsent : ∀ c ∈ (w.send t (.allocate amount) (.allocating loaded)).wire, ∀ amount',
      c.call = .allocate amount' → c = ⟨w.nextToken, .allocate amount⟩ := by
    intro c hc amount' hcall
    obtain hold | hnew := List.mem_append.mp hc
    · exact absurd hcall (hquiet c hold amount')
    · exact List.mem_singleton.mp hnew
  exact
    { sleeve := h.sleeve
      granted := h.granted
      preparing := fun t' amount' hother => absurd hother (hnone t' amount')
      alone := fun t₁ _ a₁ _ h₁ => absurd h₁ (hnone t₁ a₁)
      sent := fun c hc amount' hcall => by
        have hsame := hsent c hc amount' hcall
        subst hsame
        cases hcall
        exact ⟨hcapital, hgranted⟩
      single := fun c hc c' hc' a a' hcall hcall' => by
        rw [hsent c hc a hcall, hsent c' hc' a' hcall'] }

/-- The ledger grants the one allocation that is on its way. -/
theorem FundedOnce.grant (h : FundedOnce terms w) {inFlight : CallInFlight} {amount : Decimal}
    {fresh : ℕ → UUID} {db : Database} {answer : Option UUID} {tasks : ℕ → ExecutionPhase}
    (hcall : inFlight ∈ w.wire) (hallocate : inFlight.call = .allocate amount)
    (hserve : (LedgerCall.allocate amount).serve env terms w.db fresh = .ok (db, answer))
    (htasks : ∀ t amount, (tasks t).Preparing amount → (w.tasks t).Preparing amount) :
    FundedOnce terms ⟨w.row, db, w.wire.filter (·.token ≠ inFlight.token), w.nextToken,
      w.granted ++ [amount], tasks⟩ := by
  obtain ⟨hcapital, hgranted⟩ := h.sent inFlight hcall amount hallocate
  obtain ⟨sleeve, his, -⟩ := h.sleeve
  obtain ⟨id, closed, -, his', -⟩ := serve_allocate his hserve
  have hnone : ∀ t amount', ¬(tasks t).Preparing amount' := fun t amount' hpreparing =>
    (h.preparing t amount' (htasks t amount' hpreparing)).2.2 inFlight hcall amount hallocate
  have hquiet : ∀ c ∈ w.wire.filter (·.token ≠ inFlight.token), ∀ amount', c.call ≠ .allocate amount' := by
    intro c hc amount' hother
    obtain ⟨hmem, htoken⟩ := List.mem_filter.mp hc
    have hsame := h.single c hmem inFlight hcall amount' amount hother hallocate
    simp [hsame] at htoken
  exact
    { sleeve := ⟨_, his', fun _ => Option.some_ne_none _⟩
      granted := .inr ⟨amount, hcapital, by rw [hgranted]; rfl⟩
      preparing := fun t amount' hpreparing => absurd hpreparing (hnone t amount')
      alone := fun t _ amount' _ hpreparing => absurd hpreparing (hnone t amount')
      sent := fun c hc amount' hother => absurd hother (hquiet c hc amount')
      single := fun c hc _ _ amount' _ hother => absurd hother (hquiet c hc amount') }

theorem preparing_afterServed {phase : ExecutionPhase} {answer : Option UUID} {amount : Decimal}
    (h : (afterServed answer phase).Preparing amount) : phase.Preparing amount := by
  cases phase with
  | allocating loaded token => exact h.elim
  | closing token => exact h.elim
  | _ => exact h

/-- Every step of which the starts are the first to fund the execution keeps the invariant. -/
theorem fundedOnce_step (h : FundedOnce terms w) (hok : FundsFirst terms w action)
    (hstep : executionStep env terms w action = some w') : FundedOnce terms w' := by
  cases executionStep_effect hstep with
  | same => exact h
  | moved hmove => exact h.move hok rfl hmove
  | @committed _ t row phase hcommit =>
    have hphase : ∀ amount, ¬phase.Preparing amount := by
      generalize w.tasks t = old at hcommit
      cases hcommit <;> exact fun _ hpreparing => hpreparing
    exact h.of_fewer rfl (fun sleeve his => ⟨sleeve, his, id⟩) (fun _ hc _ _ => hc)
      fun _ amount => preparing_update fun hpreparing => absurd hpreparing (hphase amount)
  | @bootstrapped t fresh loaded amount db base htask hdb =>
    refine h.of_fewer rfl (fun sleeve his => ⟨sleeve, his.congr (ensureBaseSleeves_sleevesOf hdb), id⟩)
      (fun _ hc _ _ => hc) fun _ amount => preparing_update fun hpreparing => ?_
    rw [htask]
    exact hpreparing
  | allocateSent htask => exact h.send htask
  | @closeSent _ t account sleeve reason _ _ =>
    refine h.of_fewer rfl (fun sleeve his => ⟨sleeve, his, id⟩) (fun c hc amount hcall => ?_)
      fun _ amount => preparing_update fun hpreparing => hpreparing.elim
    obtain hold | hnew := List.mem_append.mp hc
    · exact hold
    · rw [List.mem_singleton.mp hnew] at hcall
      cases hcall
  | @served token fresh answers db answer tasks inFlight hcall htoken hserve htasks =>
    have hfewer : ∀ t amount, (tasks t).Preparing amount → (w.tasks t).Preparing amount := by
      intro t amount hpreparing
      obtain ⟨-, rfl⟩ | ⟨t', -, -, rfl⟩ := htasks
      · exact hpreparing
      · exact preparing_update preparing_afterServed hpreparing
    subst htoken
    obtain ⟨token, call⟩ := inFlight
    cases call with
    | allocate amount => exact h.grant hcall rfl hserve hfewer
    | close account id reason =>
      refine h.of_fewer (List.append_nil _) (fun sleeve his => ⟨_, serve_close his hserve, fun hsome => ?_⟩)
        (fun c hc _ _ => (List.mem_filter.mp hc).1) hfewer
      rw [Ne, Option.map_eq_none_iff]
      exact hsome
  | @failed token fresh answers tasks inFlight hcall htoken htasks =>
    refine h.of_fewer rfl (fun sleeve his => ⟨sleeve, his, id⟩)
      (fun c hc _ _ => (List.mem_filter.mp hc).1) fun t amount hpreparing => ?_
    obtain rfl | ⟨t', -, rfl⟩ := htasks
    · exact hpreparing
    · refine preparing_update ?_ hpreparing
      exact fun hidle => hidle.elim
  | dropped =>
    exact h.of_fewer rfl (fun sleeve his => ⟨sleeve, his, id⟩)
      (fun c hc _ _ => (List.mem_filter.mp hc).1) fun _ _ hpreparing => hpreparing
  | other hsleeves =>
    exact h.of_fewer rfl (fun sleeve his => ⟨sleeve, his.congr hsleeves, id⟩) (fun _ hc _ _ => hc)
      fun _ _ hpreparing => hpreparing

end Steps

/-- **An execution is funded at most once.** In every run of an execution whose funding starts
each find no other start before its allocation, no allocation on its way and no sleeve of the
execution: what the ledger has allocated for it is at most its capital, which is validated to
be positive. Answers may be lost and requests crash anywhere. -/
theorem executions_funded_once {env : Platform} {terms : ExecutionTerms} {w w' : ExecutionWorld}
    {actions : List ExecutionAction}
    (hvalid : ∀ capital, terms.allocatedCapital = some capital → 0 < capital.toRat)
    (hcreated : JustCreated terms w)
    (hmeets : Transition.Meets (executionStep env terms) (FundsFirst terms) w actions)
    (hrun : Transition.run (executionStep env terms) w actions = some w') :
    (w'.granted.map Decimal.toRat).sum ≤ (terms.allocatedCapital.map Decimal.toRat).getD 0 := by
  have honce : FundedOnce terms w' :=
    Transition.run_invariant (fun _ _ _ h hok hstep => fundedOnce_step h hok hstep)
      (fundedOnce_created hcreated) hmeets hrun
  obtain hnone | ⟨capital, hcapital, hgranted⟩ := honce.granted
  · rw [hnone]
    cases hcapital : terms.allocatedCapital with
    | none => exact le_rfl
    | some capital => exact (hvalid capital hcapital).le
  · rw [hgranted, hcapital]
    simp

namespace Sample

/-- An account with 1000 deposited and nothing allocated. -/
def deposited : Database where
  events :=
    [row 6 1 .fundsDeposited
      [("sleeve_id", .str unallocated.text), ("amount", .str "1000")]]
  sleeves :=
    [⟨unallocated, tenant, account, .unallocated, .active, none⟩,
      ⟨unmanaged, tenant, account, .unmanaged, .active, none⟩]
  uniqueIds := by decide
  uniqueSleeves := by decide

/-- An execution that is to be funded with 100. -/
def fundedTerms : ExecutionTerms :=
  ⟨40, tenant, some (.finite false 100 0), some 43, account⟩

def fundableExecution : ExecutionWorld :=
  ⟨⟨.pending, none, none⟩, deposited, [], 0, [], fun _ => .idle⟩

def drawnFrom (first : ℕ) (i : ℕ) : UUID :=
  ⟨(first + i) % 2 ^ 128, Nat.mod_lt _ (by decide)⟩

/-- A start up to its allocation, which the ledger handles; the answer reaches a request or not. -/
def startAllocating (t token first : ℕ) (answers : Option ℕ) : List ExecutionAction :=
  [.start t true, .bootstrap t true (drawnFrom first), .allocate t,
    .handle token (drawnFrom (first + 10)) answers]

theorem fundableExecution_created : JustCreated fundedTerms fundableExecution :=
  ⟨rfl, rfl, rfl, rfl, fun _ => rfl⟩

end Sample

theorem executions_funded_once_started :
    ∃ w', Transition.run (executionStep Sample.plainPlatform Sample.fundedTerms)
        Sample.fundableExecution (Sample.startAllocating 0 0 100 (some 0) ++ [.commitStart 0]) =
          some w' ∧ w'.granted = [.finite false 100 0] ∧ w'.row.status = .running ∧
      (w'.granted.map Decimal.toRat).sum ≤
        (Sample.fundedTerms.allocatedCapital.map Decimal.toRat).getD 0 := by
  have hvalid : ∀ capital, Sample.fundedTerms.allocatedCapital = some capital → 0 < capital.toRat := by
    intro capital hcapital
    cases hcapital
    decide +kernel
  have hmeets : Transition.Meets (executionStep Sample.plainPlatform Sample.fundedTerms)
      (FundsFirst Sample.fundedTerms) Sample.fundableExecution
      (Sample.startAllocating 0 0 100 (some 0) ++ [.commitStart 0]) := by
    refine Transition.meets_cons rfl (fun _ _ => ⟨fun _ _ => id, ?_, rfl⟩) ?_
    · exact fun inFlight hcall => by cases hcall
    · exact Transition.meets_of_forall (by simp [FundsFirst]) _
  have hgranted : (Transition.run (executionStep Sample.plainPlatform Sample.fundedTerms)
      Sample.fundableExecution (Sample.startAllocating 0 0 100 (some 0) ++ [.commitStart 0])).map
        (fun w => (w.granted, w.row.status)) = some ([.finite false 100 0], .running) := by
    decide +kernel
  obtain ⟨w', hrun, hends⟩ := Option.map_eq_some_iff.mp hgranted
  exact ⟨w', hrun, (Prod.mk.inj hends).1, (Prod.mk.inj hends).2,
    executions_funded_once hvalid Sample.fundableExecution_created hmeets hrun⟩

/-- The answer to the first start's allocation is lost, and the second start allocates again. -/
theorem lost_answer_funds_twice :
    ∃ w', Transition.run (executionStep Sample.plainPlatform Sample.fundedTerms)
        Sample.fundableExecution
        (Sample.startAllocating 0 0 100 none ++ [.giveUp 0] ++
          Sample.startAllocating 1 1 200 (some 1) ++ [.commitStart 1]) = some w' ∧
      (Sample.fundedTerms.allocatedCapital.map Decimal.toRat).getD 0 <
        (w'.granted.map Decimal.toRat).sum := by
  have hgranted : (Transition.run (executionStep Sample.plainPlatform Sample.fundedTerms)
      Sample.fundableExecution
      (Sample.startAllocating 0 0 100 none ++ [.giveUp 0] ++
        Sample.startAllocating 1 1 200 (some 1) ++ [.commitStart 1])).map (·.granted) =
          some [.finite false 100 0, .finite false 100 0] := by
    decide +kernel
  obtain ⟨w', hrun, hends⟩ := Option.map_eq_some_iff.mp hgranted
  refine ⟨w', hrun, ?_⟩
  rw [hends]
  decide +kernel

end LlamaTrade
