import LlamaTrade.RetriedFunds
import LlamaTrade.StrategyExecutions

/-!
# The sleeve of an execution

What the calls of the ledger do to the sleeves of one execution. There is at most one: the
first allocation opens it, later ones reuse it, and a close of it is for good.
-/

namespace LlamaTrade

open Arithmetic

/-- The execution has no sleeve, or the one of the id, which is closed or not. -/
def SleeveIs (terms : ExecutionTerms) (db : Database) (sleeve : Option (UUID × Bool)) : Prop :=
  sleevesOf terms.executionId db = sleeve.toList.map fun s =>
    (newSleeve terms.tenantId terms.account .strategy (some terms.executionId) s.1, s.2)

section Sleeves

variable {env : Platform} {terms : ExecutionTerms} {db db' : Database}
  {sleeve : Option (UUID × Bool)}

theorem sleevesOf_of_sleeves {execution : UUID} (h : db'.sleeves = db.sleeves) :
    sleevesOf execution db' = sleevesOf execution db := by
  rw [sleevesOf, sleevesOf, h]

theorem SleeveIs.congr (h : SleeveIs terms db sleeve)
    (hsame : sleevesOf terms.executionId db' = sleevesOf terms.executionId db) :
    SleeveIs terms db' sleeve :=
  hsame.trans h

/-- A sleeve that is added is the last. -/
theorem addSleeve_sleevesOf {execution : UUID} {s : Sleeve} (h : db.addSleeve s = .ok db') :
    sleevesOf execution db' = sleevesOf execution db ++
      if s.strategyExecutionId = some execution then
        [({ s with status := .active }, decide (s.status = .closed))]
      else [] := by
  unfold Database.addSleeve at h
  split_ifs at h with hmem
  cases h
  by_cases hs : s.strategyExecutionId = some execution
  · simp [sleevesOf, hs]
  · simp [sleevesOf, hs]

theorem ensureBaseSleeve_sleevesOf {execution tenant account fresh : UUID} {type : SleeveType}
    {s : Sleeve} (h : ensureBaseSleeve db tenant account type fresh = .ok (db', s)) :
    sleevesOf execution db' = sleevesOf execution db := by
  unfold ensureBaseSleeve at h
  split at h
  · cases h
    rfl
  · simp only [bind_eq_ok] at h
    obtain ⟨next, hadd, h⟩ := h
    cases h
    rw [addSleeve_sleevesOf hadd]
    simp [newSleeve]

/-- Base sleeves belong to no execution. -/
theorem ensureBaseSleeves_sleevesOf {execution tenant account : UUID} {fresh : ℕ → UUID}
    {base : List Sleeve} (h : ensureBaseSleeves db tenant account fresh = .ok (db', base)) :
    sleevesOf execution db' = sleevesOf execution db := by
  simp only [ensureBaseSleeves, bind_eq_ok] at h
  obtain ⟨⟨db₁, unallocated⟩, h₁, ⟨db₂, manual⟩, h₂, ⟨db₃, unmanaged⟩, h₃, h⟩ := h
  cases h
  rw [ensureBaseSleeve_sleevesOf h₃, ensureBaseSleeve_sleevesOf h₂, ensureBaseSleeve_sleevesOf h₁]

/-- The sleeve of the execution as the ledger has it. -/
theorem SleeveIs.mem {id : UUID} {closed : Bool} (h : SleeveIs terms db (some (id, closed))) :
    ∃ s ∈ db.sleeves, s.id = id ∧ s.tenantId = terms.tenantId ∧ s.accountId = terms.account ∧
      s.type = .strategy ∧ s.strategyExecutionId = some terms.executionId := by
  have hmem : (newSleeve terms.tenantId terms.account .strategy (some terms.executionId) id, closed) ∈
      sleevesOf terms.executionId db := by
    rw [h]
    simp
  obtain ⟨s, hs, heq⟩ := List.mem_map.mp hmem
  have hof := (List.mem_filter.mp hs).1
  simp only [newSleeve, Prod.mk.injEq, Sleeve.mk.injEq] at heq
  obtain ⟨⟨hid, htenant, haccount, htype, -, hexecution⟩, -⟩ := heq
  exact ⟨s, hof, hid, htenant, haccount, htype, hexecution⟩

/-- Every sleeve of the execution is the one. -/
theorem SleeveIs.id_eq {s : Sleeve} (h : SleeveIs terms db sleeve) (hs : s ∈ db.sleeves)
    (hof : s.strategyExecutionId = some terms.executionId) :
    sleeve = some (s.id, decide (s.status = .closed)) := by
  have hmem : ({ s with status := .active }, decide (s.status = .closed)) ∈
      sleevesOf terms.executionId db :=
    List.mem_map.mpr ⟨s, List.mem_filter.mpr ⟨hs, by simpa using hof⟩, rfl⟩
  rw [h] at hmem
  obtain ⟨⟨id, closed⟩, hsleeve, heq⟩ := List.mem_map.mp hmem
  simp only [newSleeve, Prod.mk.injEq, Sleeve.mk.injEq] at heq
  rw [Option.mem_toList.mp hsleeve, heq.1.1, heq.2]

/-- `get_or_create_strategy_sleeve` opens the sleeve, or returns the one there is. -/
theorem getOrCreateStrategySleeve_sleeveIs {fresh : UUID} {s : Sleeve} (h : SleeveIs terms db sleeve)
    (hopen : getOrCreateStrategySleeve db terms.tenantId terms.account terms.executionId fresh =
      .ok (db', s)) :
    ∃ closed, SleeveIs terms db' (some (s.id, closed)) ∧
      (sleeve = none ∧ closed = false ∨ sleeve = some (s.id, closed)) := by
  unfold getOrCreateStrategySleeve at hopen
  split at hopen
  · rename_i found hfound
    cases hopen
    have hs := List.find?_some hfound
    have hsleeve := h.id_eq (List.mem_of_find?_eq_some hfound) (by simp at hs; exact hs.2.2.2)
    exact ⟨_, hsleeve ▸ h, .inr hsleeve⟩
  · rename_i hnone
    simp only [bind_eq_ok] at hopen
    obtain ⟨next, hadd, hopen⟩ := hopen
    cases hopen
    have habsent : sleeve = none := by
      cases sleeve with
      | none => rfl
      | some own =>
        obtain ⟨s, hs, -, htenant, haccount, htype, hexecution⟩ := h.mem
        have hmiss := List.find?_eq_none.mp hnone s hs
        simp [htenant, haccount, htype, hexecution] at hmiss
    subst habsent
    refine ⟨false, ?_, .inl ⟨rfl, rfl⟩⟩
    rw [SleeveIs, addSleeve_sleevesOf hadd, h]
    simp [newSleeve]

/-- An allocation answers with the sleeve of the execution, which it opens if there is none. -/
theorem serve_allocate {fresh : ℕ → UUID} {amount : Decimal} {answer : Option UUID}
    (h : SleeveIs terms db sleeve)
    (hserve : (LedgerCall.allocate amount).serve env terms db fresh = .ok (db', answer)) :
    ∃ id closed, answer = some id ∧ SleeveIs terms db' (some (id, closed)) ∧
      (sleeve = none ∧ closed = false ∨ sleeve = some (id, closed)) := by
  simp only [LedgerCall.serve, allocateToStrategy, bind_eq_ok] at hserve
  obtain ⟨⟨db₁, views⟩, ⟨⟨db₂, s⟩, hopen, hallocate⟩, hserve⟩ := hserve
  cases hserve
  obtain ⟨closed, hsleeve, hwas⟩ := getOrCreateStrategySleeve_sleeveIs h hopen
  refine ⟨s.id, closed, ?_, hsleeve.congr (sleevesOf_of_sleeves (executeFundPlan_sleeves hallocate)),
    hwas⟩
  simp only [allocate, executeFundPlan, bind_eq_ok] at hallocate
  obtain ⟨plan, hplan, _, -, _, -, hallocate⟩ := hallocate
  cases hallocate
  obtain ⟨unallocated, shown, -, hshown, -, -, rfl⟩ := allocatePlan_iff.mp hplan
  obtain ⟨-, -, hid⟩ := mem_of_getSleeve (requireSleeve_eq hshown).1
  simp [hid]

theorem setSleeveStatus_sleevesOf {execution id : UUID} :
    sleevesOf execution (db.setSleeveStatus id .closed) =
      (sleevesOf execution db).map fun s => (s.1, s.2 || decide (s.1.id = id)) := by
  simp only [sleevesOf, Database.setSleeveStatus]
  induction db.sleeves with
  | nil => rfl
  | cons s sleeves ih =>
    by_cases hid : s.id = id <;> by_cases hof : s.strategyExecutionId = some execution <;>
      simp [hid, hof] at ih ⊢ <;> exact ih

/-- A close of a sleeve that succeeds leaves it closed, and no other. -/
theorem closeSleeve_sleevesOf {execution tenant account id : UUID} {reason : Option String}
    {result : CloseResult} (h : closeSleeve env db tenant account id reason = .ok (db', result)) :
    sleevesOf execution db' =
      (sleevesOf execution db).map fun s => (s.1, s.2 || decide (s.1.id = id)) := by
  simp only [closeSleeve, bind_eq_ok] at h
  obtain ⟨sleeve, hcloseable, h⟩ := h
  split_ifs at h with hstatus
  · cases h
    obtain ⟨⟨hmem, -, hid⟩, -⟩ := closeableSleeve_eq hcloseable
    rw [sleevesOf, List.map_map]
    refine List.map_congr_left fun s hs => ?_
    have hclosed : s.id = id → s.status = .closed := fun hsame => by
      rw [List.inj_on_of_nodup_map db.uniqueSleeves (List.mem_filter.mp hs).1 hmem
        (hsame.trans hid.symm)]
      exact hstatus
    by_cases hsame : s.id = id
    · simp [hclosed hsame]
    · simp [hsame]
  · simp only [bind_eq_ok] at h
    obtain ⟨⟨plan, unmanaged, unallocated⟩, -, ⟨next, inserted⟩, happend, -, -, h⟩ := h
    cases h
    rw [setSleeveStatus_sleevesOf, sleevesOf_of_sleeves (append_sleeves happend)]

/-- A close leaves the sleeve that it names closed. -/
theorem serve_close {fresh : ℕ → UUID} {account id : UUID} {reason : String} {answer : Option UUID}
    (h : SleeveIs terms db sleeve)
    (hserve : (LedgerCall.close account id reason).serve env terms db fresh = .ok (db', answer)) :
    SleeveIs terms db' (sleeve.map fun s => (s.1, s.2 || decide (s.1 = id))) := by
  simp only [LedgerCall.serve, bind_eq_ok] at hserve
  obtain ⟨⟨db₁, result⟩, hclose, hserve⟩ := hserve
  cases hserve
  rw [SleeveIs, closeSleeve_sleevesOf hclose, h]
  cases sleeve with
  | none => rfl
  | some s => simp [newSleeve]

end Sleeves

end LlamaTrade
