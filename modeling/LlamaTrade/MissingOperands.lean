import LlamaTrade.StrongKleene
import LlamaTrade.ValidatedStrategies

/-!
# Missing operands

The truth of a condition whose operands may be missing or not numbers (`evaluation/conditions.py`):
what the evaluator makes of it, and its strong Kleene value.
-/

namespace LlamaTrade

variable {T K : Type} [Field K] [LinearOrder K] (num : Numerics K) (state : EvaluationState T K)

/-- A comparison, unknown when an operand is missing or not a number. -/
def comparisonValue (operator : ComparisonOperator) (left right : Value K) : Option Bool :=
  match resolveValue num state left, resolveValue num state right with
  | some (some left), some (some right) => some (operator.holds left right)
  | _, _ => none

/-- A crossover, unknown when an operand is missing or not a number, now or before. -/
def crossoverValue (direction : CrossoverDirection) (fast slow : Value K) : Option Bool :=
  match resolveValue num state fast, resolveValue num state slow, getPrevValue num state fast,
    getPrevValue num state slow with
  | some (some x), some (some y), some (some x'), some (some y') =>
    some (evaluateCrossover direction (some x) (some y) (some x') (some y'))
  | _, _, _, _ => none

mutual

/-- The tree of a condition. A negation of other than one operand is unknown. -/
def conditionTree : Condition K → KleeneTree
  | .comparison operator left right => .leaf (comparisonValue num state operator left right)
  | .crossover direction fast slow => .leaf (crossoverValue num state direction fast slow)
  | .logicalOp .and operands => .all (conditionTrees operands)
  | .logicalOp .or operands => .any (conditionTrees operands)
  | .logicalOp .not operands =>
    if operands.length ≠ 1 then .leaf none else .neg (.all (conditionTrees operands))

def conditionTrees : List (Condition K) → List KleeneTree
  | [] => []
  | operand :: operands => conditionTree operand :: conditionTrees operands

end

/-- The strong Kleene value of a condition. -/
def kleeneValue (condition : Condition K) : Option Bool := (conditionTree num state condition).value

/-- The condition is true when its unknown parts are read as false, except that those below an odd
number of negations are read as `odd`. -/
def readsTrue (odd : Bool) (condition : Condition K) : Bool :=
  (conditionTree num state condition).read odd false

variable {num state}

theorem evaluateComparison_value {operator : ComparisonOperator} {left right : Value K} {v : Bool}
    (h : evaluateCondition num state (.comparison operator left right) = some v) :
    (comparisonValue num state operator left right).getD false = v := by
  rw [evaluateCondition] at h
  obtain ⟨x, hleft, h⟩ := Option.bind_eq_some_iff.mp h
  obtain ⟨y, hright, h⟩ := Option.bind_eq_some_iff.mp h
  rw [comparisonValue, hleft, hright, ← Option.some.inj h]
  cases x <;> cases y <;> rfl

theorem evaluateCrossover_value {direction : CrossoverDirection} {fast slow : Value K} {v : Bool}
    (h : evaluateCondition num state (.crossover direction fast slow) = some v) :
    (crossoverValue num state direction fast slow).getD false = v := by
  rw [evaluateCondition] at h
  obtain ⟨x, hfast, h⟩ := Option.bind_eq_some_iff.mp h
  obtain ⟨y, hslow, h⟩ := Option.bind_eq_some_iff.mp h
  obtain ⟨x', hfast', h⟩ := Option.bind_eq_some_iff.mp h
  obtain ⟨y', hslow', h⟩ := Option.bind_eq_some_iff.mp h
  rw [crossoverValue, hfast, hslow, hfast', hslow', ← Option.some.inj h]
  cases x <;> cases y <;> cases x' <;> cases y' <;> rfl

mutual

/-- A condition that can be evaluated has the value that it is read with when all unknown parts are
read as false. -/
theorem evaluateCondition_read : (condition : Condition K) → (below v : Bool) →
    evaluateCondition num state condition = some v →
      (conditionTree num state condition).read false below = v
  | .comparison operator left right, below, v, h => by
    rw [conditionTree, KleeneTree.read, Bool.and_false]
    exact evaluateComparison_value h
  | .crossover direction fast slow, below, v, h => by
    rw [conditionTree, KleeneTree.read, Bool.and_false]
    exact evaluateCrossover_value h
  | .logicalOp operator operands, below, v, h => by
    cases operator with
    | and =>
      rw [evaluateCondition] at h
      rw [conditionTree, KleeneTree.read]
      exact (evaluateOperands_read operands below v).1 h
    | or =>
      rw [evaluateCondition] at h
      rw [conditionTree, KleeneTree.read]
      exact (evaluateOperands_read operands below v).2 h
    | not =>
      rw [evaluateCondition] at h
      rw [conditionTree]
      split_ifs at h ⊢ with hone
      obtain ⟨u, hu, rfl⟩ := Option.map_eq_some_iff.mp h
      rw [KleeneTree.read, KleeneTree.read, (evaluateOperands_read operands (!below) u).1 hu]

theorem evaluateOperands_read : (operands : List (Condition K)) → (below v : Bool) →
    (evaluateAll num state operands = some v →
      KleeneTree.readAll false below (conditionTrees num state operands) = v) ∧
      (evaluateAny num state operands = some v →
        KleeneTree.readAny false below (conditionTrees num state operands) = v)
  | [], below, v => by
    simp [evaluateAll, evaluateAny, conditionTrees, KleeneTree.readAll, KleeneTree.readAny]
  | operand :: operands, below, v => by
    obtain ⟨hall, hany⟩ := evaluateOperands_read operands below v
    rw [conditionTrees, KleeneTree.readAll, KleeneTree.readAny, evaluateAll, evaluateAny]
    constructor
    · intro h
      obtain ⟨u, hu, hrest⟩ := Option.bind_eq_some_iff.mp h
      rw [evaluateCondition_read operand below u hu]
      cases u with
      | true => simpa using hall (by simpa using hrest)
      | false => simpa using hrest
    · intro h
      obtain ⟨u, hu, hrest⟩ := Option.bind_eq_some_iff.mp h
      rw [evaluateCondition_read operand below u hu]
      cases u with
      | true => simpa using hrest
      | false => simpa using hany (by simpa using hrest)

end

/-- A condition counts as true only if its Kleene value is, exactly when its truth does not hang on
an unknown part below an odd number of negations, or a missing operand makes it false. -/
theorem true_only_if_kleene_true (condition : Condition K) :
    (evaluateConditionSafe num state condition = true →
        kleeneValue num state condition = some true) ↔
      (evaluateCondition num state condition = none ∨
        (readsTrue num state false condition = true →
          readsTrue num state true condition = true)) := by
  rw [kleeneValue, KleeneTree.value_eq_true_iff, ← readsTrue, evaluateConditionSafe]
  cases heval : evaluateCondition num state condition with
  | none => simp
  | some v =>
    have hread : readsTrue num state false condition = v :=
      evaluateCondition_read condition false v heval
    simp [hread]

namespace Sample

/-- The state of a strategy whose indicators are still warming up. -/
def warmingUp : EvaluationState ℕ ℚ where
  currentBars := []
  prevBars _ := none
  indicators _ := some [none]
  barHistory := []

/-- The relative strength of SPY is not above 70. -/
def notOverbought : Condition ℚ :=
  .logicalOp .not [.comparison .gt (.indicator ⟨.rsi, "SPY", [.int 14], none, none⟩)
    (.numericLiteral 70)]

end Sample

/-- The negation of a comparison with NaN counts as true. -/
theorem negated_nan_is_true :
    evaluateConditionSafe Sample.numerics Sample.warmingUp Sample.notOverbought = true ∧
      kleeneValue Sample.numerics Sample.warmingUp Sample.notOverbought = none := by
  constructor
  · simp [evaluateConditionSafe, Sample.notOverbought, evaluateCondition, evaluateAll, resolveValue,
      EvaluationState.getIndicatorValue, EvaluationState.indicatorSeries, Sample.warmingUp,
      evaluateComparison]
  · simp [kleeneValue, Sample.notOverbought, conditionTree, conditionTrees, KleeneTree.value,
      KleeneTree.valueAll, comparisonValue, resolveValue, EvaluationState.getIndicatorValue,
      EvaluationState.indicatorSeries, Sample.warmingUp, KleeneTree.and3]

end LlamaTrade
