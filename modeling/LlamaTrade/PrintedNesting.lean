import LlamaTrade.RereadStrategies

/-!
# Nesting of printed strategies

How deeply the parentheses of a printed strategy are nested, and when the parser accepts that.
-/

namespace LlamaTrade

open PyText

def valueNesting : Value ℚ → ℕ
  | .numericLiteral _ => 0
  | _ => 1

mutual

def conditionNesting : Condition ℚ → ℕ
  | .comparison _ left right => max (valueNesting left) (valueNesting right) + 1
  | .crossover _ fast slow => max (valueNesting fast) (valueNesting slow) + 1
  | .logicalOp _ operands => conditionsNesting operands + 1

def conditionsNesting : List (Condition ℚ) → ℕ
  | [] => 0
  | condition :: conditions => max (conditionNesting condition) (conditionsNesting conditions)

end

mutual

/-- How deeply the parentheses of a printed block are nested. -/
def blockNesting : Block ℚ → ℕ
  | .strategy _ children _ => blocksNesting children + 1
  | .group _ children _ => blocksNesting children + 1
  | .weight _ children .. => blocksNesting children + 1
  | .asset .. => 1
  | .onlyIf condition thenBlock => max (conditionNesting condition) (blockNesting thenBlock) + 1
  | .ifElse condition thenBlock elseBlock =>
    max (conditionNesting condition) (max (blockNesting thenBlock) (blockNesting elseBlock + 1)) + 1
  | .filter _ _ _ children _ => max 1 (blocksNesting children) + 1

def blocksNesting : List (Block ℚ) → ℕ
  | [] => 0
  | block :: blocks => max (blockNesting block) (blocksNesting blocks)

end

def DescribedStrategy.nesting (strategy : DescribedStrategy) : ℕ :=
  blocksNesting strategy.children + 1

/-- Balanced tokens, nested to a given depth. -/
def Nests (ts : List Token) (k : ℕ) : Prop :=
  ∀ depth rest, depth ≤ maxNesting →
    (checkNesting depth (ts ++ rest) = .ok () ↔
      depth + k ≤ maxNesting ∧ checkNesting depth rest = .ok ())

section Nesting

variable {us vs : List Token} {k l : ℕ}

theorem nests_nil : Nests [] 0 := fun _ _ hdepth => by simp [hdepth]

theorem Nests.append (h : Nests us k) (h' : Nests vs l) : Nests (us ++ vs) (max k l) := by
  intro depth rest hdepth
  rw [List.append_assoc, h depth _ hdepth, h' depth rest hdepth, ← and_assoc]
  refine and_congr_left fun _ => ?_
  omega

theorem Nests.cons {t : Token} (hopen : t ≠ .lparen) (hclose : t ≠ .rparen) (h : Nests us k) :
    Nests (t :: us) k := by
  intro depth rest hdepth
  rw [← h depth rest hdepth]
  cases t with
  | lparen => exact absurd rfl hopen
  | rparen => exact absurd rfl hclose
  | _ => rfl

theorem Nests.symbol (h : Nests us k) (s : String) : Nests (.symbol s :: us) k :=
  h.cons (by simp) (by simp)

theorem Nests.keyword (h : Nests us k) (s : String) : Nests (.keyword s :: us) k :=
  h.cons (by simp) (by simp)

theorem Nests.operator (h : Nests us k) (s : String) : Nests (.operator s :: us) k :=
  h.cons (by simp) (by simp)

theorem Nests.number (h : Nests us k) (s : String) : Nests (.number s :: us) k :=
  h.cons (by simp) (by simp)

theorem Nests.string (h : Nests us k) (s : String) : Nests (.string s :: us) k :=
  h.cons (by simp) (by simp)

theorem Nests.paren (h : Nests us k) : Nests (.lparen :: (us ++ [.rparen])) (k + 1) := by
  intro depth rest hdepth
  rw [List.cons_append, List.append_assoc, List.singleton_append, checkNesting]
  split_ifs with hdeep
  · exact iff_of_false (by simp) (by omega)
  · rw [h (depth + 1) _ (by omega), checkNesting, Nat.add_sub_cancel]
    refine and_congr_left fun _ => ?_
    omega

theorem nests_numberTokens {x : ℚ} (h : NoExponent x) : Nests (numberTokens x) 0 := by
  rw [numberTokens_of_noExponent h]
  exact nests_nil.number _

theorem Nests.flatMap {α : Type} {f : α → List Token} {as : List α} (h : ∀ a ∈ as, Nests (f a) 0) :
    Nests (as.flatMap f) 0 := by
  induction as with
  | nil => exact nests_nil
  | cons a as ih =>
    rw [List.flatMap_cons]
    exact (h a (List.mem_cons_self ..)).append (ih fun b hb => h b (List.mem_cons_of_mem _ hb))

theorem nests_keywordTokens {keyword : String} {ts : Option (List Token)}
    (h : ∀ us ∈ ts, Nests us 0) : Nests (keywordTokens keyword ts) 0 := by
  cases ts with
  | none => exact nests_nil
  | some us => exact (h us rfl).keyword keyword

theorem nests_intTokens (keyword : String) (n : Option ℤ) : Nests (intTokens keyword n) 0 := by
  refine nests_keywordTokens fun us hus => ?_
  obtain ⟨n, -, rfl⟩ := Option.mem_map.mp hus
  exact nests_nil.number _

/-- The number of a leaf is printed without an exponent. -/
def StrategyLeaf.Short : StrategyLeaf → Prop
  | .number x => NoExponent x
  | .nestedStrategy => False
  | _ => True

theorem nests_weightTokens {weight : Option ℚ} (h : ∀ leaf ∈ weightLeaves weight, leaf.Short) :
    Nests (weightTokens weight) 0 := by
  refine nests_keywordTokens fun us hus => ?_
  obtain ⟨x, hx, rfl⟩ := Option.mem_map.mp hus
  have hx : weight = some x := hx
  exact nests_numberTokens (h (.number x) (by simp [weightLeaves, hx]))

theorem nests_value : (value : Value ℚ) → (∀ leaf ∈ valueLeaves value, leaf.Short) →
    Nests (valueTokens value) (valueNesting value)
  | .numericLiteral value, h => nests_numberTokens (h (.number value) (by simp [valueLeaves]))
  | .price symbol field, _ => by
    have hfield : Nests (if field = .close then [] else [.keyword (":" ++ field.text)]) 0 := by
      split_ifs
      · exact nests_nil
      · exact nests_nil.keyword _
    simpa [valueTokens, valueNesting] using ((hfield.symbol symbol).symbol "price").paren
  | .indicator ind, h => by
    have hparams : Nests (ind.params.flatMap fun p => numberTokens p.value) 0 :=
      Nests.flatMap fun p hp =>
        nests_numberTokens (h (.number p.value) (by simpa [valueLeaves] using ⟨p, hp, rfl⟩))
    have houtput : Nests ((indicatorOutput ind.output).map .keyword) 0 := by
      rw [List.map_eq_flatMap]
      exact Nests.flatMap fun k _ => nests_nil.keyword k
    have hinner := ((hparams.append houtput).symbol ind.symbol).symbol ind.name.text
    simpa [valueTokens, valueNesting] using hinner.paren
  | .metric metric, _ => by
    have hperiod : Nests
        (((metric.period.filter (· ≠ 0)).map fun n => .number (intText n)).toList) 0 := by
      cases metric.period.filter (· ≠ 0) with
      | none => exact nests_nil
      | some n => exact nests_nil.number _
    simpa [valueTokens, valueNesting] using
      ((hperiod.symbol metric.symbol).symbol metric.name.text).paren

mutual

theorem nests_condition : (condition : Condition ℚ) →
    (∀ leaf ∈ conditionLeaves condition, leaf.Short) →
    Nests (conditionTokens condition) (conditionNesting condition)
  | .comparison operator left right, h => by
    have hleft := nests_value left fun leaf hleaf => h leaf (by simp [conditionLeaves, hleaf])
    have hright := nests_value right fun leaf hleaf => h leaf (by simp [conditionLeaves, hleaf])
    simpa [conditionTokens, conditionNesting] using
      ((hleft.append hright).operator operator.text).paren
  | .crossover direction fast slow, h => by
    have hfast := nests_value fast fun leaf hleaf => h leaf (by simp [conditionLeaves, hleaf])
    have hslow := nests_value slow fun leaf hleaf => h leaf (by simp [conditionLeaves, hleaf])
    simpa [conditionTokens, conditionNesting] using
      ((hfast.append hslow).operator direction.text).paren
  | .logicalOp operator operands, h => by
    have hoperands := nests_conditions operands fun leaf hleaf =>
      h leaf (by simpa [conditionLeaves] using hleaf)
    simpa [conditionTokens, conditionNesting] using (hoperands.symbol operator.text).paren

theorem nests_conditions : (conditions : List (Condition ℚ)) →
    (∀ leaf ∈ conditionsLeaves conditions, leaf.Short) →
    Nests (conditionsTokens conditions) (conditionsNesting conditions)
  | [], _ => by
    rw [conditionsTokens, conditionsNesting]
    exact nests_nil
  | condition :: conditions, h => by
    rw [conditionsTokens, conditionsNesting]
    exact (nests_condition condition fun leaf hleaf =>
        h leaf (by simp [conditionsLeaves, hleaf])).append
      (nests_conditions conditions fun leaf hleaf => h leaf (by simp [conditionsLeaves, hleaf]))

end

mutual

theorem nests_block : (block : Block ℚ) → (∀ leaf ∈ blockLeaves block, leaf.Short) →
    Nests (blockTokens block) (blockNesting block)
  | .strategy .., h => absurd (h .nestedStrategy (by simp [blockLeaves])) not_false
  | .group name children weight, h => by
    have hweight : Nests (weightTokens weight) 0 :=
      nests_weightTokens fun leaf hleaf => h leaf (by simp [blockLeaves, hleaf])
    have hchildren := nests_blocks children fun leaf hleaf =>
      h leaf (by simp [blockLeaves, hleaf])
    simpa [blockTokens, blockNesting] using
      (((hweight.append hchildren).string (quoted name)).symbol "group").paren
  | .weight method children lookback top _, h => by
    have hoptions := (nests_intTokens ":lookback" lookback).append (nests_intTokens ":top" top)
    have hchildren := nests_blocks children fun leaf hleaf =>
      h leaf (by simpa [blockLeaves] using hleaf)
    simpa [blockTokens, blockNesting] using
      ((((hoptions.append hchildren).symbol method.text).keyword ":method").symbol "weight").paren
  | .asset symbol weight, h => by
    have hweight : Nests (weightTokens weight) 0 :=
      nests_weightTokens fun leaf hleaf => h leaf (by simp [blockLeaves, hleaf])
    simpa [blockTokens, blockNesting] using ((hweight.symbol symbol).symbol "asset").paren
  | .onlyIf condition thenBlock, h => by
    have hcondition := nests_condition condition fun leaf hleaf =>
      h leaf (by simp [blockLeaves, hleaf])
    have hthen := nests_block thenBlock fun leaf hleaf => h leaf (by simp [blockLeaves, hleaf])
    simpa [blockTokens, blockNesting] using ((hcondition.append hthen).symbol "if").paren
  | .ifElse condition thenBlock elseBlock, h => by
    have hcondition := nests_condition condition fun leaf hleaf =>
      h leaf (by simp [blockLeaves, hleaf])
    have hthen := nests_block thenBlock fun leaf hleaf => h leaf (by simp [blockLeaves, hleaf])
    have helse := (nests_block elseBlock fun leaf hleaf =>
      h leaf (by simp [blockLeaves, hleaf])).symbol "else"
    simpa [blockTokens, blockNesting] using
      ((hcondition.append (hthen.append helse.paren)).symbol "if").paren
  | .filter criteria direction count children lookback, h => by
    have hselect := (((nests_nil.number (intText count)).symbol direction.text).paren.keyword
      ":select").symbol criteria.text
    have hchildren := nests_blocks children fun leaf hleaf =>
      h leaf (by simpa [blockLeaves] using hleaf)
    have hinner := ((hselect.keyword ":by").symbol "filter").append
      ((nests_intTokens ":lookback" lookback).append hchildren)
    simpa [blockTokens, blockNesting] using hinner.paren

theorem nests_blocks : (blocks : List (Block ℚ)) → (∀ leaf ∈ blocksLeaves blocks, leaf.Short) →
    Nests (blocksTokens blocks) (blocksNesting blocks)
  | [], _ => by
    rw [blocksTokens, blocksNesting]
    exact nests_nil
  | block :: blocks, h => by
    rw [blocksTokens, blocksNesting]
    exact (nests_block block fun leaf hleaf => h leaf (by simp [blocksLeaves, hleaf])).append
      (nests_blocks blocks fun leaf hleaf => h leaf (by simp [blocksLeaves, hleaf]))

end

theorem nests_strategyOptionTokens (rebalance : Option RebalanceFrequency)
    (benchmark description : Option String) :
    Nests (strategyOptionTokens rebalance benchmark description) 0 := by
  have hrebalance : Nests (keywordTokens ":rebalance" (rebalance.map fun r => [.symbol r.text])) 0 :=
    nests_keywordTokens fun us hus => by
      obtain ⟨r, -, rfl⟩ := Option.mem_map.mp hus
      exact nests_nil.symbol _
  have hbenchmark : Nests (keywordTokens ":benchmark"
      ((benchmark.filter (· ≠ "")).map fun s => [.symbol s])) 0 :=
    nests_keywordTokens fun us hus => by
      obtain ⟨s, -, rfl⟩ := Option.mem_map.mp hus
      exact nests_nil.symbol _
  have hdescription : Nests (keywordTokens ":description"
      ((description.filter (· ≠ "")).map fun s => [.string (quoted s)])) 0 :=
    nests_keywordTokens fun us hus => by
      obtain ⟨s, -, rfl⟩ := Option.mem_map.mp hus
      exact nests_nil.string _
  exact hrebalance.append (hbenchmark.append hdescription)

theorem checkNesting_tokens {strategy : DescribedStrategy}
    (h : ∀ leaf ∈ strategy.leaves, leaf.Short) :
    checkNesting 0 strategy.tokens = .ok () ↔ strategy.nesting ≤ maxNesting := by
  have hchildren := nests_blocks strategy.children fun leaf hleaf =>
    h leaf (by simp [DescribedStrategy.leaves, hleaf])
  have hinner := (nests_strategyOptionTokens strategy.rebalance strategy.benchmark
    strategy.description).append hchildren
  have hnests := ((hinner.string (quoted strategy.name)).symbol "strategy").paren 0 [] (by decide)
  simpa [DescribedStrategy.tokens, DescribedStrategy.nesting, checkNesting] using hnests

end Nesting

end LlamaTrade
