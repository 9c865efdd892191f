import LlamaTrade.AcceptedStrategies
import LlamaTrade.PrintedStrategies

/-!
# Printed strategies are read back

The tokens of a strategy are in the grammar, and they denote the strategy without its source
locations, if each of its leaves is read back.
-/

namespace LlamaTrade

open PyText

/-! ## Strategies without locations -/

/-- A parameter as it is read: a whole number is an integer. -/
def Param.plain (p : Param) : Param := if p.value.den = 1 then .int p.value.num else .float p.value

/-- A value without source locations, whose parameters are compared as numbers. -/
def plainValue : Value ℚ → Value ℚ
  | .indicator ind => .indicator ⟨ind.name, ind.symbol, ind.params.map Param.plain, ind.output, none⟩
  | value => value

mutual

def plainCondition : Condition ℚ → Condition ℚ
  | .comparison operator left right => .comparison operator (plainValue left) (plainValue right)
  | .crossover direction fast slow => .crossover direction (plainValue fast) (plainValue slow)
  | .logicalOp operator operands => .logicalOp operator (plainConditions operands)

def plainConditions : List (Condition ℚ) → List (Condition ℚ)
  | [] => []
  | condition :: conditions => plainCondition condition :: plainConditions conditions

end

mutual

def plainBlock : Block ℚ → Block ℚ
  | .strategy name children rebalance => .strategy name (plainBlocks children) rebalance
  | .group name children weight => .group name (plainBlocks children) weight
  | .weight method children lookback top _ => .weight method (plainBlocks children) lookback top none
  | .asset symbol weight => .asset symbol weight
  | .onlyIf condition thenBlock => .onlyIf (plainCondition condition) (plainBlock thenBlock)
  | .ifElse condition thenBlock elseBlock =>
    .ifElse (plainCondition condition) (plainBlock thenBlock) (plainBlock elseBlock)
  | .filter criteria direction count children lookback =>
    .filter criteria direction count (plainBlocks children) lookback

def plainBlocks : List (Block ℚ) → List (Block ℚ)
  | [] => []
  | block :: blocks => plainBlock block :: plainBlocks blocks

end

/-- A strategy without source locations, whose numbers are compared as exact decimals. -/
def DescribedStrategy.plain (strategy : DescribedStrategy) : DescribedStrategy :=
  ⟨⟨strategy.name, plainBlocks strategy.children, strategy.rebalance⟩, strategy.benchmark,
    strategy.description⟩

/-! ## Values -/

/-- What the parser needs of a leaf to read it back. -/
def StrategyLeaf.Reads : StrategyLeaf → Prop
  | .symbol _ => True
  | .name s => ¬HasBackslashN s
  | .number x => ExactDecimal x ∧ NoExponent x
  | .output s => IsKeywordName s
  | .period n => n ≠ 0
  | .nestedStrategy => False

theorem keywordName_colon (s : String) : keywordName (":" ++ s) = s := by
  simp [keywordName]

theorem readParam_formatWeight {p : Param} (hdecimal : ExactDecimal p.value)
    (h : NoExponent p.value) : readParam (formatWeight p.value) = .ok p.plain := by
  by_cases hden : p.value.den = 1
  · have hpoint : '.' ∉ (intText p.value.num).toList := by
      rw [intText, String.toList_ofList]
      intro hmem
      rcases mem_intChars hmem with hminus | hdigit
      · exact absurd hminus (by decide)
      · exact ne_of_mem_toDigits hdigit (by decide) rfl
    simp [readParam, formatWeight, Param.plain, hden, hpoint, readInt_intText]
  · have hpoint : '.' ∈ (formatWeight p.value).toList := by
      simp [formatWeight, hden, floatText, h.resolve_left hden, plainChars]
    rw [readParam, if_pos hpoint, readFloat_formatWeight hdecimal h, Param.plain, if_neg hden]

theorem readsValue_tokens : (value : Value ℚ) → (∀ leaf ∈ valueLeaves value, leaf.Reads) →
    ReadsValue (valueTokens value) (plainValue value)
  | .numericLiteral value, h => by
    obtain ⟨hdecimal, hwritten⟩ : ExactDecimal value ∧ NoExponent value :=
      h (.number value) (by simp [valueLeaves])
    have hread := ReadsValue.number (formatWeight value)
    rw [readFloat_formatWeight hdecimal hwritten] at hread
    rwa [valueTokens, numberTokens_of_noExponent hwritten]
  | .price symbol field, _ => by
    rw [valueTokens, plainValue]
    · split_ifs with hfield
      · rw [hfield]
        exact .price symbol
      · refine .priceField symbol ?_
        rw [keywordName_colon, PriceField.ofText_text]
    · simp
  | .indicator ind, h => by
    have hnumbers : ∀ p ∈ ind.params, ExactDecimal p.value ∧ NoExponent p.value := fun p hp =>
      h (.number p.value) (by simpa [valueLeaves] using ⟨p, hp, rfl⟩)
    have hparams : ind.params.flatMap (fun p => numberTokens p.value) =
        (ind.params.map fun p => formatWeight p.value).map .number := by
      rw [List.map_map, List.map_eq_flatMap]
      exact List.flatMap_congr fun p hp => numberTokens_of_noExponent (hnumbers p hp).2
    have hread : List.Forall₂ (fun text param => readParam text = .ok param)
        (ind.params.map fun p => formatWeight p.value) (ind.params.map Param.plain) := by
      rw [List.forall₂_map_left_iff, List.forall₂_map_right_iff, List.forall₂_same]
      exact fun p hp => readParam_formatWeight (hnumbers p hp).1 (hnumbers p hp).2
    rw [valueTokens, plainValue, hparams]
    cases houtput : ind.output with
    | none => exact .indicator ind.name ind.symbol none hread
    | some output =>
      have hname : IsKeywordName output := h (.output output) (by simp [valueLeaves, houtput])
      have hvalue := ReadsValue.indicator ind.name ind.symbol (some (":" ++ output)) hread
      simpa [indicatorOutput, hname.ne_empty, keywordName_colon] using hvalue
  | .metric metric, h => by
    rw [valueTokens, plainValue]
    · obtain ⟨name, symbol, period⟩ := metric
      cases period with
      | none => exact .metric name symbol
      | some n =>
        have hn : n ≠ 0 := h (.period n) (by simp [valueLeaves])
        simpa [Option.filter, hn] using ReadsValue.metricPeriod name symbol (readInt_intText n)
    · simp

/-! ## Conditions -/

mutual

theorem readsCondition_tokens : (condition : Condition ℚ) →
    (∀ leaf ∈ conditionLeaves condition, leaf.Reads) →
    ReadsConditions (conditionTokens condition) [plainCondition condition]
  | .comparison operator left right, h => by
    rw [conditionTokens, plainCondition]
    exact .comparison (.inl rfl)
      (readsValue_tokens left fun leaf hleaf => h leaf (by simp [conditionLeaves, hleaf]))
      (readsValue_tokens right fun leaf hleaf => h leaf (by simp [conditionLeaves, hleaf])) .nil
  | .crossover direction fast slow, h => by
    rw [conditionTokens, plainCondition]
    exact .crossover (.inl rfl)
      (readsValue_tokens fast fun leaf hleaf => h leaf (by simp [conditionLeaves, hleaf]))
      (readsValue_tokens slow fun leaf hleaf => h leaf (by simp [conditionLeaves, hleaf])) .nil
  | .logicalOp operator operands, h => by
    rw [conditionTokens, plainCondition]
    exact .logicalOp (.inr rfl) (readsConditions_tokens operands fun leaf hleaf =>
      h leaf (by simpa [conditionLeaves] using hleaf)) .nil

theorem readsConditions_tokens : (conditions : List (Condition ℚ)) →
    (∀ leaf ∈ conditionsLeaves conditions, leaf.Reads) →
    ReadsConditions (conditionsTokens conditions) (plainConditions conditions)
  | [], _ => by
    rw [conditionsTokens, plainConditions]
    exact .nil
  | condition :: conditions, h => by
    rw [conditionsTokens, plainConditions]
    exact (readsCondition_tokens condition fun leaf hleaf =>
        h leaf (by simp [conditionsLeaves, hleaf])).append
      (readsConditions_tokens conditions fun leaf hleaf =>
        h leaf (by simp [conditionsLeaves, hleaf]))

end

/-! ## Blocks -/

theorem readsOptional_weight {weight : Option ℚ} (h : ∀ leaf ∈ weightLeaves weight, leaf.Reads) :
    ReadsOptional (fun text => .ok (readFloat text)) "weight" (weightTokens weight) weight := by
  cases weight with
  | none => exact .none
  | some x =>
    obtain ⟨hdecimal, hwritten⟩ : ExactDecimal x ∧ NoExponent x :=
      h (.number x) (by simp [weightLeaves])
    rw [weightTokens, Option.map_some, keywordTokens, numberTokens_of_noExponent hwritten]
    exact .some (by decide) (by rw [readFloat_formatWeight hdecimal hwritten])

theorem readsOptional_lookback (lookback : Option ℤ) :
    ReadsOptional readInt "lookback" (intTokens ":lookback" lookback) lookback := by
  cases lookback with
  | none => exact .none
  | some n => exact .some (by decide) (readInt_intText n)

theorem readsWeightOptions_tokens (lookback top : Option ℤ) :
    ReadsWeightOptions (none, none) (intTokens ":lookback" lookback ++ intTokens ":top" top)
      (lookback, top) := by
  have htop : ∀ lookback : Option ℤ,
      ReadsWeightOptions (lookback, none) (intTokens ":top" top) (lookback, top) := by
    intro lookback
    cases top with
    | none => exact .nil _
    | some n => exact .top (by decide) (readInt_intText n) (.nil _)
  cases lookback with
  | none => exact htop none
  | some n => exact .lookback (by decide) (readInt_intText n) (htop (some n))

mutual

theorem readsBlock_tokens : (block : Block ℚ) → (∀ leaf ∈ blockLeaves block, leaf.Reads) →
    ReadsBlocks (blockTokens block) [plainBlock block]
  | .strategy .., h => absurd (h .nestedStrategy (by simp [blockLeaves])) not_false
  | .group name children weight, h => by
    have hname : ¬HasBackslashN name := h (.name name) (by simp [blockLeaves])
    have hweight : ReadsOptional _ _ (weightTokens weight) weight :=
      readsOptional_weight fun leaf hleaf => h leaf (by simp [blockLeaves, hleaf])
    have hchildren := readsBlocks_tokens children fun leaf hleaf =>
      h leaf (by simp [blockLeaves, hleaf])
    have hgroup := ReadsBlocks.group (quoted name) hweight hchildren .nil
    rw [stringText_quoted hname] at hgroup
    rw [blockTokens, plainBlock]
    exact hgroup
  | .weight method children lookback top _, h => by
    have hchildren := readsBlocks_tokens children fun leaf hleaf =>
      h leaf (by simpa [blockLeaves] using hleaf)
    rw [blockTokens, plainBlock]
    exact .weight method (readsWeightOptions_tokens lookback top) hchildren .nil
  | .asset symbol weight, h => by
    rw [blockTokens, plainBlock]
    exact .asset symbol (readsOptional_weight fun leaf hleaf =>
      h leaf (by simp [blockLeaves, hleaf])) .nil
  | .onlyIf condition thenBlock, h => by
    have hcondition := readsCondition_tokens condition fun leaf hleaf =>
      h leaf (by simp [blockLeaves, hleaf])
    have hthen := readsBlock_tokens thenBlock fun leaf hleaf =>
      h leaf (by simp [blockLeaves, hleaf])
    rw [blockTokens, plainBlock]
    exact .onlyIf hcondition hthen .nil
  | .ifElse condition thenBlock elseBlock, h => by
    have hcondition := readsCondition_tokens condition fun leaf hleaf =>
      h leaf (by simp [blockLeaves, hleaf])
    have hthen := readsBlock_tokens thenBlock fun leaf hleaf =>
      h leaf (by simp [blockLeaves, hleaf])
    have helse := readsBlock_tokens elseBlock fun leaf hleaf =>
      h leaf (by simp [blockLeaves, hleaf])
    rw [blockTokens, plainBlock]
    exact .ifElse hcondition hthen helse .nil
  | .filter criteria direction count children lookback, h => by
    have hchildren := readsBlocks_tokens children fun leaf hleaf =>
      h leaf (by simpa [blockLeaves] using hleaf)
    rw [blockTokens, plainBlock]
    exact .filter criteria direction (readInt_intText count) (readsOptional_lookback lookback)
      hchildren .nil

theorem readsBlocks_tokens : (blocks : List (Block ℚ)) →
    (∀ leaf ∈ blocksLeaves blocks, leaf.Reads) →
    ReadsBlocks (blocksTokens blocks) (plainBlocks blocks)
  | [], _ => by
    rw [blocksTokens, plainBlocks]
    exact .nil
  | block :: blocks, h => by
    rw [blocksTokens, plainBlocks]
    exact (readsBlock_tokens block fun leaf hleaf => h leaf (by simp [blocksLeaves, hleaf])).append
      (readsBlocks_tokens blocks fun leaf hleaf => h leaf (by simp [blocksLeaves, hleaf]))

end

theorem ReadsStrategyOptions.append {us vs : List Token} {a b c : StrategyOptions}
    (h : ReadsStrategyOptions a us b) (h' : ReadsStrategyOptions b vs c) :
    ReadsStrategyOptions a (us ++ vs) c := by
  induction h with
  | nil => exact h'
  | cons hname hset _ ih => exact .cons hname hset (ih h')

theorem readsStrategyOptions_tokens (rebalance : Option RebalanceFrequency)
    {benchmark description : Option String} (hbenchmark : benchmark ≠ some "")
    (hdescription : description ≠ some "")
    (hescape : ∀ s ∈ description, ¬HasBackslashN s) :
    ReadsStrategyOptions .none (strategyOptionTokens rebalance benchmark description)
      ⟨rebalance, benchmark, description⟩ := by
  have h₁ : ReadsStrategyOptions .none
      (keywordTokens ":rebalance" (rebalance.map fun r => [.symbol r.text]))
      ⟨rebalance, none, none⟩ := by
    cases rebalance with
    | none => exact .nil _
    | some r =>
      have hname : strategyOption (.keyword ":rebalance") = some "rebalance" := by decide
      exact .cons hname (by simp [StrategyOptions.set, StrategyOptions.none]) (.nil _)
  have h₂ : ReadsStrategyOptions ⟨rebalance, none, none⟩
      (keywordTokens ":benchmark" ((benchmark.filter (· ≠ "")).map fun s => [.symbol s]))
      ⟨rebalance, benchmark, none⟩ := by
    cases benchmark with
    | none => exact .nil _
    | some b =>
      have hb : b ≠ "" := fun hb => hbenchmark (congrArg some hb)
      rw [Option.filter_some_pos (by simpa using hb)]
      have hname : strategyOption (.keyword ":benchmark") = some "benchmark" := by decide
      exact .cons hname (by simp [StrategyOptions.set]) (.nil _)
  have h₃ : ReadsStrategyOptions ⟨rebalance, benchmark, none⟩
      (keywordTokens ":description"
        ((description.filter (· ≠ "")).map fun s => [.string (quoted s)]))
      ⟨rebalance, benchmark, description⟩ := by
    cases description with
    | none => exact .nil _
    | some d =>
      have hd : d ≠ "" := fun hd => hdescription (congrArg some hd)
      rw [Option.filter_some_pos (by simpa using hd)]
      have hname : strategyOption (.keyword ":description") = some "description" := by decide
      exact .cons hname (by simp [StrategyOptions.set, stringText_quoted (hescape d rfl)]) (.nil _)
  exact h₁.append (h₂.append h₃)

theorem readsStrategy_tokens {strategy : DescribedStrategy}
    (h : ∀ leaf ∈ strategy.leaves, leaf.Reads) (hbenchmark : strategy.benchmark ≠ some "")
    (hdescription : strategy.description ≠ some "") :
    ReadsStrategy strategy.tokens strategy.plain := by
  have hname : ¬HasBackslashN strategy.name :=
    h (.name strategy.name) (by simp [DescribedStrategy.leaves])
  have hescape : ∀ s ∈ strategy.description, ¬HasBackslashN s := by
    intro s hs
    have hs : strategy.description = some s := hs
    exact h (.name s) (by simp [DescribedStrategy.leaves, hs])
  have hoptions := readsStrategyOptions_tokens strategy.rebalance hbenchmark hdescription hescape
  have hchildren := readsBlocks_tokens strategy.children fun leaf hleaf =>
    h leaf (by simp [DescribedStrategy.leaves, hleaf])
  have hstrategy := ReadsStrategy.strategy (quoted strategy.name) hoptions hchildren
  rwa [stringText_quoted hname] at hstrategy

end LlamaTrade
