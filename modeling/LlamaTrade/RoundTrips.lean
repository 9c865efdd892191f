import LlamaTrade.ReadLeaves

/-!
# Round trips of strategies

A validated strategy is printed and read back unchanged, up to source locations, exactly if none of
its texts has a backslash before an `n`, its description is not empty, the outputs of its indicators
are names, its numbers are printed without an exponent and its parentheses are not nested too
deeply.
-/

namespace LlamaTrade

/-! ## Leaves without locations -/

@[simp] theorem Param.value_plain (p : Param) : p.plain.value = p.value := by
  unfold Param.plain
  split_ifs with hden
  · exact Rat.coe_int_num_of_den_eq_one hden
  · rfl

@[simp] theorem Param.plain_plain (p : Param) : p.plain.plain = p.plain := by
  have hvalue := p.value_plain
  rw [Param.plain, hvalue]
  rfl

theorem valueLeaves_plain (value : Value ℚ) : valueLeaves (plainValue value) = valueLeaves value := by
  cases value <;> simp [plainValue, valueLeaves, Function.comp_def]

theorem plainValue_plain (value : Value ℚ) : plainValue (plainValue value) = plainValue value := by
  cases value <;> simp [plainValue, Function.comp_def]

mutual

theorem conditionLeaves_plain : (condition : Condition ℚ) →
    conditionLeaves (plainCondition condition) = conditionLeaves condition
  | .comparison .. => by simp [plainCondition, conditionLeaves, valueLeaves_plain]
  | .crossover .. => by simp [plainCondition, conditionLeaves, valueLeaves_plain]
  | .logicalOp _ operands => by
    simp only [plainCondition, conditionLeaves, conditionsLeaves_plain operands]

theorem conditionsLeaves_plain : (conditions : List (Condition ℚ)) →
    conditionsLeaves (plainConditions conditions) = conditionsLeaves conditions
  | [] => by simp only [plainConditions]
  | condition :: conditions => by
    simp only [plainConditions, conditionsLeaves, conditionLeaves_plain condition,
      conditionsLeaves_plain conditions]

end

mutual

theorem plainCondition_plain : (condition : Condition ℚ) →
    plainCondition (plainCondition condition) = plainCondition condition
  | .comparison .. => by simp [plainCondition, plainValue_plain]
  | .crossover .. => by simp [plainCondition, plainValue_plain]
  | .logicalOp _ operands => by simp only [plainCondition, plainConditions_plain operands]

theorem plainConditions_plain : (conditions : List (Condition ℚ)) →
    plainConditions (plainConditions conditions) = plainConditions conditions
  | [] => by simp only [plainConditions]
  | condition :: conditions => by
    simp only [plainConditions, plainCondition_plain condition, plainConditions_plain conditions]

end

mutual

theorem blockLeaves_plain : (block : Block ℚ) → blockLeaves (plainBlock block) = blockLeaves block
  | .strategy .. => by simp only [plainBlock, blockLeaves]
  | .group _ children _ => by simp only [plainBlock, blockLeaves, blocksLeaves_plain children]
  | .weight _ children .. => by simp only [plainBlock, blockLeaves, blocksLeaves_plain children]
  | .asset .. => by simp only [plainBlock]
  | .onlyIf condition thenBlock => by
    simp only [plainBlock, blockLeaves, conditionLeaves_plain condition,
      blockLeaves_plain thenBlock]
  | .ifElse condition thenBlock elseBlock => by
    simp only [plainBlock, blockLeaves, conditionLeaves_plain condition,
      blockLeaves_plain thenBlock, blockLeaves_plain elseBlock]
  | .filter _ _ _ children _ => by simp only [plainBlock, blockLeaves, blocksLeaves_plain children]

theorem blocksLeaves_plain : (blocks : List (Block ℚ)) →
    blocksLeaves (plainBlocks blocks) = blocksLeaves blocks
  | [] => by simp only [plainBlocks]
  | block :: blocks => by
    simp only [plainBlocks, blocksLeaves, blockLeaves_plain block, blocksLeaves_plain blocks]

end

mutual

theorem plainBlock_plain : (block : Block ℚ) → plainBlock (plainBlock block) = plainBlock block
  | .strategy _ children _ => by simp only [plainBlock, plainBlocks_plain children]
  | .group _ children _ => by simp only [plainBlock, plainBlocks_plain children]
  | .weight _ children .. => by simp only [plainBlock, plainBlocks_plain children]
  | .asset .. => by simp only [plainBlock]
  | .onlyIf condition thenBlock => by
    simp only [plainBlock, plainCondition_plain condition, plainBlock_plain thenBlock]
  | .ifElse condition thenBlock elseBlock => by
    simp only [plainBlock, plainCondition_plain condition, plainBlock_plain thenBlock,
      plainBlock_plain elseBlock]
  | .filter _ _ _ children _ => by simp only [plainBlock, plainBlocks_plain children]

theorem plainBlocks_plain : (blocks : List (Block ℚ)) →
    plainBlocks (plainBlocks blocks) = plainBlocks blocks
  | [] => by simp only [plainBlocks]
  | block :: blocks => by
    simp only [plainBlocks, plainBlock_plain block, plainBlocks_plain blocks]

end

theorem DescribedStrategy.leaves_plain (strategy : DescribedStrategy) :
    strategy.plain.leaves = strategy.leaves := by
  simp [DescribedStrategy.plain, DescribedStrategy.leaves, blocksLeaves_plain]

theorem DescribedStrategy.plain_plain (strategy : DescribedStrategy) :
    strategy.plain.plain = strategy.plain := by
  simp [DescribedStrategy.plain, plainBlocks_plain]

/-! ## Validated strategies -/

/-- What the validator checks of a leaf. -/
def StrategyLeaf.Valid : StrategyLeaf → Prop
  | .period n => n ≠ 0
  | .nestedStrategy => False
  | _ => True

section Validated

variable {num : Numerics ℚ}

theorem valid_value {path : String} : {value : Value ℚ} → validateValue num path value = [] →
    ∀ leaf ∈ valueLeaves value, leaf.Valid
  | .numericLiteral _, _ => by simp [valueLeaves, StrategyLeaf.Valid]
  | .price .., _ => by simp [valueLeaves, StrategyLeaf.Valid]
  | .indicator ind, _ => by
    intro leaf hleaf
    cases leaf with
    | period n => cases houtput : ind.output <;> simp [valueLeaves, houtput] at hleaf
    | nestedStrategy => cases houtput : ind.output <;> simp [valueLeaves, houtput] at hleaf
    | _ => trivial
  | .metric metric, h => by
    intro leaf hleaf
    cases hperiod : metric.period with
    | none =>
      obtain rfl : leaf = .symbol metric.symbol := by simpa [valueLeaves, hperiod] using hleaf
      trivial
    | some n =>
      have hn : 0 < n := by simpa [validateValue, hperiod] using (List.append_eq_nil_iff.mp h).2
      obtain rfl | rfl : leaf = .symbol metric.symbol ∨ leaf = .period n := by
        simpa [valueLeaves, hperiod] using hleaf
      · trivial
      · exact hn.ne'

mutual

theorem valid_condition (path : String) : (condition : Condition ℚ) →
    validateCondition num path condition = [] → ∀ leaf ∈ conditionLeaves condition, leaf.Valid
  | .comparison _ left right, h => by
    rw [validateCondition, List.append_eq_nil_iff] at h
    intro leaf hleaf
    rw [conditionLeaves, List.mem_append] at hleaf
    rcases hleaf with hleaf | hleaf
    · exact valid_value h.1 leaf hleaf
    · exact valid_value h.2 leaf hleaf
  | .crossover _ fast slow, h => by
    rw [validateCondition, List.append_eq_nil_iff, List.append_eq_nil_iff] at h
    intro leaf hleaf
    rw [conditionLeaves, List.mem_append] at hleaf
    rcases hleaf with hleaf | hleaf
    · exact valid_value h.1.2 leaf hleaf
    · exact valid_value h.2 leaf hleaf
  | .logicalOp operator operands, h => by
    unfold validateCondition at h
    rw [conditionLeaves]
    exact valid_conditions path 0 operands (List.append_eq_nil_iff.mp h).2

theorem valid_conditions (path : String) (i : ℕ) : (conditions : List (Condition ℚ)) →
    validateOperands num path i conditions = [] → ∀ leaf ∈ conditionsLeaves conditions, leaf.Valid
  | [], _ => by simp [conditionsLeaves]
  | condition :: conditions, h => by
    rw [validateOperands, List.append_eq_nil_iff] at h
    intro leaf hleaf
    rw [conditionsLeaves, List.mem_append] at hleaf
    rcases hleaf with hleaf | hleaf
    · exact valid_condition _ condition h.1 leaf hleaf
    · exact valid_conditions path (i + 1) conditions h.2 leaf hleaf

end

theorem valid_weightLeaves (weight : Option ℚ) : ∀ leaf ∈ weightLeaves weight, leaf.Valid := by
  intro leaf hleaf
  obtain ⟨x, -, rfl⟩ := Option.mem_map.mp (Option.mem_toList.mp hleaf)
  trivial

mutual

theorem valid_block (path : String) : (block : Block ℚ) → validateBlock num path block = [] →
    ∀ leaf ∈ blockLeaves block, leaf.Valid
  | .strategy .., h => absurd h (by simp [validateBlock])
  | .group name children weight, h => by
    rw [validateBlock, List.append_eq_nil_iff, List.append_eq_nil_iff] at h
    intro leaf hleaf
    rw [blockLeaves, List.mem_cons, List.mem_append] at hleaf
    rcases hleaf with rfl | hleaf | hleaf
    · trivial
    · exact valid_weightLeaves weight leaf hleaf
    · exact valid_blocks path 0 children h.1.2 leaf hleaf
  | .weight _ children .., h => by
    rw [validateBlock, List.append_eq_nil_iff] at h
    rw [blockLeaves]
    exact valid_blocks path 0 children h.2
  | .asset symbol weight, _ => by
    intro leaf hleaf
    rw [blockLeaves, List.mem_cons] at hleaf
    rcases hleaf with rfl | hleaf
    · trivial
    · exact valid_weightLeaves weight leaf hleaf
  | .onlyIf .., h => absurd h (by simp [validateBlock])
  | .ifElse condition thenBlock elseBlock, h => by
    rw [validateBlock, List.append_eq_nil_iff, List.append_eq_nil_iff] at h
    intro leaf hleaf
    rw [blockLeaves, List.mem_append, List.mem_append] at hleaf
    rcases hleaf with hleaf | hleaf | hleaf
    · exact valid_condition _ condition h.1.1 leaf hleaf
    · exact valid_block _ thenBlock h.1.2 leaf hleaf
    · exact valid_block _ elseBlock h.2 leaf hleaf
  | .filter _ _ _ children _, h => by
    rw [validateBlock, List.append_eq_nil_iff] at h
    rw [blockLeaves]
    exact valid_blocks path 0 children h.2

theorem valid_blocks (path : String) (i : ℕ) : (blocks : List (Block ℚ)) →
    validateBlocks num path i blocks = [] → ∀ leaf ∈ blocksLeaves blocks, leaf.Valid
  | [], _ => by simp [blocksLeaves]
  | block :: blocks, h => by
    rw [validateBlocks, List.append_eq_nil_iff] at h
    intro leaf hleaf
    rw [blocksLeaves, List.mem_append] at hleaf
    rcases hleaf with hleaf | hleaf
    · exact valid_block _ block h.1 leaf hleaf
    · exact valid_blocks path (i + 1) blocks h.2 leaf hleaf

end

theorem valid_strategy {strategy : DescribedStrategy}
    (h : validateStrategy num strategy.toStrategy = []) :
    ∀ leaf ∈ strategy.leaves, leaf.Valid := by
  rw [validateStrategy, List.append_eq_nil_iff, List.append_eq_nil_iff] at h
  intro leaf hleaf
  simp only [DescribedStrategy.leaves, List.mem_cons, List.mem_append, Option.mem_toList,
    Option.map_eq_some_iff] at hleaf
  rcases hleaf with rfl | ⟨s, -, rfl⟩ | ⟨s, -, rfl⟩ | hleaf
  · trivial
  · trivial
  · trivial
  · exact valid_blocks "strategy" 0 strategy.children h.1.2 leaf hleaf

end Validated

/-! ## Round trips -/

/-- Every symbol of the strategy is a symbol token. -/
def DescribedStrategy.SymbolTokens (strategy : DescribedStrategy) : Prop :=
  ∀ symbol, .symbol symbol ∈ strategy.leaves → IsSymbol symbol

/-- Every number of the strategy is an exact decimal. -/
def DescribedStrategy.ExactDecimals (strategy : DescribedStrategy) : Prop :=
  ∀ x, .number x ∈ strategy.leaves → ExactDecimal x

/-- What is printed is read back. -/
structure DescribedStrategy.Printable (strategy : DescribedStrategy) : Prop where
  texts : ∀ s, .name s ∈ strategy.leaves → ¬HasBackslashN s
  description : strategy.description ≠ some ""
  outputs : ∀ s, .output s ∈ strategy.leaves → IsKeywordName s
  numbers : ∀ x, .number x ∈ strategy.leaves → x.den = 1 ∨ (1 / 10 ^ 4 ≤ |x| ∧ |x| < 10 ^ 16)
  nesting : strategy.nesting ≤ 150

section RoundTrip

variable {num : Numerics ℚ} {pretty : Bool} {strategy parsed : DescribedStrategy}

theorem lexes_leaves (hvalid : ∀ leaf ∈ strategy.leaves, leaf.Valid)
    (hsymbols : strategy.SymbolTokens)
    (houtputs : ∀ s, .output s ∈ strategy.leaves → IsKeywordName s) :
    ∀ leaf ∈ strategy.leaves, leaf.Lexes := by
  intro leaf hleaf
  cases leaf with
  | symbol s => exact hsymbols s hleaf
  | output s => exact houtputs s hleaf
  | nestedStrategy => exact hvalid _ hleaf
  | _ => trivial

theorem short_leaves (hvalid : ∀ leaf ∈ strategy.leaves, leaf.Valid)
    (hnumbers : ∀ x, .number x ∈ strategy.leaves → NoExponent x) :
    ∀ leaf ∈ strategy.leaves, leaf.Short := by
  intro leaf hleaf
  cases leaf with
  | number x => exact hnumbers x hleaf
  | nestedStrategy => exact hvalid _ hleaf
  | _ => trivial

theorem benchmark_ne_empty (hsymbols : strategy.SymbolTokens) : strategy.benchmark ≠ some "" := by
  intro h
  have hsymbol := hsymbols "" (by simp [DescribedStrategy.leaves, h])
  exact absurd hsymbol (by decide)

theorem parse_printable (hvalid : ∀ leaf ∈ strategy.leaves, leaf.Valid)
    (hsymbols : strategy.SymbolTokens) (hdecimals : strategy.ExactDecimals)
    (h : strategy.Printable) :
    parseStrategy (serialize strategy pretty) = .ok strategy.plain := by
  have hreads : ∀ leaf ∈ strategy.leaves, leaf.Reads := by
    intro leaf hleaf
    cases leaf with
    | symbol s => trivial
    | name s => exact h.texts s hleaf
    | number x => exact ⟨hdecimals x hleaf, h.numbers x hleaf⟩
    | output s => exact h.outputs s hleaf
    | period n => exact hvalid _ hleaf
    | nestedStrategy => exact hvalid _ hleaf
  rw [parseStrategy, tokenize_serialize strategy pretty (lexes_leaves hvalid hsymbols h.outputs),
    parseTokens_eq_ok]
  exact ⟨(checkNesting_tokens (short_leaves hvalid h.numbers)).mpr h.nesting,
    readsStrategy_tokens hreads (benchmark_ne_empty hsymbols) h.description⟩

/-- A strategy without an empty description, which is not printed. -/
def DescribedStrategy.undescribed (strategy : DescribedStrategy) : DescribedStrategy :=
  { strategy with description := strategy.description.filter (· ≠ "") }

theorem serialize_undescribed (strategy : DescribedStrategy) (pretty : Bool) :
    serialize strategy.undescribed pretty = serialize strategy pretty := by
  simp [serialize, DescribedStrategy.undescribed, strategyParts, Option.filter_filter]

theorem printable_of_parse (hvalid : ∀ leaf ∈ strategy.leaves, leaf.Valid)
    (hsymbols : strategy.SymbolTokens) (hdecimals : strategy.ExactDecimals)
    (hparse : parseStrategy (serialize strategy pretty) = .ok parsed)
    (hplain : parsed.plain = strategy.plain) : strategy.Printable := by
  have hleaves : parsed.leaves = strategy.leaves := by
    rw [← parsed.leaves_plain, hplain, strategy.leaves_plain]
  obtain ⟨hnesting, hreads⟩ := parseTokens_eq_ok.mp hparse
  have hfrom := hreads.readFrom
  rw [hleaves] at hfrom
  have htexts : ∀ s, .name s ∈ strategy.leaves → ¬HasBackslashN s := fun s hs => hfrom (.name s) hs
  have houtputs : ∀ s, .output s ∈ strategy.leaves → IsKeywordName s := by
    intro s hs
    obtain ⟨keyword, hkeyword, rfl⟩ := hfrom (.output s) hs
    exact isKeywordName_of_mem_tokenize hkeyword
  rw [tokenize_serialize strategy pretty (lexes_leaves hvalid hsymbols houtputs)]
    at hreads hnesting
  have hnumbers : ∀ x, .number x ∈ strategy.leaves → NoExponent x :=
    fun x hx => noExponent_of_reads hreads hx
  have hdepth := (checkNesting_tokens (short_leaves hvalid hnumbers)).mp hnesting
  refine ⟨htexts, fun hempty => ?_, houtputs, hnumbers, hdepth⟩
  -- The empty description is not printed, so the strategy without it is what is read.
  have hsubset : ∀ leaf ∈ strategy.undescribed.leaves, leaf ∈ strategy.leaves := by
    intro leaf hleaf
    simp only [DescribedStrategy.leaves, DescribedStrategy.undescribed, hempty] at hleaf ⊢
    simp only [List.mem_cons, List.mem_append] at hleaf ⊢
    rcases hleaf with hleaf | hleaf | hleaf | hleaf
    · exact .inl hleaf
    · exact .inr (.inl hleaf)
    · simp at hleaf
    · exact .inr (.inr (.inr hleaf))
  have hprintable : strategy.undescribed.Printable := by
    refine ⟨fun s hs => htexts s (hsubset _ hs), ?_, fun s hs => houtputs s (hsubset _ hs),
      fun x hx => hnumbers x (hsubset _ hx), hdepth⟩
    simp [DescribedStrategy.undescribed, hempty]
  have hread : parseStrategy (serialize strategy.undescribed pretty) =
      .ok strategy.undescribed.plain :=
    parse_printable (fun leaf hleaf => hvalid leaf (hsubset leaf hleaf))
      (fun s hs => hsymbols s (hsubset _ hs)) (fun x hx => hdecimals x (hsubset _ hx)) hprintable
  rw [serialize_undescribed, hparse] at hread
  obtain rfl : parsed = strategy.undescribed.plain := by simpa using hread
  have hdescription := congrArg DescribedStrategy.description hplain
  simp [DescribedStrategy.plain, DescribedStrategy.undescribed, hempty] at hdescription

/-- A validated strategy whose symbols are symbol tokens and whose numbers are exact decimals is
read back exactly if it is printable. -/
theorem round_trip_iff (num : Numerics ℚ) (strategy : DescribedStrategy) (pretty : Bool)
    (hvalid : validateStrategy num strategy.toStrategy = []) (hsymbols : strategy.SymbolTokens)
    (hdecimals : strategy.ExactDecimals) :
    (∃ parsed, parseStrategy (serialize strategy pretty) = .ok parsed ∧
        parsed.plain = strategy.plain) ↔ strategy.Printable := by
  constructor
  · rintro ⟨parsed, hparse, hplain⟩
    exact printable_of_parse (valid_strategy hvalid) hsymbols hdecimals hparse hplain
  · intro h
    exact ⟨strategy.plain, parse_printable (valid_strategy hvalid) hsymbols hdecimals h,
      strategy.plain_plain⟩

end RoundTrip

/-- A strategy of one stock, with a given name. -/
def oneStock (name : String) : DescribedStrategy :=
  ⟨⟨name, [.asset "SPY" none], none⟩, none, none⟩

theorem leaves_oneStock (name : String) :
    (oneStock name).leaves = [.name name, .symbol "SPY"] := by rfl

theorem symbolTokens_oneStock (name : String) : (oneStock name).SymbolTokens := by
  intro symbol h
  obtain rfl : symbol = "SPY" := by simpa [leaves_oneStock] using h
  decide

theorem exactDecimals_oneStock (name : String) : (oneStock name).ExactDecimals := by
  intro x h
  simp [leaves_oneStock] at h

theorem round_trip_one_stock :
    ∃ parsed, parseStrategy (serialize (oneStock "Core") true) = .ok parsed ∧
      parsed.plain = (oneStock "Core").plain := by
  refine (round_trip_iff ⟨fun _ => "", Char.isAlpha, id, fun _ => none⟩ (oneStock "Core") true
    (by rfl) (symbolTokens_oneStock _) (exactDecimals_oneStock _)).mpr ⟨?_, ?_, ?_, ?_, ?_⟩
  · intro s h
    obtain rfl : s = "Core" := by simpa [leaves_oneStock] using h
    decide
  · simp [oneStock]
  · intro s h
    simp [leaves_oneStock] at h
  · intro x h
    simp [leaves_oneStock] at h
  · decide

/-- A backslash before an `n` is read back as a backslash before a line break. -/
theorem round_trip_backslash_n :
    validateStrategy ⟨fun _ => "", Char.isAlpha, id, fun _ => none⟩
        (oneStock "Core\\new").toStrategy = [] ∧
      (oneStock "Core\\new").SymbolTokens ∧ (oneStock "Core\\new").ExactDecimals ∧
      parseStrategy (serialize (oneStock "Core\\new") false) = .ok (oneStock "Core\\\new") ∧
      ¬∃ parsed, parseStrategy (serialize (oneStock "Core\\new") false) = .ok parsed ∧
        parsed.plain = (oneStock "Core\\new").plain := by
  have hparse : parseStrategy (serialize (oneStock "Core\\new") false) =
      .ok (oneStock "Core\\\new") := by rfl
  refine ⟨by rfl, symbolTokens_oneStock _, exactDecimals_oneStock _, hparse, ?_⟩
  rintro ⟨parsed, h, hplain⟩
  obtain rfl : oneStock "Core\\\new" = parsed := by simpa using hparse.symm.trans h
  have hname := congrArg (fun s : DescribedStrategy => s.name) hplain
  exact absurd hname (by decide)

end LlamaTrade
