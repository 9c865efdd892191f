import LlamaTrade.PrintedNesting
import Mathlib.Data.List.Chain

/-!
# What is read back

Facts about every token sequence of the grammar and about what it denotes: no symbol follows a
number, so that a number with an exponent is not accepted; no text has a backslash before an `n`;
and the outputs of the indicators are names of keyword tokens.
-/

namespace LlamaTrade

open PyText

/-! ## Numbers before symbols -/

/-- No symbol directly follows a number. -/
def Apart (ts : List Token) : Prop :=
  ts.IsChain fun t u => ∀ number symbol, t = .number number → u ≠ .symbol symbol

section Apart

variable {us vs : List Token}

/-- No symbol directly follows a number, and no symbol comes first. -/
structure Separate (ts : List Token) : Prop where
  apart : Apart ts
  noSymbol : ∀ symbol us, ts ≠ .symbol symbol :: us

theorem separate_nil : Separate [] := ⟨.nil, by simp⟩

theorem Separate.append (h : Separate us) (h' : Separate vs) : Separate (us ++ vs) := by
  constructor
  · refine List.IsChain.append h.apart h'.apart fun t _ u hu number symbol _ hsymbol => ?_
    cases vs with
    | nil => simp at hu
    | cons v vs =>
      rw [List.head?_cons, Option.mem_some_iff] at hu
      exact h'.noSymbol symbol vs (by rw [hu, hsymbol])
  · intro symbol ts
    cases us with
    | nil => exact h'.noSymbol symbol ts
    | cons u us =>
      rw [List.cons_append]
      intro heq
      rw [List.cons.injEq] at heq
      exact h.noSymbol symbol us (by rw [heq.1])

/-- A token that is not a number. -/
theorem Apart.cons {t : Token} (h : Apart us) (ht : ∀ number, t ≠ .number number) :
    Apart (t :: us) := by
  cases us with
  | nil => exact .singleton t
  | cons u us => exact .cons_cons (fun number _ hnumber => absurd hnumber (ht number)) h

theorem Apart.symbol (h : Apart us) (s : String) : Apart (.symbol s :: us) := h.cons (by simp)

/-- A token that is neither a number nor a symbol. -/
theorem Apart.separate {t : Token} (h : Apart us) (ht : ∀ number, t ≠ .number number)
    (ht' : ∀ symbol, t ≠ .symbol symbol) : Separate (t :: us) :=
  ⟨h.cons ht, fun symbol _ heq => ht' symbol (List.cons.inj heq).1⟩

theorem Apart.lparen (h : Apart us) : Separate (.lparen :: us) := h.separate (by simp) (by simp)

theorem Apart.rparen (h : Apart us) : Separate (.rparen :: us) := h.separate (by simp) (by simp)

theorem Apart.keyword (h : Apart us) (s : String) : Separate (.keyword s :: us) :=
  h.separate (by simp) (by simp)

theorem Apart.string (h : Apart us) (s : String) : Separate (.string s :: us) :=
  h.separate (by simp) (by simp)

theorem Separate.number (h : Separate us) (s : String) : Separate (.number s :: us) := by
  refine ⟨?_, by simp⟩
  cases us with
  | nil => exact .singleton _
  | cons u us =>
    exact .cons_cons (fun _ symbol _ hu => h.noSymbol symbol us (by rw [hu])) h.apart

theorem separate_rparen : Separate [.rparen] := separate_nil.apart.rparen

theorem not_apart_of_infix {number symbol : String} {ts : List Token}
    (h : .number number :: .symbol symbol :: ts <:+: us) : ¬Apart us := by
  intro hapart
  have hinner : Apart (.number number :: .symbol symbol :: ts) := List.IsChain.infix hapart h
  exact (List.isChain_cons_cons.mp hinner).1 number symbol rfl rfl

theorem ReadsOptional.separate {α : Type} {read : String → Parsing α} {name : String}
    {a : Option α} (h : ReadsOptional read name us a) : Separate us := by
  cases h with
  | none => exact separate_nil
  | some => exact (separate_nil.number _).apart.keyword _

theorem separate_numbers (texts : List String) : Separate (texts.map .number) := by
  induction texts with
  | nil => exact separate_nil
  | cons text texts ih => exact ih.number text

theorem ReadsValue.separate {value : Value ℚ} (h : ReadsValue us value) : Separate us := by
  cases h with
  | number text => exact separate_nil.number text
  | price symbol => exact ((separate_rparen.apart.symbol symbol).symbol "price").lparen
  | priceField symbol =>
    exact (((separate_rparen.apart.keyword _).apart.symbol symbol).symbol "price").lparen
  | indicator name symbol output =>
    have houtput : Separate ((output.map .keyword).toList ++ [.rparen]) := by
      cases output with
      | none => exact separate_rparen
      | some keyword => exact separate_rparen.apart.keyword keyword
    exact ((((separate_numbers _).append houtput).apart.symbol symbol).symbol name.text).lparen
  | metric name symbol => exact ((separate_rparen.apart.symbol symbol).symbol name.text).lparen
  | metricPeriod name symbol =>
    exact (((separate_rparen.number _).apart.symbol symbol).symbol name.text).lparen

theorem IsOperator.ne_number {t : Token} {text : String} (h : IsOperator t text) :
    ∀ number, t ≠ .number number := by
  rcases h with rfl | rfl <;> simp

theorem ReadsConditions.separate {conditions : List (Condition ℚ)}
    (h : ReadsConditions us conditions) : Separate us := by
  induction h with
  | nil => exact separate_nil
  | comparison hop hleft hright _ ih =>
    exact ((hleft.separate.append (hright.separate.append ih.apart.rparen)).apart.cons
      hop.ne_number).lparen
  | crossover hop hfast hslow _ ih =>
    exact ((hfast.separate.append (hslow.separate.append ih.apart.rparen)).apart.cons
      hop.ne_number).lparen
  | logicalOp hop _ _ ihinner ih =>
    exact ((ihinner.append ih.apart.rparen).apart.cons hop.ne_number).lparen

theorem ReadsWeightOptions.separate {before after : Option ℤ × Option ℤ}
    (h : ReadsWeightOptions before us after) : Separate us := by
  induction h with
  | nil => exact separate_nil
  | lookback _ _ _ ih => exact (ih.number _).apart.keyword _
  | top _ _ _ ih => exact (ih.number _).apart.keyword _

theorem ReadsBlocks.separate {blocks : List (Block ℚ)} (h : ReadsBlocks us blocks) :
    Separate us := by
  induction h with
  | nil => exact separate_nil
  | group value hweight _ _ ihinner ih =>
    exact (((hweight.separate.append (ihinner.append ih.apart.rparen)).apart.string
      value).apart.symbol "group").lparen
  | weight method hoptions _ _ ihinner ih =>
    exact ((((hoptions.separate.append (ihinner.append ih.apart.rparen)).apart.symbol
      method.text).keyword ":method").apart.symbol "weight").lparen
  | asset symbol hweight _ ih =>
    exact (((hweight.separate.append ih.apart.rparen).apart.symbol symbol).symbol "asset").lparen
  | onlyIf hcondition _ _ ihthen ih =>
    exact ((hcondition.separate.append (ihthen.append ih.apart.rparen)).apart.symbol "if").lparen
  | ifElse hcondition _ _ _ ihthen ihelse ih =>
    have helse := ((ihelse.append ih.apart.rparen.apart.rparen).apart.symbol "else").lparen
    exact ((hcondition.separate.append (ihthen.append helse)).apart.symbol "if").lparen
  | filter criteria direction _ hlookback _ _ ihinner ih =>
    have hinner := (hlookback.separate.append (ihinner.append ih.apart.rparen)).apart.rparen
    exact (((((((hinner.number _).apart.symbol direction.text).lparen.apart.keyword
      ":select").apart.symbol criteria.text).keyword ":by").apart.symbol "filter")).lparen

theorem strategyOption_keyword {t : Token} {name : String} (h : strategyOption t = some name) :
    ∃ value, t = .keyword value := by
  cases t with
  | keyword value => exact ⟨value, rfl⟩
  | _ => simp [strategyOption] at h

theorem set_ne_number {options options' : StrategyOptions} {name number : String} {u : Token}
    (h : options.set name (some u) = .ok options') : u ≠ .number number := by
  rintro rfl
  unfold StrategyOptions.set at h
  split_ifs at h <;> simp at h

theorem ReadsStrategyOptions.separate {before after : StrategyOptions}
    (h : ReadsStrategyOptions before us after) : Separate us := by
  induction h with
  | nil => exact separate_nil
  | cons hname hset _ ih =>
    obtain ⟨value, rfl⟩ := strategyOption_keyword hname
    exact (ih.apart.cons fun _ => set_ne_number hset).keyword value

theorem ReadsStrategy.apart {strategy : DescribedStrategy} (h : ReadsStrategy us strategy) :
    Apart us := by
  cases h with
  | strategy value hoptions hinner =>
    exact (((hoptions.separate.append (hinner.separate.append separate_rparen)).apart.string
      value).apart.symbol "strategy").lparen.apart

end Apart

/-! ## Numbers with an exponent -/

section Exponents

variable {x : ℚ}

theorem infix_weightTokens {weight : Option ℚ} (h : .number x ∈ weightLeaves weight) :
    numberTokens x <:+: weightTokens weight := by
  cases weight with
  | none => simp [weightLeaves] at h
  | some y =>
    obtain rfl : x = y := by simpa [weightLeaves] using h
    exact ⟨[.keyword ":weight"], [], by simp [weightTokens, keywordTokens]⟩

theorem infix_valueTokens {value : Value ℚ} (h : .number x ∈ valueLeaves value) :
    numberTokens x <:+: valueTokens value := by
  cases value with
  | numericLiteral y =>
    obtain rfl : x = y := by simpa [valueLeaves] using h
    exact List.infix_refl _
  | price symbol field => simp [valueLeaves] at h
  | indicator ind =>
    obtain ⟨p, hp, rfl⟩ : ∃ p ∈ ind.params, p.value = x := by
      cases houtput : ind.output <;> simpa [valueLeaves, houtput] using h
    obtain ⟨before, after, hsplit⟩ := List.append_of_mem hp
    refine ⟨.lparen :: .symbol ind.name.text :: .symbol ind.symbol ::
      before.flatMap (fun p => numberTokens p.value), after.flatMap (fun p => numberTokens p.value) ++
        ((indicatorOutput ind.output).map .keyword ++ [.rparen]), ?_⟩
    simp [valueTokens, hsplit]
  | metric metric =>
    cases hperiod : metric.period <;> simp [valueLeaves, hperiod] at h

mutual

theorem infix_conditionTokens : (condition : Condition ℚ) → .number x ∈ conditionLeaves condition →
    numberTokens x <:+: conditionTokens condition
  | .comparison operator left right, h => by
    rw [conditionLeaves, List.mem_append] at h
    rw [conditionTokens]
    rcases h with h | h
    · exact (infix_valueTokens h).trans ⟨[.lparen, .operator operator.text],
        valueTokens right ++ [.rparen], by simp⟩
    · exact (infix_valueTokens h).trans ⟨.lparen :: .operator operator.text :: valueTokens left,
        [.rparen], by simp⟩
  | .crossover direction fast slow, h => by
    rw [conditionLeaves, List.mem_append] at h
    rw [conditionTokens]
    rcases h with h | h
    · exact (infix_valueTokens h).trans ⟨[.lparen, .operator direction.text],
        valueTokens slow ++ [.rparen], by simp⟩
    · exact (infix_valueTokens h).trans ⟨.lparen :: .operator direction.text :: valueTokens fast,
        [.rparen], by simp⟩
  | .logicalOp operator operands, h => by
    rw [conditionLeaves] at h
    rw [conditionTokens]
    exact (infix_conditionsTokens operands h).trans
      ⟨[.lparen, .symbol operator.text], [.rparen], by simp⟩

theorem infix_conditionsTokens : (conditions : List (Condition ℚ)) →
    .number x ∈ conditionsLeaves conditions → numberTokens x <:+: conditionsTokens conditions
  | [], h => absurd h (by simp [conditionsLeaves])
  | condition :: conditions, h => by
    rw [conditionsLeaves, List.mem_append] at h
    rw [conditionsTokens]
    rcases h with h | h
    · exact (infix_conditionTokens condition h).trans (List.prefix_append _ _).isInfix
    · exact (infix_conditionsTokens conditions h).trans (List.suffix_append _ _).isInfix

end

mutual

theorem infix_blockTokens : (block : Block ℚ) → .number x ∈ blockLeaves block →
    numberTokens x <:+: blockTokens block
  | .strategy .., h => absurd h (by simp [blockLeaves])
  | .group name children weight, h => by
    have h : .number x ∈ weightLeaves weight ∨ .number x ∈ blocksLeaves children := by
      simpa [blockLeaves] using h
    rw [blockTokens]
    rcases h with h | h
    · exact (infix_weightTokens h).trans ⟨[.lparen, .symbol "group", .string (quoted name)],
        blocksTokens children ++ [.rparen], by simp⟩
    · exact (infix_blocksTokens children h).trans ⟨.lparen :: .symbol "group" ::
        .string (quoted name) :: weightTokens weight, [.rparen], by simp⟩
  | .weight method children lookback top _, h => by
    rw [blockLeaves] at h
    rw [blockTokens]
    exact (infix_blocksTokens children h).trans ⟨.lparen :: .symbol "weight" ::
      .keyword ":method" :: .symbol method.text ::
        (intTokens ":lookback" lookback ++ intTokens ":top" top), [.rparen], by simp⟩
  | .asset symbol weight, h => by
    have h : .number x ∈ weightLeaves weight := by simpa [blockLeaves] using h
    rw [blockTokens]
    exact (infix_weightTokens h).trans ⟨[.lparen, .symbol "asset", .symbol symbol], [.rparen],
      by simp⟩
  | .onlyIf condition thenBlock, h => by
    rw [blockLeaves, List.mem_append] at h
    rw [blockTokens]
    rcases h with h | h
    · exact (infix_conditionTokens condition h).trans ⟨[.lparen, .symbol "if"],
        blockTokens thenBlock ++ [.rparen], by simp⟩
    · exact (infix_blockTokens thenBlock h).trans
        ⟨.lparen :: .symbol "if" :: conditionTokens condition, [.rparen], by simp⟩
  | .ifElse condition thenBlock elseBlock, h => by
    rw [blockLeaves, List.mem_append, List.mem_append] at h
    rw [blockTokens]
    rcases h with h | h | h
    · exact (infix_conditionTokens condition h).trans ⟨[.lparen, .symbol "if"],
        blockTokens thenBlock ++ .lparen :: .symbol "else" ::
          (blockTokens elseBlock ++ [.rparen, .rparen]), by simp⟩
    · exact (infix_blockTokens thenBlock h).trans
        ⟨.lparen :: .symbol "if" :: conditionTokens condition,
          .lparen :: .symbol "else" :: (blockTokens elseBlock ++ [.rparen, .rparen]), by simp⟩
    · exact (infix_blockTokens elseBlock h).trans
        ⟨.lparen :: .symbol "if" :: (conditionTokens condition ++
          (blockTokens thenBlock ++ [.lparen, .symbol "else"])), [.rparen, .rparen], by simp⟩
  | .filter criteria direction count children lookback, h => by
    rw [blockLeaves] at h
    rw [blockTokens]
    exact (infix_blocksTokens children h).trans ⟨.lparen :: .symbol "filter" :: .keyword ":by" ::
      .symbol criteria.text :: .keyword ":select" :: .lparen :: .symbol direction.text ::
      .number (intText count) :: .rparen :: intTokens ":lookback" lookback, [.rparen], by simp⟩

theorem infix_blocksTokens : (blocks : List (Block ℚ)) → .number x ∈ blocksLeaves blocks →
    numberTokens x <:+: blocksTokens blocks
  | [], h => absurd h (by simp [blocksLeaves])
  | block :: blocks, h => by
    rw [blocksLeaves, List.mem_append] at h
    rw [blocksTokens]
    rcases h with h | h
    · exact (infix_blockTokens block h).trans (List.prefix_append _ _).isInfix
    · exact (infix_blocksTokens blocks h).trans (List.suffix_append _ _).isInfix

end

/-- The tokens of a strategy with an exponent are not a strategy. -/
theorem noExponent_of_reads {strategy parsed : DescribedStrategy}
    (h : ReadsStrategy strategy.tokens parsed) (hx : .number x ∈ strategy.leaves) :
    NoExponent x := by
  by_contra hexponent
  have hblocks : .number x ∈ blocksLeaves strategy.children := by
    cases hbenchmark : strategy.benchmark <;> cases hdescription : strategy.description <;>
      simpa [DescribedStrategy.leaves, hbenchmark, hdescription] using hx
  have hinfix : numberTokens x <:+: strategy.tokens := (infix_blocksTokens _ hblocks).trans
    ⟨.lparen :: .symbol "strategy" :: .string (quoted strategy.name) ::
      strategyOptionTokens strategy.rebalance strategy.benchmark strategy.description, [.rparen],
      by simp [DescribedStrategy.tokens]⟩
  obtain ⟨number, symbol, ts, hts⟩ := numberTokens_of_exponent hexponent
  rw [hts] at hinfix
  exact not_apart_of_infix hinfix h.apart

end Exponents

/-! ## Texts -/

theorem matchKeyword_of_lexOne {cs rest : List Char} {s : String}
    (h : lexOne cs = some (.token (.keyword s), rest)) :
    matchKeyword cs = some (s.toList, rest) := by
  simp only [lexOne, Option.or_eq_some_iff, Matched.to, Option.map_eq_some_iff,
    Option.map_eq_none_iff, tokenOf, Prod.mk.injEq, reduceCtorEq, false_and, and_false, exists_false,
    false_or, Lexeme.token.injEq, Token.keyword.injEq, or_false] at h
  obtain ⟨-, -, -, ⟨text, rest'⟩, hkeyword, rfl, rfl⟩ := h
  simpa using hkeyword

theorem isKeywordName_of_matchKeyword {cs rest : List Char} {s : String}
    (h : matchKeyword cs = some (s.toList, rest)) : IsKeywordName (keywordName s) := by
  cases cs with
  | nil => simp [matchKeyword] at h
  | cons c cs =>
    rw [matchKeyword] at h
    split_ifs at h
    obtain ⟨⟨text, rest'⟩, hname, hpair⟩ := Option.map_eq_some_iff.mp h
    obtain ⟨htext, rfl⟩ : c :: text = s.toList ∧ rest' = rest := by simpa using hpair
    have hdrop : s.toList.drop 1 = text := by rw [← htext, List.drop_one, List.tail_cons]
    rw [IsKeywordName, keywordName, String.toList_ofList, hdrop]
    cases cs with
    | nil => simp [matchName] at hname
    | cons d cs =>
      rw [matchName] at hname
      split_ifs at hname with hd
      obtain ⟨rfl, -⟩ : d :: cs.takeWhile isNameChar = text ∧ cs.dropWhile isNameChar = rest' := by
        simpa using hname
      have hall : ∀ x ∈ cs.takeWhile isNameChar, isNameChar x := fun x hx =>
        List.mem_takeWhile_imp hx
      simp [matchName, hd, List.takeWhile_eq_self_iff.mpr hall, List.dropWhile_eq_nil_iff.mpr hall]

theorem isKeywordName_of_mem_tokenize {s : String} {cs : List Char} (h : .keyword s ∈ tokenize cs) :
    IsKeywordName (keywordName s) := by
  induction hlen : cs.length using Nat.strong_induction_on generalizing cs with
  | _ n ih =>
    subst hlen
    cases cs with
    | nil => simp at h
    | cons c cs =>
      cases hone : lexOne (c :: cs) with
      | none =>
        rw [tokenize_of_none hone] at h
        exact ih cs.length (by simp) h rfl
      | some p =>
        obtain ⟨lexeme, rest⟩ := p
        rw [tokenize_of_lexOne hone, List.mem_append] at h
        rcases h with h | h
        · cases lexeme with
          | token t =>
            obtain rfl : t = .keyword s := by simpa [Lexeme.token?, eq_comm] using h
            exact isKeywordName_of_matchKeyword (matchKeyword_of_lexOne hone)
          | _ => simp [Lexeme.token?] at h
        · exact ih rest.length (length_lt_of_lexOne hone) h rfl

/-- What is known of a leaf that is read from the tokens. -/
def StrategyLeaf.ReadFrom (ts : List Token) : StrategyLeaf → Prop
  | .name s => ¬HasBackslashN s
  | .output s => ∃ keyword, .keyword keyword ∈ ts ∧ keywordName keyword = s
  | _ => True

theorem StrategyLeaf.ReadFrom.mono {us vs : List Token} (h : us ⊆ vs) {leaf : StrategyLeaf}
    (hleaf : leaf.ReadFrom us) : leaf.ReadFrom vs := by
  cases leaf with
  | output s =>
    obtain ⟨keyword, hmem, hname⟩ := hleaf
    exact ⟨keyword, h hmem, hname⟩
  | _ => exact hleaf

theorem ReadsValue.readFrom {us : List Token} {value : Value ℚ} (h : ReadsValue us value) :
    ∀ leaf ∈ valueLeaves value, leaf.ReadFrom us := by
  intro leaf hleaf
  cases leaf with
  | name s => cases h <;> simp [valueLeaves] at hleaf
  | output s =>
    cases h with
    | indicator name symbol output hparams =>
      obtain ⟨keyword, rfl, rfl⟩ : ∃ keyword, output = some keyword ∧ keywordName keyword = s := by
        simpa [valueLeaves] using hleaf
      exact ⟨keyword, by simp, rfl⟩
    | _ => simp [valueLeaves] at hleaf
  | _ => trivial

theorem ReadsConditions.readFrom {us : List Token} {conditions : List (Condition ℚ)}
    (h : ReadsConditions us conditions) :
    ∀ leaf ∈ conditionsLeaves conditions, leaf.ReadFrom us := by
  induction h with
  | nil => simp [conditionsLeaves]
  | comparison _ hleft hright _ ih =>
    intro leaf hleaf
    simp only [conditionsLeaves, conditionLeaves, List.mem_append] at hleaf
    rcases hleaf with (hleaf | hleaf) | hleaf
    · exact (hleft.readFrom leaf hleaf).mono fun t ht => by simp [ht]
    · exact (hright.readFrom leaf hleaf).mono fun t ht => by simp [ht]
    · exact (ih leaf hleaf).mono fun t ht => by simp [ht]
  | crossover _ hfast hslow _ ih =>
    intro leaf hleaf
    simp only [conditionsLeaves, conditionLeaves, List.mem_append] at hleaf
    rcases hleaf with (hleaf | hleaf) | hleaf
    · exact (hfast.readFrom leaf hleaf).mono fun t ht => by simp [ht]
    · exact (hslow.readFrom leaf hleaf).mono fun t ht => by simp [ht]
    · exact (ih leaf hleaf).mono fun t ht => by simp [ht]
  | logicalOp _ _ _ ihinner ih =>
    intro leaf hleaf
    simp only [conditionsLeaves, conditionLeaves, List.mem_append] at hleaf
    rcases hleaf with hleaf | hleaf
    · exact (ihinner leaf hleaf).mono fun t ht => by simp [ht]
    · exact (ih leaf hleaf).mono fun t ht => by simp [ht]

theorem readFrom_weightLeaves (ts : List Token) (weight : Option ℚ) :
    ∀ leaf ∈ weightLeaves weight, leaf.ReadFrom ts := by
  intro leaf hleaf
  obtain ⟨x, -, rfl⟩ := Option.mem_map.mp (Option.mem_toList.mp hleaf)
  trivial

theorem conditionLeaves_eq (condition : Condition ℚ) :
    conditionLeaves condition = conditionsLeaves [condition] := by simp [conditionsLeaves]

theorem blockLeaves_eq (block : Block ℚ) : blockLeaves block = blocksLeaves [block] := by
  simp [blocksLeaves]

theorem ReadsBlocks.readFrom {us : List Token} {blocks : List (Block ℚ)} (h : ReadsBlocks us blocks) :
    ∀ leaf ∈ blocksLeaves blocks, leaf.ReadFrom us := by
  induction h with
  | nil => simp [blocksLeaves]
  | group value _ _ _ ihinner ih =>
    intro leaf hleaf
    simp only [blocksLeaves, blockLeaves, List.mem_append, List.mem_cons] at hleaf
    rcases hleaf with (rfl | hleaf | hleaf) | hleaf
    · exact not_hasBackslashN_stringText value
    · exact readFrom_weightLeaves _ _ leaf hleaf
    · exact (ihinner leaf hleaf).mono fun t ht => by simp [ht]
    · exact (ih leaf hleaf).mono fun t ht => by simp [ht]
  | weight method _ _ _ ihinner ih =>
    intro leaf hleaf
    simp only [blocksLeaves, blockLeaves, List.mem_append] at hleaf
    rcases hleaf with hleaf | hleaf
    · exact (ihinner leaf hleaf).mono fun t ht => by simp [ht]
    · exact (ih leaf hleaf).mono fun t ht => by simp [ht]
  | asset symbol _ _ ih =>
    intro leaf hleaf
    simp only [blocksLeaves, blockLeaves, List.mem_append, List.mem_cons] at hleaf
    rcases hleaf with (rfl | hleaf) | hleaf
    · trivial
    · exact readFrom_weightLeaves _ _ leaf hleaf
    · exact (ih leaf hleaf).mono fun t ht => by simp [ht]
  | onlyIf hcondition _ _ ihthen ih =>
    intro leaf hleaf
    simp only [blocksLeaves, blockLeaves, List.mem_append] at hleaf
    rcases hleaf with (hleaf | hleaf) | hleaf
    · rw [conditionLeaves_eq] at hleaf
      exact (hcondition.readFrom leaf hleaf).mono fun t ht => by simp [ht]
    · rw [blockLeaves_eq] at hleaf
      exact (ihthen leaf hleaf).mono fun t ht => by simp [ht]
    · exact (ih leaf hleaf).mono fun t ht => by simp [ht]
  | ifElse hcondition _ _ _ ihthen ihelse ih =>
    intro leaf hleaf
    simp only [blocksLeaves, blockLeaves, List.mem_append] at hleaf
    rcases hleaf with (hleaf | hleaf | hleaf) | hleaf
    · rw [conditionLeaves_eq] at hleaf
      exact (hcondition.readFrom leaf hleaf).mono fun t ht => by simp [ht]
    · rw [blockLeaves_eq] at hleaf
      exact (ihthen leaf hleaf).mono fun t ht => by simp [ht]
    · rw [blockLeaves_eq] at hleaf
      exact (ihelse leaf hleaf).mono fun t ht => by simp [ht]
    · exact (ih leaf hleaf).mono fun t ht => by simp [ht]
  | filter criteria direction _ _ _ _ ihinner ih =>
    intro leaf hleaf
    simp only [blocksLeaves, blockLeaves, List.mem_append] at hleaf
    rcases hleaf with hleaf | hleaf
    · exact (ihinner leaf hleaf).mono fun t ht => by simp [ht]
    · exact (ih leaf hleaf).mono fun t ht => by simp [ht]

theorem description_of_set {options options' : StrategyOptions} {name : String} {u : Token}
    (h : options.set name (some u) = .ok options') :
    options'.description = options.description ∨
      ∃ value, options'.description = some (stringText value) := by
  unfold StrategyOptions.set at h
  split_ifs at h
  · split at h
    · split at h
      · cases h
        exact .inl rfl
      · simp at h
    · simp at h
  · split at h
    · cases h
      exact .inl rfl
    · simp at h
  · split at h
    · cases h
      exact .inr ⟨_, rfl⟩
    · simp at h

theorem ReadsStrategyOptions.description {us : List Token} {before after : StrategyOptions}
    (h : ReadsStrategyOptions before us after)
    (hbefore : ∀ s ∈ before.description, ¬HasBackslashN s) :
    ∀ s ∈ after.description, ¬HasBackslashN s := by
  induction h with
  | nil => exact hbefore
  | cons _ hset _ ih =>
    refine ih fun s hs => ?_
    rcases description_of_set hset with heq | ⟨value, heq⟩
    · exact hbefore s (heq ▸ hs)
    · obtain rfl : stringText value = s := by simpa [heq] using hs
      exact not_hasBackslashN_stringText value

theorem ReadsStrategy.readFrom {us : List Token} {strategy : DescribedStrategy}
    (h : ReadsStrategy us strategy) : ∀ leaf ∈ strategy.leaves, leaf.ReadFrom us := by
  cases h with
  | strategy value hoptions hinner =>
    intro leaf hleaf
    simp only [DescribedStrategy.leaves, List.mem_cons, List.mem_append, Option.mem_toList,
      Option.map_eq_some_iff] at hleaf
    rcases hleaf with rfl | ⟨s, -, rfl⟩ | ⟨s, hs, rfl⟩ | hleaf
    · exact not_hasBackslashN_stringText value
    · trivial
    · exact hoptions.description (by simp [StrategyOptions.none]) s hs
    · exact (hinner.readFrom leaf hleaf).mono fun t ht => by simp [ht]

end LlamaTrade
