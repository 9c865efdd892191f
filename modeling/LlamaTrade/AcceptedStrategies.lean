import LlamaTrade.StrategyGrammar

/-!
# Accepted strategies

The parser accepts every strategy of the grammar whose parentheses are not nested too deeply, and
no other token sequence.
-/

namespace LlamaTrade

/-! ## Every form is parsed -/

section Complete

variable {ts us rest : List Token}

/-- The next token is not a keyword. -/
def NoKeyword (ts : List Token) : Prop := ∀ keyword us, ts ≠ .keyword keyword :: us

/-- A list of forms ends here. -/
def Closing (ts : List Token) : Prop := ts = [] ∨ ∃ us, ts = .rparen :: us

theorem noKeyword_rparen (ts : List Token) : NoKeyword (.rparen :: ts) := fun _ _ h => by cases h

theorem noKeyword_lparen (ts : List Token) : NoKeyword (.lparen :: ts) := fun _ _ h => by cases h

@[simp] theorem expect_cons (t : Token) (ts : List Token) : expect t (t :: ts) = .ok ts :=
  expect_eq_ok.mpr rfl

@[simp] theorem expectSymbol_cons (text : String) (ts : List Token) :
    expectSymbol text (.symbol text :: ts) = .ok ts :=
  expectSymbol_eq_ok.mpr rfl

@[simp] theorem parseSymbol_cons (message symbol : String) (ts : List Token) :
    parseSymbol message (.symbol symbol :: ts) = .ok (symbol, ts) := rfl

@[simp] theorem parseString_cons (value : String) (ts : List Token) :
    parseString (.string value :: ts) = .ok (stringText value, ts) := rfl

theorem ReadsOptional.parse {α : Type} {read : String → Parsing α} {name : String} {a : Option α}
    (h : ReadsOptional read name us a) (hrest : NoKeyword rest) :
    parseOptional read name (us ++ rest) = .ok (a, rest) := by
  cases h with
  | none =>
    rw [List.nil_append]
    unfold parseOptional
    split
    · exact absurd rfl (hrest _ _)
    · rfl
  | some hkeyword hread => simp [parseOptional, parseNumber, hkeyword, hread]

theorem parseParams_append {texts : List String} {params : List Param}
    (h : List.Forall₂ (fun text param => readParam text = .ok param) texts params)
    (hrest : ∀ text us, rest ≠ .number text :: us) :
    parseParams (texts.map .number ++ rest) = .ok (params, rest) := by
  induction h with
  | nil =>
    rw [List.map_nil, List.nil_append]
    unfold parseParams
    split
    · exact absurd rfl (hrest _ _)
    · rfl
  | cons hread _ ih => simp [parseParams, hread, ih]

theorem ReadsValue.parse {value : Value ℚ} (h : ReadsValue us value) (rest : List Token) :
    parseValue (us ++ rest) = .ok (value, rest) := by
  cases h with
  | number text => rfl
  | price symbol => rfl
  | priceField symbol hfield =>
    simp [parseValue, parsePriceRest, parseField, hfield]
  | indicator name symbol output hparams =>
    have hname : name.text ≠ "price" := by cases name <;> decide
    simp only [List.cons_append, List.append_assoc, parseValue, parseSymbol_cons, except_ok_bind,
      if_neg hname, IndicatorName.ofText_text, parseIndicatorRest]
    cases output with
    | none =>
      rw [parseParams_append hparams fun _ _ h => by simp at h]
      simp [parseOutput]
    | some keyword =>
      rw [parseParams_append hparams fun _ _ h => by simp at h]
      simp [parseOutput]
  | metric name symbol =>
    have hname : name.text ≠ "price" := by cases name <;> decide
    have hnone : IndicatorName.ofText name.text = none := by cases name <;> decide
    simp [parseValue, hname, hnone, parseMetricRest, parsePeriod]
  | metricPeriod name symbol hperiod =>
    have hname : name.text ≠ "price" := by cases name <;> decide
    have hnone : IndicatorName.ofText name.text = none := by cases name <;> decide
    simp [parseValue, hname, hnone, parseMetricRest, parsePeriod, hperiod]

theorem parseValues_append {α : Type} (f : Value ℚ → Value ℚ → α) {ls rs : List Token}
    {left right : Value ℚ} (hleft : ReadsValue ls left) (hright : ReadsValue rs right)
    (rest : List Token) :
    parseValues f (ls ++ (rs ++ .rparen :: rest)) = .ok (f left right, rest) := by
  simp [parseValues, hleft.parse, hright.parse]

/-! ### Conditions -/

theorem parseCondition_cons {t : Token} {operator : String} (hop : IsOperator t operator) (n : ℕ)
    (ts : List Token) :
    parseCondition (n + 1) (.lparen :: t :: ts) =
      parseConditionRest (parseConditions n) operator ts := by
  rcases hop with rfl | rfl <;> simp [parseCondition]

/-- The tokens are a condition, for a parser that may recurse as often as there are tokens. -/
def ParsesCondition (us : List Token) (condition : Condition ℚ) : Prop :=
  ∀ n rest, us.length ≤ n → parseCondition n (us ++ rest) = .ok (condition, rest)

def ParsesConditions (us : List Token) (conditions : List (Condition ℚ)) : Prop :=
  ∀ n rest, us.length < n → Closing rest → parseConditions n (us ++ rest) = .ok (conditions, rest)

theorem ParsesConditions.nil : ParsesConditions [] [] := by
  intro n rest hn hrest
  obtain ⟨n, rfl⟩ : ∃ m, n = m + 1 := ⟨n - 1, by simp at hn; omega⟩
  rcases hrest with rfl | ⟨vs, rfl⟩
  · rfl
  · rfl

theorem ParsesConditions.cons {us vs : List Token} {condition : Condition ℚ}
    {conditions : List (Condition ℚ)} (h : ParsesCondition (.lparen :: us) condition)
    (h' : ParsesConditions vs conditions) :
    ParsesConditions (.lparen :: us ++ vs) (condition :: conditions) := by
  intro n rest hn hrest
  obtain ⟨n, rfl⟩ : ∃ m, n = m + 1 := ⟨n - 1, by simp at hn; omega⟩
  simp only [List.cons_append, List.length_cons, List.length_append] at hn
  have hhead := h n (vs ++ rest) (by simp; omega)
  have htail := h' n rest (by omega) hrest
  simp only [List.cons_append] at hhead
  simp [parseConditions, hhead, htail]

theorem parsesComparison {t : Token} {operator : ComparisonOperator} {ls rs : List Token}
    {left right : Value ℚ} (hop : IsOperator t operator.text) (hleft : ReadsValue ls left)
    (hright : ReadsValue rs right) :
    ParsesCondition (.lparen :: t :: (ls ++ (rs ++ [.rparen])))
      (.comparison operator left right) := by
  intro n rest hn
  obtain ⟨n, rfl⟩ : ∃ m, n = m + 1 := ⟨n - 1, by simp at hn; omega⟩
  simp [parseCondition_cons hop, parseConditionRest, parseValues_append _ hleft hright]

theorem parsesCrossover {t : Token} {direction : CrossoverDirection} {ls rs : List Token}
    {fast slow : Value ℚ} (hop : IsOperator t direction.text) (hfast : ReadsValue ls fast)
    (hslow : ReadsValue rs slow) :
    ParsesCondition (.lparen :: t :: (ls ++ (rs ++ [.rparen]))) (.crossover direction fast slow) := by
  have hcomparison : ComparisonOperator.ofText direction.text = none := by
    cases direction <;> decide
  intro n rest hn
  obtain ⟨n, rfl⟩ : ∃ m, n = m + 1 := ⟨n - 1, by simp at hn; omega⟩
  simp [parseCondition_cons hop, parseConditionRest, hcomparison, parseValues_append _ hfast hslow]

theorem parsesLogicalOp {t : Token} {operator : LogicalOperator} {inner : List Token}
    {operands : List (Condition ℚ)} (hop : IsOperator t operator.text)
    (hinner : ParsesConditions inner operands) :
    ParsesCondition (.lparen :: t :: (inner ++ [.rparen])) (.logicalOp operator operands) := by
  have hcomparison : ComparisonOperator.ofText operator.text = none := by
    cases operator <;> decide
  have hcrossover : CrossoverDirection.ofText operator.text = none := by
    cases operator <;> decide
  intro n rest hn
  obtain ⟨n, rfl⟩ : ∃ m, n = m + 1 := ⟨n - 1, by simp at hn; omega⟩
  have hoperands := hinner n (.rparen :: rest) (by simp at hn; omega) (.inr ⟨rest, rfl⟩)
  simp [parseCondition_cons hop, parseConditionRest, hcomparison, hcrossover, hoperands]

theorem ReadsConditions.eq_nil (h : ReadsConditions us []) : us = [] := by
  cases h
  rfl

theorem ReadsConditions.parse {conditions : List (Condition ℚ)} (h : ReadsConditions us conditions) :
    ParsesConditions us conditions ∧
      ∀ condition, conditions = [condition] → ParsesCondition us condition := by
  induction h with
  | nil => exact ⟨.nil, fun _ hc => by cases hc⟩
  | comparison hop hleft hright hrest ih =>
    have hhead := parsesComparison hop hleft hright
    refine ⟨by simpa using ParsesConditions.cons hhead ih.1, ?_⟩
    rintro _ ⟨⟩
    rwa [hrest.eq_nil]
  | crossover hop hfast hslow hrest ih =>
    have hhead := parsesCrossover hop hfast hslow
    refine ⟨by simpa using ParsesConditions.cons hhead ih.1, ?_⟩
    rintro _ ⟨⟩
    rwa [hrest.eq_nil]
  | logicalOp hop hinner hrest ihinner ih =>
    have hhead := parsesLogicalOp hop ihinner.1
    refine ⟨by simpa using ParsesConditions.cons hhead ih.1, ?_⟩
    rintro _ ⟨⟩
    rwa [hrest.eq_nil]

/-! ### Blocks -/

def ParsesBlock (us : List Token) (block : Block ℚ) : Prop :=
  ∀ n rest, us.length ≤ n → parseBlock n (us ++ rest) = .ok (block, rest)

def ParsesBlocks (us : List Token) (blocks : List (Block ℚ)) : Prop :=
  ∀ n rest, us.length < n → Closing rest → parseBlocks n (us ++ rest) = .ok (blocks, rest)

theorem ParsesBlocks.nil : ParsesBlocks [] [] := by
  intro n rest hn hrest
  obtain ⟨n, rfl⟩ : ∃ m, n = m + 1 := ⟨n - 1, by simp at hn; omega⟩
  rcases hrest with rfl | ⟨vs, rfl⟩
  · rfl
  · rfl

theorem ParsesBlocks.cons {us vs : List Token} {block : Block ℚ} {blocks : List (Block ℚ)}
    (h : ParsesBlock (.lparen :: us) block) (h' : ParsesBlocks vs blocks) :
    ParsesBlocks (.lparen :: us ++ vs) (block :: blocks) := by
  intro n rest hn hrest
  obtain ⟨n, rfl⟩ : ∃ m, n = m + 1 := ⟨n - 1, by simp at hn; omega⟩
  simp only [List.cons_append, List.length_cons, List.length_append] at hn
  have hhead := h n (vs ++ rest) (by simp; omega)
  have htail := h' n rest (by omega) hrest
  simp only [List.cons_append] at hhead
  simp [parseBlocks, hhead, htail]

/-- The tokens after a list of blocks and a parenthesis do not start with a keyword. -/
theorem ReadsBlocks.noKeyword {inner : List Token} {blocks : List (Block ℚ)}
    (h : ReadsBlocks inner blocks) (rest : List Token) : NoKeyword (inner ++ .rparen :: rest) := by
  cases h with
  | nil => exact noKeyword_rparen rest
  | _ => exact noKeyword_lparen _

theorem ReadsWeightOptions.parse {before after : Option ℤ × Option ℤ}
    (h : ReadsWeightOptions before us after) (hrest : NoKeyword rest) :
    parseWeightOptions before.1 before.2 (us ++ rest) = .ok (after, rest) := by
  induction h with
  | nil options =>
    rw [List.nil_append]
    cases rest with
    | nil => rfl
    | cons t rest =>
      cases t with
      | keyword keyword => exact absurd rfl (hrest _ _)
      | _ => cases rest <;> rfl
  | lookback hkeyword hread _ ih => simpa [parseWeightOptions, hkeyword, hread] using ih
  | top hkeyword hread _ ih => simpa [parseWeightOptions, hkeyword, hread] using ih

section Forms

variable {inner os : List Token} {children : List (Block ℚ)}

theorem parsesGroup (value : String) {weight : Option ℚ}
    (hweight : ReadsOptional (fun text => .ok (readFloat text)) "weight" os weight)
    (hinner : ReadsBlocks inner children) (hparse : ParsesBlocks inner children) :
    ParsesBlock (.lparen :: .symbol "group" :: .string value :: (os ++ (inner ++ [.rparen])))
      (.group (stringText value) children weight) := by
  intro n rest hn
  obtain ⟨n, rfl⟩ : ∃ m, n = m + 1 := ⟨n - 1, by simp at hn; omega⟩
  have hoptions := hweight.parse (hinner.noKeyword rest)
  have hchildren := hparse n (.rparen :: rest) (by simp at hn; omega) (.inr ⟨rest, rfl⟩)
  simp [parseBlock, parseGroup, hoptions, hchildren]

theorem parsesWeight (method : WeightMethod) {lookback top : Option ℤ}
    (hoptions : ReadsWeightOptions (none, none) os (lookback, top))
    (hinner : ReadsBlocks inner children) (hparse : ParsesBlocks inner children) :
    ParsesBlock (.lparen :: .symbol "weight" :: .keyword ":method" :: .symbol method.text ::
        (os ++ (inner ++ [.rparen])))
      (.weight method children lookback top none) := by
  intro n rest hn
  obtain ⟨n, rfl⟩ : ∃ m, n = m + 1 := ⟨n - 1, by simp at hn; omega⟩
  have hmethod : ∀ ts, expectKeyword "method" (.keyword ":method" :: ts) = .ok ts :=
    fun _ => expectKeyword_eq_ok.mpr rfl
  have hoptions := hoptions.parse (hinner.noKeyword rest)
  have hchildren := hparse n (.rparen :: rest) (by simp at hn; omega) (.inr ⟨rest, rfl⟩)
  simp only at hoptions
  simp [parseBlock, parseWeight, hmethod, hoptions, hchildren]

theorem parsesAsset (symbol : String) {weight : Option ℚ}
    (hweight : ReadsOptional (fun text => .ok (readFloat text)) "weight" os weight) :
    ParsesBlock (.lparen :: .symbol "asset" :: .symbol symbol :: (os ++ [.rparen]))
      (.asset symbol weight) := by
  intro n rest hn
  obtain ⟨n, rfl⟩ : ∃ m, n = m + 1 := ⟨n - 1, by simp at hn; omega⟩
  have hoptions := hweight.parse (noKeyword_rparen rest)
  simp [parseBlock, parseAsset, hoptions]

variable {cs bs es : List Token} {condition : Condition ℚ} {thenBlock elseBlock : Block ℚ}

theorem parsesOnlyIf (hcondition : ParsesCondition cs condition) (hthen : ParsesBlock bs thenBlock) :
    ParsesBlock (.lparen :: .symbol "if" :: (cs ++ (bs ++ [.rparen])))
      (.onlyIf condition thenBlock) := by
  intro n rest hn
  obtain ⟨n, rfl⟩ : ∃ m, n = m + 1 := ⟨n - 1, by simp at hn; omega⟩
  have hcs := hcondition n (bs ++ .rparen :: rest) (by simp at hn; omega)
  have hbs := hthen n (.rparen :: rest) (by simp at hn; omega)
  simp [parseBlock, parseIf, hcs, hbs]

theorem parsesIfElse (hcondition : ParsesCondition cs condition) (hthen : ParsesBlock bs thenBlock)
    (helse : ParsesBlock es elseBlock) :
    ParsesBlock (.lparen :: .symbol "if" ::
        (cs ++ (bs ++ .lparen :: .symbol "else" :: (es ++ [.rparen, .rparen]))))
      (.ifElse condition thenBlock elseBlock) := by
  intro n rest hn
  obtain ⟨n, rfl⟩ : ∃ m, n = m + 1 := ⟨n - 1, by simp at hn; omega⟩
  have hcs := hcondition n
    (bs ++ .lparen :: .symbol "else" :: (es ++ .rparen :: .rparen :: rest)) (by simp at hn; omega)
  have hbs := hthen n (.lparen :: .symbol "else" :: (es ++ .rparen :: .rparen :: rest))
    (by simp at hn; omega)
  have hes := helse n (.rparen :: .rparen :: rest) (by simp at hn; omega)
  simp [parseBlock, parseIf, hcs, hbs, hes, Token.value]

theorem parsesFilter (criteria : FilterCriteria) (direction : SelectDirection) {text : String}
    {count : ℤ} {lookback : Option ℤ} (hcount : readInt text = .ok count)
    (hlookback : ReadsOptional readInt "lookback" os lookback)
    (hinner : ReadsBlocks inner children) (hparse : ParsesBlocks inner children) :
    ParsesBlock (.lparen :: .symbol "filter" :: .keyword ":by" :: .symbol criteria.text ::
        .keyword ":select" :: .lparen :: .symbol direction.text :: .number text :: .rparen ::
        (os ++ (inner ++ [.rparen])))
      (.filter criteria direction count children lookback) := by
  intro n rest hn
  obtain ⟨n, rfl⟩ : ∃ m, n = m + 1 := ⟨n - 1, by simp at hn; omega⟩
  have hby : ∀ ts, expectKeyword "by" (.keyword ":by" :: ts) = .ok ts :=
    fun _ => expectKeyword_eq_ok.mpr rfl
  have hselect : ∀ ts, expectKeyword "select" (.keyword ":select" :: ts) = .ok ts :=
    fun _ => expectKeyword_eq_ok.mpr rfl
  have hoptions := hlookback.parse (hinner.noKeyword rest)
  have hchildren := hparse n (.rparen :: rest) (by simp at hn; omega) (.inr ⟨rest, rfl⟩)
  simp [parseBlock, parseFilter, hby, hselect, parseNumber, hcount, hoptions, hchildren]

end Forms

theorem ReadsBlocks.eq_nil (h : ReadsBlocks us []) : us = [] := by
  cases h
  rfl

/-- A form and the forms after it. -/
theorem ParsesBlocks.of_head {us vs : List Token} {block : Block ℚ} {blocks : List (Block ℚ)}
    (hhead : ParsesBlock (.lparen :: us) block) (hrest : ReadsBlocks vs blocks)
    (hparse : ParsesBlocks vs blocks) :
    ParsesBlocks (.lparen :: us ++ vs) (block :: blocks) ∧
      ∀ b, block :: blocks = [b] → ParsesBlock (.lparen :: us ++ vs) b := by
  refine ⟨.cons hhead hparse, ?_⟩
  rintro _ ⟨⟩
  rwa [hrest.eq_nil, List.append_nil]

theorem ReadsBlocks.parse {blocks : List (Block ℚ)} (h : ReadsBlocks us blocks) :
    ParsesBlocks us blocks ∧ ∀ block, blocks = [block] → ParsesBlock us block := by
  induction h with
  | nil => exact ⟨.nil, fun _ hb => by cases hb⟩
  | group value hweight hinner hrest ihinner ih =>
    simpa using ParsesBlocks.of_head (parsesGroup value hweight hinner ihinner.1) hrest ih.1
  | weight method hoptions hinner hrest ihinner ih =>
    simpa using ParsesBlocks.of_head (parsesWeight method hoptions hinner ihinner.1) hrest ih.1
  | asset symbol hweight hrest ih =>
    simpa using ParsesBlocks.of_head (parsesAsset symbol hweight) hrest ih.1
  | onlyIf hcondition hthen hrest ihthen ih =>
    simpa using ParsesBlocks.of_head
      (parsesOnlyIf (hcondition.parse.2 _ rfl) (ihthen.2 _ rfl)) hrest ih.1
  | ifElse hcondition hthen helse hrest ihthen ihelse ih =>
    simpa using ParsesBlocks.of_head
      (parsesIfElse (hcondition.parse.2 _ rfl) (ihthen.2 _ rfl) (ihelse.2 _ rfl)) hrest ih.1
  | filter criteria direction hcount hlookback hinner hrest ihinner ih =>
    simpa using ParsesBlocks.of_head
      (parsesFilter criteria direction hcount hlookback hinner ihinner.1) hrest ih.1

/-! ### Strategies -/

theorem ReadsStrategyOptions.parse {before after : StrategyOptions}
    (h : ReadsStrategyOptions before us after) (hrest : NoKeyword rest) :
    parseStrategyOptions before (us ++ rest) = .ok (after, rest) := by
  induction h with
  | nil options =>
    rw [List.nil_append]
    cases rest with
    | nil => rfl
    | cons t rest =>
      cases t with
      | keyword keyword => exact absurd rfl (hrest _ _)
      | _ => cases rest <;> rfl
  | cons hname hset _ ih => simp [parseStrategyOptions, hname, hset, ih]

theorem ReadsStrategy.parse {strategy : DescribedStrategy} (h : ReadsStrategy us strategy) :
    parseStrategyForm us.length us = .ok (strategy, []) := by
  cases h with
  | strategy value hoptions hinner =>
    rename_i os inner options children
    have hparse := hoptions.parse (hinner.noKeyword [])
    have hchildren := hinner.parse.1
      (Token.lparen :: .symbol "strategy" :: .string value :: (os ++ (inner ++ [.rparen]))).length
      [.rparen] (by simp; omega) (.inr ⟨[], rfl⟩)
    simp only [parseStrategyForm, expect_cons, except_ok_bind, expectSymbol_cons, parseString_cons,
      hparse, hchildren]

/-- The parser accepts exactly the strategies of the grammar, within the bound on their nesting. -/
theorem parseTokens_eq_ok {ts : List Token} {strategy : DescribedStrategy} :
    parseTokens ts = .ok strategy ↔ checkNesting 0 ts = .ok () ∧ ReadsStrategy ts strategy := by
  constructor
  · intro h
    obtain ⟨⟨⟩, hnesting, h₁⟩ := except_bind_eq_ok.mp h
    split_ifs at h₁
    · simp at h₁
    · obtain ⟨⟨strategy', rest⟩, hparse, h₂⟩ := except_bind_eq_ok.mp h₁
      obtain ⟨used, rfl, hused⟩ := readsStrategy_of_parse hparse
      simp only at h₂
      split_ifs at h₂ with hrest
      · cases h₂
        subst hrest
        rw [List.append_nil] at hnesting ⊢
        exact ⟨hnesting, hused⟩
      · simp at h₂
  · rintro ⟨hnesting, hreads⟩
    have hne : ts ≠ [] := by
      rintro rfl
      cases hreads
    simp [parseTokens, hnesting, hne, hreads.parse]

end Complete

/-! ## Characters that are passed over -/

/-- The tokens are a strategy of the grammar, within the bound on its nesting. -/
def IsStrategy (ts : List Token) : Prop :=
  checkNesting 0 ts = .ok () ∧ ∃ strategy, ReadsStrategy ts strategy

/-- `parse_strategy` returns. -/
def AcceptedSource (source : String) : Prop := ∃ strategy, parseStrategy source = .ok strategy

theorem acceptedSource_iff (source : String) :
    AcceptedSource source ↔ IsStrategy (tokenize source.toList) := by
  simp only [AcceptedSource, parseStrategy, parseTokens_eq_ok, IsStrategy, exists_and_left]

/-- A source is accepted only if all its characters are recognised, unless the other characters
make up a strategy: the characters that no pattern matches are dropped. -/
theorem accepts_recognised_iff (source : String) :
    (AcceptedSource source → Recognised source.toList) ↔
      Recognised source.toList ∨ ¬IsStrategy (tokenize source.toList) := by
  rw [acceptedSource_iff]
  constructor
  · intro h
    by_cases hstrategy : IsStrategy (tokenize source.toList)
    · exact .inl (h hstrategy)
    · exact .inr hstrategy
  · rintro (h | h) hstrategy
    · exact h
    · exact absurd hstrategy h

/-- The index `^VIX` is read as the stock `VIX`. -/
theorem accepts_dropped_character :
    parseStrategy "(strategy \"x\" (asset ^VIX))" =
        .ok ⟨⟨"x", [.asset "VIX" none], none⟩, none, none⟩ ∧
      ¬(AcceptedSource "(strategy \"x\" (asset ^VIX))" →
        Recognised "(strategy \"x\" (asset ^VIX))".toList) := by
  have hparse : parseStrategy "(strategy \"x\" (asset ^VIX))" =
      .ok ⟨⟨"x", [.asset "VIX" none], none⟩, none, none⟩ := by rfl
  refine ⟨hparse, fun h => ?_⟩
  exact absurd (h ⟨_, hparse⟩) (by decide)

end LlamaTrade
