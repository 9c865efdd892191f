import LlamaTrade.StrategyParser

/-!
# Grammar of the strategy language

The token sequences that are values, conditions, blocks and strategies, and what each of them
denotes. The parser accepts exactly these sequences, with at most `maxNesting` open parentheses.
-/

namespace LlamaTrade

theorem except_bind_eq_ok {ε α β : Type} {x : Except ε α} {f : α → Except ε β} {b : β} :
    x >>= f = .ok b ↔ ∃ a, x = .ok a ∧ f a = .ok b := by
  cases x <;> simp [bind, Except.bind]

theorem except_map_eq_ok {ε α β : Type} {x : Except ε α} {f : α → β} {b : β} :
    x.map f = .ok b ↔ ∃ a, x = .ok a ∧ f a = b := by
  cases x <;> simp [Except.map]

@[simp] theorem except_ok_bind {ε α β : Type} (a : α) (f : α → Except ε β) :
    (.ok a : Except ε α) >>= f = f a := rfl

@[simp] theorem except_map_ok {ε α β : Type} (a : α) (f : α → β) :
    (.ok a : Except ε α).map f = .ok (f a) := rfl

@[simp] theorem parseFailure_ne_ok {α : Type} {message : String} {a : α} :
    parseFailure message = .ok a ↔ False :=
  iff_of_false (fun h => nomatch h) not_false

theorem text_of_withText {α : Type} {text : α → String} {members : List α} {value : String}
    {a : α} (h : withText text members value = some a) : value = text a := by
  have htext := List.find?_some h
  exact (of_decide_eq_true htext).symm

/-! ## Forms -/

/-- An optional keyword and its number. -/
inductive ReadsOptional {α : Type} (read : String → Parsing α) (name : String) :
    List Token → Option α → Prop
  | none : ReadsOptional read name [] none
  | some {keyword text : String} {a : α} (hkeyword : keywordName keyword = name)
      (hread : read text = .ok a) :
      ReadsOptional read name [.keyword keyword, .number text] (some a)

inductive ReadsValue : List Token → Value ℚ → Prop
  | number (text : String) : ReadsValue [.number text] (.numericLiteral (readFloat text))
  | price (symbol : String) :
      ReadsValue [.lparen, .symbol "price", .symbol symbol, .rparen] (.price symbol .close)
  | priceField (symbol : String) {keyword : String} {field : PriceField}
      (hfield : PriceField.ofText (keywordName keyword) = some field) :
      ReadsValue [.lparen, .symbol "price", .symbol symbol, .keyword keyword, .rparen]
        (.price symbol field)
  | indicator (name : IndicatorName) (symbol : String) {texts : List String} {params : List Param}
      (output : Option String)
      (hparams : List.Forall₂ (fun text param => readParam text = .ok param) texts params) :
      ReadsValue
        (.lparen :: .symbol name.text :: .symbol symbol ::
          (texts.map .number ++ ((output.map .keyword).toList ++ [.rparen])))
        (.indicator ⟨name, symbol, params, output.map keywordName, none⟩)
  | metric (name : MetricName) (symbol : String) :
      ReadsValue [.lparen, .symbol name.text, .symbol symbol, .rparen]
        (.metric ⟨name, symbol, none⟩)
  | metricPeriod (name : MetricName) (symbol : String) {text : String} {period : ℤ}
      (hperiod : readInt text = .ok period) :
      ReadsValue [.lparen, .symbol name.text, .symbol symbol, .number text, .rparen]
        (.metric ⟨name, symbol, some period⟩)

/-- An operator is an operator token or a symbol. -/
def IsOperator (t : Token) (text : String) : Prop := t = .operator text ∨ t = .symbol text

inductive ReadsConditions : List Token → List (Condition ℚ) → Prop
  | nil : ReadsConditions [] []
  | comparison {t : Token} {operator : ComparisonOperator} {ls rs rest : List Token}
      {left right : Value ℚ} {conditions : List (Condition ℚ)}
      (hop : IsOperator t operator.text) (hleft : ReadsValue ls left) (hright : ReadsValue rs right)
      (hrest : ReadsConditions rest conditions) :
      ReadsConditions (.lparen :: t :: (ls ++ (rs ++ .rparen :: rest)))
        (.comparison operator left right :: conditions)
  | crossover {t : Token} {direction : CrossoverDirection} {ls rs rest : List Token}
      {fast slow : Value ℚ} {conditions : List (Condition ℚ)}
      (hop : IsOperator t direction.text) (hfast : ReadsValue ls fast) (hslow : ReadsValue rs slow)
      (hrest : ReadsConditions rest conditions) :
      ReadsConditions (.lparen :: t :: (ls ++ (rs ++ .rparen :: rest)))
        (.crossover direction fast slow :: conditions)
  | logicalOp {t : Token} {operator : LogicalOperator} {inner rest : List Token}
      {operands conditions : List (Condition ℚ)}
      (hop : IsOperator t operator.text) (hinner : ReadsConditions inner operands)
      (hrest : ReadsConditions rest conditions) :
      ReadsConditions (.lparen :: t :: (inner ++ .rparen :: rest))
        (.logicalOp operator operands :: conditions)

/-- The options of a weight block, which change those that are already read. -/
inductive ReadsWeightOptions : Option ℤ × Option ℤ → List Token → Option ℤ × Option ℤ → Prop
  | nil (options : Option ℤ × Option ℤ) : ReadsWeightOptions options [] options
  | lookback {keyword text : String} {n : ℤ} {lookback top : Option ℤ} {ts : List Token}
      {options : Option ℤ × Option ℤ} (hkeyword : keywordName keyword = "lookback")
      (hread : readInt text = .ok n) (hrest : ReadsWeightOptions (some n, top) ts options) :
      ReadsWeightOptions (lookback, top) (.keyword keyword :: .number text :: ts) options
  | top {keyword text : String} {n : ℤ} {lookback top : Option ℤ} {ts : List Token}
      {options : Option ℤ × Option ℤ} (hkeyword : keywordName keyword = "top")
      (hread : readInt text = .ok n) (hrest : ReadsWeightOptions (lookback, some n) ts options) :
      ReadsWeightOptions (lookback, top) (.keyword keyword :: .number text :: ts) options

inductive ReadsBlocks : List Token → List (Block ℚ) → Prop
  | nil : ReadsBlocks [] []
  | group (value : String) {ws inner rest : List Token} {weight : Option ℚ}
      {children blocks : List (Block ℚ)}
      (hweight : ReadsOptional (fun text => .ok (readFloat text)) "weight" ws weight)
      (hinner : ReadsBlocks inner children) (hrest : ReadsBlocks rest blocks) :
      ReadsBlocks (.lparen :: .symbol "group" :: .string value :: (ws ++ (inner ++ .rparen :: rest)))
        (.group (stringText value) children weight :: blocks)
  | weight (method : WeightMethod) {os inner rest : List Token} {lookback top : Option ℤ}
      {children blocks : List (Block ℚ)}
      (hoptions : ReadsWeightOptions (none, none) os (lookback, top))
      (hinner : ReadsBlocks inner children) (hrest : ReadsBlocks rest blocks) :
      ReadsBlocks (.lparen :: .symbol "weight" :: .keyword ":method" :: .symbol method.text ::
          (os ++ (inner ++ .rparen :: rest)))
        (.weight method children lookback top none :: blocks)
  | asset (symbol : String) {ws rest : List Token} {weight : Option ℚ} {blocks : List (Block ℚ)}
      (hweight : ReadsOptional (fun text => .ok (readFloat text)) "weight" ws weight)
      (hrest : ReadsBlocks rest blocks) :
      ReadsBlocks (.lparen :: .symbol "asset" :: .symbol symbol :: (ws ++ .rparen :: rest))
        (.asset symbol weight :: blocks)
  | onlyIf {cs bs rest : List Token} {condition : Condition ℚ} {block : Block ℚ}
      {blocks : List (Block ℚ)} (hcondition : ReadsConditions cs [condition])
      (hthen : ReadsBlocks bs [block]) (hrest : ReadsBlocks rest blocks) :
      ReadsBlocks (.lparen :: .symbol "if" :: (cs ++ (bs ++ .rparen :: rest)))
        (.onlyIf condition block :: blocks)
  | ifElse {cs bs es rest : List Token} {condition : Condition ℚ} {thenBlock elseBlock : Block ℚ}
      {blocks : List (Block ℚ)} (hcondition : ReadsConditions cs [condition])
      (hthen : ReadsBlocks bs [thenBlock]) (helse : ReadsBlocks es [elseBlock])
      (hrest : ReadsBlocks rest blocks) :
      ReadsBlocks (.lparen :: .symbol "if" ::
          (cs ++ (bs ++ .lparen :: .symbol "else" :: (es ++ .rparen :: .rparen :: rest))))
        (.ifElse condition thenBlock elseBlock :: blocks)
  | filter (criteria : FilterCriteria) (direction : SelectDirection) {text : String} {count : ℤ}
      {os inner rest : List Token} {lookback : Option ℤ} {children blocks : List (Block ℚ)}
      (hcount : readInt text = .ok count) (hlookback : ReadsOptional readInt "lookback" os lookback)
      (hinner : ReadsBlocks inner children) (hrest : ReadsBlocks rest blocks) :
      ReadsBlocks (.lparen :: .symbol "filter" :: .keyword ":by" :: .symbol criteria.text ::
          .keyword ":select" :: .lparen :: .symbol direction.text :: .number text :: .rparen ::
          (os ++ (inner ++ .rparen :: rest)))
        (.filter criteria direction count children lookback :: blocks)

/-- The options of a strategy, which change those that are already read. -/
inductive ReadsStrategyOptions : StrategyOptions → List Token → StrategyOptions → Prop
  | nil (options : StrategyOptions) : ReadsStrategyOptions options [] options
  | cons {t u : Token} {name : String} {ts : List Token}
      {options options' options'' : StrategyOptions} (hname : strategyOption t = some name)
      (hset : options.set name (some u) = .ok options')
      (hrest : ReadsStrategyOptions options' ts options'') :
      ReadsStrategyOptions options (t :: u :: ts) options''

inductive ReadsStrategy : List Token → DescribedStrategy → Prop
  | strategy (value : String) {os inner : List Token} {options : StrategyOptions}
      {children : List (Block ℚ)} (hoptions : ReadsStrategyOptions .none os options)
      (hinner : ReadsBlocks inner children) :
      ReadsStrategy
        (.lparen :: .symbol "strategy" :: .string value :: (os ++ (inner ++ [.rparen])))
        ⟨⟨stringText value, children, options.rebalance⟩, options.benchmark, options.description⟩

/-! ## What is parsed has the form -/

theorem ok_pair_inj {α : Type} {a b : α} {us vs : List Token} :
    (.ok (a, us) : Parsing (α × List Token)) = .ok (b, vs) ↔ a = b ∧ us = vs := by
  rw [Except.ok.injEq, Prod.mk.injEq]

section Sound

variable {ts rest : List Token}

@[simp] theorem expect_eq_ok {t : Token} : expect t ts = .ok rest ↔ ts = t :: rest := by
  cases ts with
  | nil => simp [expect]
  | cons u ts =>
    rw [expect]
    split_ifs with hu
    · simp [hu]
    · simp [hu]

@[simp] theorem expectSymbol_eq_ok {text : String} :
    expectSymbol text ts = .ok rest ↔ ts = .symbol text :: rest := by
  cases ts with
  | nil => simp [expectSymbol]
  | cons u ts =>
    rw [expectSymbol]
    split_ifs with hu
    · simp [hu]
    · simp [hu]

@[simp] theorem expectKeyword_eq_ok {text : String} :
    expectKeyword text ts = .ok rest ↔ ts = .keyword (":" ++ text) :: rest := by
  have htext : s!":{text}" = ":" ++ text := rfl
  cases ts with
  | nil => simp [expectKeyword]
  | cons u ts =>
    rw [expectKeyword, htext]
    split_ifs with hu
    · simp [hu]
    · simp [hu]

@[simp] theorem parseString_eq_ok {text : String} :
    parseString ts = .ok (text, rest) ↔
      ∃ value, ts = .string value :: rest ∧ stringText value = text := by
  unfold parseString
  split
  · simp [and_comm]
  · rename_i hne
    exact iff_of_false (by simp) fun ⟨value, hts, _⟩ => hne _ _ hts

@[simp] theorem parseSymbol_eq_ok {message symbol : String} :
    parseSymbol message ts = .ok (symbol, rest) ↔ ts = .symbol symbol :: rest := by
  unfold parseSymbol
  split
  · simp
  · rename_i hne
    exact iff_of_false (by simp) fun hts => hne _ _ hts

@[simp] theorem parseNumber_eq_ok {α : Type} {read : String → Parsing α} {message : String} {a : α} :
    parseNumber read message ts = .ok (a, rest) ↔
      ∃ text, ts = .number text :: rest ∧ read text = .ok a := by
  unfold parseNumber
  split
  · simp [except_map_eq_ok, and_comm]
  · rename_i hne
    exact iff_of_false (by simp) fun ⟨text, hts, _⟩ => hne _ _ hts

theorem readsOptional_of_parseOptional {α : Type} {read : String → Parsing α} {name : String}
    {a : Option α} (h : parseOptional read name ts = .ok (a, rest)) :
    ∃ used, ts = used ++ rest ∧ ReadsOptional read name used a := by
  unfold parseOptional at h
  split at h
  · split_ifs at h with hname
    · obtain ⟨⟨b, us⟩, hb, hpair⟩ := except_map_eq_ok.mp h
      cases hpair
      obtain ⟨text, rfl, hread⟩ := parseNumber_eq_ok.mp hb
      exact ⟨_, rfl, .some hname hread⟩
    · cases h
      exact ⟨[], rfl, .none⟩
  · cases h
    exact ⟨[], rfl, .none⟩

theorem readsValue_of_parsePriceRest {value : Value ℚ} (h : parsePriceRest ts = .ok (value, rest)) :
    ∃ used, .lparen :: .symbol "price" :: ts = used ++ rest ∧ ReadsValue used value := by
  obtain ⟨⟨symbol, us⟩, hsymbol, h₁⟩ := except_bind_eq_ok.mp h
  obtain ⟨⟨field, vs⟩, hfield, h₂⟩ := except_bind_eq_ok.mp h₁
  obtain ⟨ws, hend, hvalue⟩ := except_bind_eq_ok.mp h₂
  obtain ⟨rfl, rfl⟩ := ok_pair_inj.mp hvalue
  obtain rfl := expect_eq_ok.mp hend
  rw [parseSymbol_eq_ok.mp hsymbol]
  unfold parseField at hfield
  split at hfield
  · split at hfield
    · rename_i keyword us field' hname
      obtain ⟨rfl, rfl⟩ := ok_pair_inj.mp hfield
      exact ⟨_, rfl, .priceField symbol hname⟩
    · simp at hfield
  · obtain ⟨rfl, rfl⟩ := ok_pair_inj.mp hfield
    exact ⟨_, rfl, .price symbol⟩

theorem readsParams_of_parseParams {params : List Param} (h : parseParams ts = .ok (params, rest)) :
    ∃ texts, ts = texts.map .number ++ rest ∧
      List.Forall₂ (fun text param => readParam text = .ok param) texts params := by
  fun_induction parseParams ts generalizing params with
  | case1 text ts ih =>
    obtain ⟨param, hparam, h₁⟩ := except_bind_eq_ok.mp h
    obtain ⟨⟨others, us⟩, hothers, h₂⟩ := except_bind_eq_ok.mp h₁
    obtain ⟨rfl, rfl⟩ := ok_pair_inj.mp h₂
    obtain ⟨texts, rfl, htexts⟩ := ih hothers
    exact ⟨text :: texts, rfl, .cons hparam htexts⟩
  | case2 ts =>
    obtain ⟨rfl, rfl⟩ := ok_pair_inj.mp h
    exact ⟨[], rfl, .nil⟩

theorem eq_of_parseOutput {output : Option String} (h : parseOutput ts = .ok (output, rest)) :
    ∃ keyword : Option String, ts = (keyword.map .keyword).toList ++ rest ∧
      output = keyword.map keywordName := by
  unfold parseOutput at h
  split at h
  · obtain ⟨rfl, rfl⟩ := ok_pair_inj.mp h
    exact ⟨some _, rfl, rfl⟩
  · obtain ⟨rfl, rfl⟩ := ok_pair_inj.mp h
    exact ⟨none, rfl, rfl⟩

theorem readsValue_of_parseIndicatorRest {name : IndicatorName} {value : Value ℚ}
    (h : parseIndicatorRest name ts = .ok (value, rest)) :
    ∃ used, .lparen :: .symbol name.text :: ts = used ++ rest ∧ ReadsValue used value := by
  obtain ⟨⟨symbol, us⟩, hsymbol, h₁⟩ := except_bind_eq_ok.mp h
  obtain ⟨⟨params, vs⟩, hparams, h₂⟩ := except_bind_eq_ok.mp h₁
  obtain ⟨⟨output, ws⟩, houtput, h₃⟩ := except_bind_eq_ok.mp h₂
  obtain ⟨xs, hend, hvalue⟩ := except_bind_eq_ok.mp h₃
  obtain ⟨rfl, rfl⟩ := ok_pair_inj.mp hvalue
  obtain ⟨texts, rfl, htexts⟩ := readsParams_of_parseParams hparams
  obtain ⟨keyword, rfl, rfl⟩ := eq_of_parseOutput houtput
  obtain rfl := expect_eq_ok.mp hend
  rw [parseSymbol_eq_ok.mp hsymbol]
  exact ⟨_, by simp, .indicator name symbol keyword htexts⟩

theorem readsValue_of_parseMetricRest {name : MetricName} {value : Value ℚ}
    (h : parseMetricRest name ts = .ok (value, rest)) :
    ∃ used, .lparen :: .symbol name.text :: ts = used ++ rest ∧ ReadsValue used value := by
  obtain ⟨⟨symbol, us⟩, hsymbol, h₁⟩ := except_bind_eq_ok.mp h
  obtain ⟨⟨period, vs⟩, hperiod, h₂⟩ := except_bind_eq_ok.mp h₁
  obtain ⟨ws, hend, hvalue⟩ := except_bind_eq_ok.mp h₂
  obtain ⟨rfl, rfl⟩ := ok_pair_inj.mp hvalue
  obtain rfl := expect_eq_ok.mp hend
  rw [parseSymbol_eq_ok.mp hsymbol]
  unfold parsePeriod at hperiod
  split at hperiod
  · obtain ⟨n, hn, hpair⟩ := except_map_eq_ok.mp hperiod
    cases hpair
    exact ⟨_, rfl, .metricPeriod name symbol hn⟩
  · obtain ⟨rfl, rfl⟩ := ok_pair_inj.mp hperiod
    exact ⟨_, rfl, .metric name symbol⟩

theorem readsValue_of_parseValue {value : Value ℚ} (h : parseValue ts = .ok (value, rest)) :
    ∃ used, ts = used ++ rest ∧ ReadsValue used value := by
  unfold parseValue at h
  split at h
  · simp at h
  · obtain ⟨rfl, rfl⟩ := ok_pair_inj.mp h
    exact ⟨_, rfl, .number _⟩
  · obtain ⟨⟨function, us⟩, hfunction, h₁⟩ := except_bind_eq_ok.mp h
    rw [parseSymbol_eq_ok.mp hfunction]
    simp only at h₁
    split_ifs at h₁ with hprice
    · rw [hprice]
      exact readsValue_of_parsePriceRest h₁
    · split at h₁
      · rename_i name hname
        rw [text_of_withText hname]
        exact readsValue_of_parseIndicatorRest h₁
      · split at h₁
        · rename_i name hname
          rw [text_of_withText hname]
          exact readsValue_of_parseMetricRest h₁
        · simp at h₁
  · simp at h

/-! ### Conditions -/

theorem ReadsConditions.append {us vs : List Token} {as bs : List (Condition ℚ)}
    (ha : ReadsConditions us as) (hb : ReadsConditions vs bs) :
    ReadsConditions (us ++ vs) (as ++ bs) := by
  induction ha with
  | nil => exact hb
  | comparison hop hleft hright _ ih =>
    simp only [List.cons_append, List.append_assoc]
    exact .comparison hop hleft hright ih
  | crossover hop hfast hslow _ ih =>
    simp only [List.cons_append, List.append_assoc]
    exact .crossover hop hfast hslow ih
  | logicalOp hop hinner _ _ ih =>
    simp only [List.cons_append, List.append_assoc]
    exact .logicalOp hop hinner ih

theorem readsValues_of_parseValues {α : Type} {f : Value ℚ → Value ℚ → α} {a : α}
    (h : parseValues f ts = .ok (a, rest)) :
    ∃ ls rs left right, ts = ls ++ (rs ++ .rparen :: rest) ∧ ReadsValue ls left ∧
      ReadsValue rs right ∧ f left right = a := by
  obtain ⟨⟨left, us⟩, hl, h₁⟩ := except_bind_eq_ok.mp h
  obtain ⟨⟨right, vs⟩, hr, h₂⟩ := except_bind_eq_ok.mp h₁
  obtain ⟨ws, hend, hvalue⟩ := except_bind_eq_ok.mp h₂
  obtain ⟨hf, rfl⟩ := ok_pair_inj.mp hvalue
  obtain ⟨ls, rfl, hleft⟩ := readsValue_of_parseValue hl
  obtain ⟨rs, rfl, hright⟩ := readsValue_of_parseValue hr
  obtain rfl := expect_eq_ok.mp hend
  exact ⟨ls, rs, left, right, by simp, hleft, hright, hf⟩

/-- What the parser of the operands reads is conditions. -/
def OperandsSound (parseOperands : List Token → Parsing (List (Condition ℚ) × List Token)) : Prop :=
  ∀ {ts rest : List Token} {conditions : List (Condition ℚ)},
    parseOperands ts = .ok (conditions, rest) →
      ∃ used, ts = used ++ rest ∧ ReadsConditions used conditions

theorem readsConditions_of_parseConditionRest
    {parseOperands : List Token → Parsing (List (Condition ℚ) × List Token)}
    (hoperands : OperandsSound parseOperands) {t : Token} {operator : String}
    (hop : IsOperator t operator) {condition : Condition ℚ}
    (h : parseConditionRest parseOperands operator ts = .ok (condition, rest)) :
    ∃ used, .lparen :: t :: ts = used ++ rest ∧ ReadsConditions used [condition] := by
  unfold parseConditionRest at h
  split at h
  · rename_i comparison hcomparison
    rw [text_of_withText hcomparison] at hop
    obtain ⟨ls, rs, left, right, rfl, hleft, hright, rfl⟩ := readsValues_of_parseValues h
    exact ⟨_, by simp, .comparison hop hleft hright .nil⟩
  · split at h
    · rename_i direction hdirection
      rw [text_of_withText hdirection] at hop
      obtain ⟨ls, rs, fast, slow, rfl, hfast, hslow, rfl⟩ := readsValues_of_parseValues h
      exact ⟨_, by simp, .crossover hop hfast hslow .nil⟩
    · split at h
      · rename_i logical hlogical
        rw [text_of_withText hlogical] at hop
        obtain ⟨⟨operands, us⟩, hparse, h₁⟩ := except_bind_eq_ok.mp h
        obtain ⟨vs, hend, hvalue⟩ := except_bind_eq_ok.mp h₁
        obtain ⟨rfl, rfl⟩ := ok_pair_inj.mp hvalue
        obtain ⟨inner, rfl, hinner⟩ := hoperands hparse
        obtain rfl := expect_eq_ok.mp hend
        exact ⟨_, by simp, .logicalOp hop hinner .nil⟩
      · simp at h

theorem readsConditions_of_parse (n : ℕ) :
    (∀ {ts rest : List Token} {condition : Condition ℚ},
      parseCondition n ts = .ok (condition, rest) →
        ∃ used, ts = used ++ rest ∧ ReadsConditions used [condition]) ∧
      OperandsSound (parseConditions n) := by
  induction n with
  | zero => exact ⟨fun h => by simp [parseCondition] at h, fun h => by simp [parseConditions] at h⟩
  | succ n ih =>
    constructor
    · intro ts rest condition h
      rw [parseCondition] at h
      obtain ⟨us, hstart, h₁⟩ := except_bind_eq_ok.mp h
      rw [expect_eq_ok.mp hstart]
      split at h₁
      · simp at h₁
      · exact readsConditions_of_parseConditionRest ih.2 (.inl rfl) h₁
      · exact readsConditions_of_parseConditionRest ih.2 (.inr rfl) h₁
      · simp at h₁
    · intro ts rest conditions h
      unfold parseConditions at h
      split at h
      · simp at h
      · obtain ⟨rfl, rfl⟩ := ok_pair_inj.mp h
        exact ⟨[], rfl, .nil⟩
      · obtain ⟨rfl, rfl⟩ := ok_pair_inj.mp h
        exact ⟨[], rfl, .nil⟩
      · rename_i heq _ _
        cases heq
        obtain ⟨⟨operand, us⟩, hoperand, h₁⟩ := except_bind_eq_ok.mp h
        obtain ⟨⟨operands, vs⟩, hoperands, h₂⟩ := except_bind_eq_ok.mp h₁
        obtain ⟨rfl, rfl⟩ := ok_pair_inj.mp h₂
        obtain ⟨as, rfl, has⟩ := ih.1 hoperand
        obtain ⟨bs, rfl, hbs⟩ := ih.2 hoperands
        exact ⟨as ++ bs, by simp, has.append hbs⟩

/-! ### Blocks -/

theorem ReadsBlocks.append {us vs : List Token} {as bs : List (Block ℚ)}
    (ha : ReadsBlocks us as) (hb : ReadsBlocks vs bs) : ReadsBlocks (us ++ vs) (as ++ bs) := by
  induction ha with
  | nil => exact hb
  | group value hweight hinner _ _ ih =>
    simp only [List.cons_append, List.append_assoc]
    exact .group value hweight hinner ih
  | weight method hoptions hinner _ _ ih =>
    simp only [List.cons_append, List.append_assoc]
    exact .weight method hoptions hinner ih
  | asset symbol hweight _ ih =>
    simp only [List.cons_append, List.append_assoc]
    exact .asset symbol hweight ih
  | onlyIf hcondition hthen _ _ ih =>
    simp only [List.cons_append, List.append_assoc]
    exact .onlyIf hcondition hthen ih
  | ifElse hcondition hthen helse _ _ _ ih =>
    simp only [List.cons_append, List.append_assoc]
    exact .ifElse hcondition hthen helse ih
  | filter criteria direction hcount hlookback hinner _ _ ih =>
    simp only [List.cons_append, List.append_assoc]
    exact .filter criteria direction hcount hlookback hinner ih

theorem readsWeightOptions_of_parse {lookback top : Option ℤ} {options : Option ℤ × Option ℤ}
    (h : parseWeightOptions lookback top ts = .ok (options, rest)) :
    ∃ used, ts = used ++ rest ∧ ReadsWeightOptions (lookback, top) used options := by
  fun_induction parseWeightOptions lookback top ts with
  | case2 | case6 => simp at h
  | case5 lookback top ts keyword name hname text ih ih' =>
    obtain ⟨n, hn, h₁⟩ := except_bind_eq_ok.mp h
    split_ifs at h₁ with hlookback
    · obtain ⟨used, rfl, hused⟩ := ih n h₁
      exact ⟨_, rfl, .lookback hlookback hn hused⟩
    · obtain ⟨used, rfl, hused⟩ := ih' n h₁
      exact ⟨_, rfl, .top (hname.resolve_left hlookback) hn hused⟩
  | case1 | case3 | case4 | case7 | case8 =>
    obtain ⟨rfl, rfl⟩ := ok_pair_inj.mp h
    exact ⟨[], rfl, .nil _⟩

/-- What the parser of the children reads is blocks. -/
def ChildrenSound (parseChildren : List Token → Parsing (List (Block ℚ) × List Token)) : Prop :=
  ∀ {ts rest : List Token} {children : List (Block ℚ)},
    parseChildren ts = .ok (children, rest) →
      ∃ used, ts = used ++ rest ∧ ReadsBlocks used children

section Children

variable {parseChildren : List Token → Parsing (List (Block ℚ) × List Token)} {block : Block ℚ}

theorem readsBlocks_of_parseGroup (hchildren : ChildrenSound parseChildren)
    (h : parseGroup parseChildren ts = .ok (block, rest)) :
    ∃ used, .lparen :: .symbol "group" :: ts = used ++ rest ∧ ReadsBlocks used [block] := by
  obtain ⟨⟨name, us⟩, hname, h₁⟩ := except_bind_eq_ok.mp h
  obtain ⟨⟨weight, vs⟩, hweight, h₂⟩ := except_bind_eq_ok.mp h₁
  obtain ⟨⟨children, ws⟩, hparse, h₃⟩ := except_bind_eq_ok.mp h₂
  obtain ⟨xs, hend, hvalue⟩ := except_bind_eq_ok.mp h₃
  obtain ⟨rfl, rfl⟩ := ok_pair_inj.mp hvalue
  obtain ⟨value, rfl, rfl⟩ := parseString_eq_ok.mp hname
  obtain ⟨os, rfl, hos⟩ := readsOptional_of_parseOptional hweight
  obtain ⟨inner, rfl, hinner⟩ := hchildren hparse
  obtain rfl := expect_eq_ok.mp hend
  exact ⟨_, by simp, .group value hos hinner .nil⟩

theorem readsBlocks_of_parseWeight (hchildren : ChildrenSound parseChildren)
    (h : parseWeight parseChildren ts = .ok (block, rest)) :
    ∃ used, .lparen :: .symbol "weight" :: ts = used ++ rest ∧ ReadsBlocks used [block] := by
  obtain ⟨us, hkeyword, h₁⟩ := except_bind_eq_ok.mp h
  obtain ⟨⟨methodText, vs⟩, hmethod, h₂⟩ := except_bind_eq_ok.mp h₁
  rw [expectKeyword_eq_ok.mp hkeyword, parseSymbol_eq_ok.mp hmethod]
  simp only at h₂
  split at h₂
  · simp at h₂
  · rename_i method hname
    obtain ⟨⟨⟨lookback, top⟩, ws⟩, hoptions, h₃⟩ := except_bind_eq_ok.mp h₂
    obtain ⟨⟨children, xs⟩, hparse, h₄⟩ := except_bind_eq_ok.mp h₃
    obtain ⟨ys, hend, hvalue⟩ := except_bind_eq_ok.mp h₄
    obtain ⟨rfl, rfl⟩ := ok_pair_inj.mp hvalue
    obtain ⟨os, rfl, hos⟩ := readsWeightOptions_of_parse hoptions
    obtain ⟨inner, rfl, hinner⟩ := hchildren hparse
    obtain rfl := expect_eq_ok.mp hend
    rw [text_of_withText hname]
    exact ⟨_, by simp, .weight method hos hinner .nil⟩

theorem readsBlocks_of_parseAsset (h : parseAsset ts = .ok (block, rest)) :
    ∃ used, .lparen :: .symbol "asset" :: ts = used ++ rest ∧ ReadsBlocks used [block] := by
  obtain ⟨⟨symbol, us⟩, hsymbol, h₁⟩ := except_bind_eq_ok.mp h
  obtain ⟨⟨weight, vs⟩, hweight, h₂⟩ := except_bind_eq_ok.mp h₁
  obtain ⟨xs, hend, hvalue⟩ := except_bind_eq_ok.mp h₂
  obtain ⟨rfl, rfl⟩ := ok_pair_inj.mp hvalue
  obtain ⟨os, rfl, hos⟩ := readsOptional_of_parseOptional hweight
  obtain rfl := expect_eq_ok.mp hend
  rw [parseSymbol_eq_ok.mp hsymbol]
  exact ⟨_, by simp, .asset symbol hos .nil⟩

theorem readsBlocks_of_parseFilter (hchildren : ChildrenSound parseChildren)
    (h : parseFilter parseChildren ts = .ok (block, rest)) :
    ∃ used, .lparen :: .symbol "filter" :: ts = used ++ rest ∧ ReadsBlocks used [block] := by
  obtain ⟨us, hby, h₁⟩ := except_bind_eq_ok.mp h
  obtain ⟨⟨byText, vs⟩, hcriteria, h₂⟩ := except_bind_eq_ok.mp h₁
  rw [expectKeyword_eq_ok.mp hby, parseSymbol_eq_ok.mp hcriteria]
  simp only at h₂
  split at h₂
  · simp at h₂
  rename_i criteria hname
  obtain ⟨ws, hselect, h₃⟩ := except_bind_eq_ok.mp h₂
  obtain ⟨xs, hopen, h₄⟩ := except_bind_eq_ok.mp h₃
  obtain ⟨⟨directionText, ys⟩, hdirection, h₅⟩ := except_bind_eq_ok.mp h₄
  rw [expectKeyword_eq_ok.mp hselect, expect_eq_ok.mp hopen, parseSymbol_eq_ok.mp hdirection]
  simp only at h₅
  split at h₅
  · simp at h₅
  rename_i direction hside
  obtain ⟨⟨count, zs⟩, hcount, h₆⟩ := except_bind_eq_ok.mp h₅
  obtain ⟨ts₁, hclose, h₇⟩ := except_bind_eq_ok.mp h₆
  obtain ⟨⟨lookback, ts₂⟩, hlookback, h₈⟩ := except_bind_eq_ok.mp h₇
  obtain ⟨⟨children, ts₃⟩, hparse, h₉⟩ := except_bind_eq_ok.mp h₈
  obtain ⟨ts₄, hend, hvalue⟩ := except_bind_eq_ok.mp h₉
  obtain ⟨rfl, rfl⟩ := ok_pair_inj.mp hvalue
  obtain ⟨text, rfl, htext⟩ := parseNumber_eq_ok.mp hcount
  obtain rfl := expect_eq_ok.mp hclose
  obtain ⟨os, rfl, hos⟩ := readsOptional_of_parseOptional hlookback
  obtain ⟨inner, rfl, hinner⟩ := hchildren hparse
  obtain rfl := expect_eq_ok.mp hend
  rw [text_of_withText hname, text_of_withText hside]
  exact ⟨_, by simp, .filter criteria direction htext hos hinner .nil⟩

theorem readsBlocks_of_parseIf {parseCondition : List Token → Parsing (Condition ℚ × List Token)}
    {parseBlock : List Token → Parsing (Block ℚ × List Token)}
    (hcondition : ∀ {ts rest : List Token} {condition : Condition ℚ},
      parseCondition ts = .ok (condition, rest) →
        ∃ used, ts = used ++ rest ∧ ReadsConditions used [condition])
    (hblock : ∀ {ts rest : List Token} {block : Block ℚ},
      parseBlock ts = .ok (block, rest) → ∃ used, ts = used ++ rest ∧ ReadsBlocks used [block])
    (h : parseIf parseCondition parseBlock ts = .ok (block, rest)) :
    ∃ used, .lparen :: .symbol "if" :: ts = used ++ rest ∧ ReadsBlocks used [block] := by
  obtain ⟨⟨condition, us⟩, hparse, h₁⟩ := except_bind_eq_ok.mp h
  obtain ⟨⟨thenBlock, vs⟩, hparse', h₂⟩ := except_bind_eq_ok.mp h₁
  obtain ⟨cs, rfl, hcs⟩ := hcondition hparse
  obtain ⟨bs, rfl, hbs⟩ := hblock hparse'
  simp only at h₂
  split at h₂
  · split_ifs at h₂ with helse
    · obtain ⟨ws, hsymbol, h₃⟩ := except_bind_eq_ok.mp h₂
      obtain ⟨⟨elseBlock, xs⟩, hparse'', h₄⟩ := except_bind_eq_ok.mp h₃
      obtain ⟨ys, hclose, h₅⟩ := except_bind_eq_ok.mp h₄
      obtain ⟨zs, hend, hvalue⟩ := except_bind_eq_ok.mp h₅
      obtain ⟨rfl, rfl⟩ := ok_pair_inj.mp hvalue
      obtain ⟨es, rfl, hes⟩ := hblock hparse''
      obtain rfl := expect_eq_ok.mp hclose
      obtain rfl := expect_eq_ok.mp hend
      rw [expectSymbol_eq_ok.mp hsymbol]
      exact ⟨_, by simp, .ifElse hcs hbs hes .nil⟩
    · obtain ⟨ws, hend, -⟩ := except_bind_eq_ok.mp h₂
      simp at hend
  · obtain ⟨ws, hend, hvalue⟩ := except_bind_eq_ok.mp h₂
    obtain ⟨rfl, rfl⟩ := ok_pair_inj.mp hvalue
    obtain rfl := expect_eq_ok.mp hend
    exact ⟨_, by simp, .onlyIf hcs hbs .nil⟩

end Children

theorem readsBlocks_of_parse (n : ℕ) :
    (∀ {ts rest : List Token} {block : Block ℚ}, parseBlock n ts = .ok (block, rest) →
        ∃ used, ts = used ++ rest ∧ ReadsBlocks used [block]) ∧
      ChildrenSound (parseBlocks n) := by
  induction n with
  | zero => exact ⟨fun h => by simp [parseBlock] at h, fun h => by simp [parseBlocks] at h⟩
  | succ n ih =>
    constructor
    · intro ts rest block h
      unfold parseBlock at h
      split at h
      · simp at h
      · simp at h
      · simp at h
      · rename_i heq
        cases heq
        split_ifs at h with hgroup hweight hasset hif hfilter
        · rw [hgroup]
          exact readsBlocks_of_parseGroup ih.2 h
        · rw [hweight]
          exact readsBlocks_of_parseWeight ih.2 h
        · rw [hasset]
          exact readsBlocks_of_parseAsset h
        · rw [hif]
          exact readsBlocks_of_parseIf (readsConditions_of_parse n).1 ih.1 h
        · rw [hfilter]
          exact readsBlocks_of_parseFilter ih.2 h
        · simp at h
      · simp at h
      · simp at h
    · intro ts rest children h
      unfold parseBlocks at h
      split at h
      · simp at h
      · obtain ⟨rfl, rfl⟩ := ok_pair_inj.mp h
        exact ⟨[], rfl, .nil⟩
      · obtain ⟨rfl, rfl⟩ := ok_pair_inj.mp h
        exact ⟨[], rfl, .nil⟩
      · rename_i heq _ _
        cases heq
        obtain ⟨⟨block, us⟩, hblock, h₁⟩ := except_bind_eq_ok.mp h
        obtain ⟨⟨blocks, vs⟩, hblocks, h₂⟩ := except_bind_eq_ok.mp h₁
        obtain ⟨rfl, rfl⟩ := ok_pair_inj.mp h₂
        obtain ⟨as, rfl, has⟩ := ih.1 hblock
        obtain ⟨bs, rfl, hbs⟩ := ih.2 hblocks
        exact ⟨as ++ bs, by simp, has.append hbs⟩

theorem set_none_ne_ok {options options' : StrategyOptions} {name : String} :
    options.set name none ≠ .ok options' := by
  unfold StrategyOptions.set
  split_ifs <;> simp

theorem readsStrategyOptions_of_parse {options options' : StrategyOptions}
    (h : parseStrategyOptions options ts = .ok (options', rest)) :
    ∃ used, ts = used ++ rest ∧ ReadsStrategyOptions options used options' := by
  fun_induction parseStrategyOptions options ts with
  | case2 options t name hname =>
    obtain ⟨_, hset, -⟩ := except_map_eq_ok.mp h
    exact absurd hset set_none_ne_ok
  | case4 options t u ts name hname ih =>
    obtain ⟨next, hset, h₁⟩ := except_bind_eq_ok.mp h
    obtain ⟨used, rfl, hused⟩ := ih next h₁
    exact ⟨_, rfl, .cons hname hset hused⟩
  | case1 | case3 | case5 =>
    obtain ⟨rfl, rfl⟩ := ok_pair_inj.mp h
    exact ⟨[], rfl, .nil _⟩

theorem readsStrategy_of_parse {n : ℕ} {strategy : DescribedStrategy}
    (h : parseStrategyForm n ts = .ok (strategy, rest)) :
    ∃ used, ts = used ++ rest ∧ ReadsStrategy used strategy := by
  obtain ⟨us, hopen, h₁⟩ := except_bind_eq_ok.mp h
  obtain ⟨vs, hsymbol, h₂⟩ := except_bind_eq_ok.mp h₁
  obtain ⟨⟨name, ws⟩, hname, h₃⟩ := except_bind_eq_ok.mp h₂
  obtain ⟨⟨options, xs⟩, hoptions, h₄⟩ := except_bind_eq_ok.mp h₃
  obtain ⟨⟨children, ys⟩, hparse, h₅⟩ := except_bind_eq_ok.mp h₄
  obtain ⟨zs, hend, hvalue⟩ := except_bind_eq_ok.mp h₅
  obtain ⟨rfl, rfl⟩ := ok_pair_inj.mp hvalue
  obtain rfl := expect_eq_ok.mp hopen
  obtain rfl := expectSymbol_eq_ok.mp hsymbol
  obtain ⟨value, rfl, rfl⟩ := parseString_eq_ok.mp hname
  obtain ⟨os, rfl, hos⟩ := readsStrategyOptions_of_parse hoptions
  obtain ⟨inner, rfl, hinner⟩ := (readsBlocks_of_parse n).2 hparse
  obtain rfl := expect_eq_ok.mp hend
  exact ⟨_, by simp, .strategy value hos hinner⟩

end Sound

end LlamaTrade
