import LlamaTrade.AcceptedStrategies

/-!
# Parses that stop at an integer

The parser is to raise `ParseError` and nothing else. A number that `int` refuses, as `2.5`, where
the grammar has an integer is the exception: the `ValueError` of `int` escapes. The token sequences
that begin like a strategy and come to such a number are given by a grammar of their own, and
whatever escapes the parser came from one of them.
-/

namespace LlamaTrade

/-- Something other than a `ParseError` is raised. -/
def Escapes {α : Type} (x : Parsing α) : Prop :=
  ∃ e, x = .error e ∧ ∀ message, e ≠ .parseError message

/-- `int` raises. -/
def Refused (text : String) : Prop := ∀ n, readInt text ≠ .ok n

section Raising

variable {α β : Type}

@[simp] theorem not_escapes_ok (a : α) : ¬Escapes (.ok a : Parsing α) := by
  rintro ⟨e, he, -⟩
  cases he

@[simp] theorem not_escapes_parseFailure (message : String) :
    ¬Escapes (parseFailure message : Parsing α) := by
  rintro ⟨e, he, hne⟩
  cases he
  exact hne message rfl

theorem escapes_bind {x : Parsing α} {f : α → Parsing β} :
    Escapes (x >>= f) ↔ Escapes x ∨ ∃ a, x = .ok a ∧ Escapes (f a) := by
  cases x with
  | error e => simp [Escapes, bind, Except.bind]
  | ok a => simp

@[simp] theorem escapes_map {x : Parsing α} {f : α → β} : Escapes (x.map f) ↔ Escapes x := by
  cases x <;> simp [Escapes, Except.map]

theorem escapes_readInt {text : String} : Escapes (readInt text) ↔ Refused text := by
  unfold Refused readInt
  cases PyText.parseInt text with
  | ok n => simp
  | error e => simp [Escapes]

theorem escapes_readParam {text : String} :
    Escapes (readParam text) ↔ '.' ∉ text.toList ∧ Refused text := by
  unfold readParam
  split_ifs with hpoint
  · simp [hpoint]
  · simp [hpoint, escapes_readInt]

end Raising

/-! ## Beginnings that stop at an integer -/

inductive StopsValue : List Token → Prop
  | indicator (name : IndicatorName) (symbol : String) {texts : List String} {params : List Param}
      {text : String} {rest : List Token}
      (hparams : List.Forall₂ (fun text param => readParam text = .ok param) texts params)
      (hpoint : '.' ∉ text.toList) (hrefused : Refused text) :
      StopsValue (.lparen :: .symbol name.text :: .symbol symbol ::
        (texts.map .number ++ .number text :: rest))
  | metric (name : MetricName) (symbol : String) {text : String} {rest : List Token}
      (hrefused : Refused text) :
      StopsValue (.lparen :: .symbol name.text :: .symbol symbol :: .number text :: rest)

/-- One of two values. -/
inductive StopsValues : List Token → Prop
  | left {ts : List Token} (h : StopsValue ts) : StopsValues ts
  | right {ls ts : List Token} {left : Value ℚ} (hleft : ReadsValue ls left) (h : StopsValue ts) :
      StopsValues (ls ++ ts)

inductive StopsCondition : List Token → Prop
  | comparison {t : Token} {operator : ComparisonOperator} {ts : List Token}
      (hop : IsOperator t operator.text) (h : StopsValues ts) : StopsCondition (.lparen :: t :: ts)
  | crossover {t : Token} {direction : CrossoverDirection} {ts : List Token}
      (hop : IsOperator t direction.text) (h : StopsValues ts) : StopsCondition (.lparen :: t :: ts)
  | operand {t : Token} {operator : LogicalOperator} {cs ts : List Token}
      {operands : List (Condition ℚ)} (hop : IsOperator t operator.text)
      (hoperands : ReadsConditions cs operands) (h : StopsCondition ts) :
      StopsCondition (.lparen :: t :: (cs ++ ts))

inductive StopsBlock : List Token → Prop
  | group (value : String) {ws inner ts : List Token} {weight : Option ℚ}
      {children : List (Block ℚ)}
      (hweight : ReadsOptional (fun text => .ok (readFloat text)) "weight" ws weight)
      (hinner : ReadsBlocks inner children) (h : StopsBlock ts) :
      StopsBlock (.lparen :: .symbol "group" :: .string value :: (ws ++ (inner ++ ts)))
  | weightOption (method : WeightMethod) {os ts : List Token} {options : Option ℤ × Option ℤ}
      {keyword text : String} (hoptions : ReadsWeightOptions (none, none) os options)
      (hkeyword : keywordName keyword = "lookback" ∨ keywordName keyword = "top")
      (hrefused : Refused text) :
      StopsBlock (.lparen :: .symbol "weight" :: .keyword ":method" :: .symbol method.text ::
        (os ++ .keyword keyword :: .number text :: ts))
  | weight (method : WeightMethod) {os inner ts : List Token} {options : Option ℤ × Option ℤ}
      {children : List (Block ℚ)} (hoptions : ReadsWeightOptions (none, none) os options)
      (hinner : ReadsBlocks inner children) (h : StopsBlock ts) :
      StopsBlock (.lparen :: .symbol "weight" :: .keyword ":method" :: .symbol method.text ::
        (os ++ (inner ++ ts)))
  | ifCondition {ts : List Token} (h : StopsCondition ts) :
      StopsBlock (.lparen :: .symbol "if" :: ts)
  | ifThen {cs ts : List Token} {condition : Condition ℚ}
      (hcondition : ReadsConditions cs [condition]) (h : StopsBlock ts) :
      StopsBlock (.lparen :: .symbol "if" :: (cs ++ ts))
  | ifElse {cs bs ts : List Token} {condition : Condition ℚ} {block : Block ℚ}
      (hcondition : ReadsConditions cs [condition]) (hthen : ReadsBlocks bs [block])
      (h : StopsBlock ts) :
      StopsBlock (.lparen :: .symbol "if" :: (cs ++ (bs ++ .lparen :: .symbol "else" :: ts)))
  | filterCount (criteria : FilterCriteria) (direction : SelectDirection) {text : String}
      {ts : List Token} (hrefused : Refused text) :
      StopsBlock (.lparen :: .symbol "filter" :: .keyword ":by" :: .symbol criteria.text ::
        .keyword ":select" :: .lparen :: .symbol direction.text :: .number text :: ts)
  | filterLookback (criteria : FilterCriteria) (direction : SelectDirection)
      {text keyword lookback : String} {count : ℤ} {ts : List Token}
      (hcount : readInt text = .ok count) (hkeyword : keywordName keyword = "lookback")
      (hrefused : Refused lookback) :
      StopsBlock (.lparen :: .symbol "filter" :: .keyword ":by" :: .symbol criteria.text ::
        .keyword ":select" :: .lparen :: .symbol direction.text :: .number text :: .rparen ::
        .keyword keyword :: .number lookback :: ts)
  | filter (criteria : FilterCriteria) (direction : SelectDirection) {text : String} {count : ℤ}
      {os inner ts : List Token} {lookback : Option ℤ} {children : List (Block ℚ)}
      (hcount : readInt text = .ok count) (hlookback : ReadsOptional readInt "lookback" os lookback)
      (hinner : ReadsBlocks inner children) (h : StopsBlock ts) :
      StopsBlock (.lparen :: .symbol "filter" :: .keyword ":by" :: .symbol criteria.text ::
        .keyword ":select" :: .lparen :: .symbol direction.text :: .number text :: .rparen ::
        (os ++ (inner ++ ts)))

inductive StopsStrategy : List Token → Prop
  | strategy (value : String) {os inner ts : List Token} {options : StrategyOptions}
      {children : List (Block ℚ)} (hoptions : ReadsStrategyOptions .none os options)
      (hinner : ReadsBlocks inner children) (h : StopsBlock ts) :
      StopsStrategy (.lparen :: .symbol "strategy" :: .string value :: (os ++ (inner ++ ts)))

/-! ## What escapes stopped at an integer -/

section Sound

variable {ts : List Token}

@[simp] theorem not_escapes_expect (t : Token) : ¬Escapes (expect t ts) := by
  unfold expect
  split
  · simp
  · split_ifs
    · simp
    · simp

@[simp] theorem not_escapes_expectSymbol (text : String) : ¬Escapes (expectSymbol text ts) := by
  unfold expectSymbol
  split
  · simp
  · split_ifs
    · simp
    · simp

@[simp] theorem not_escapes_expectKeyword (text : String) : ¬Escapes (expectKeyword text ts) := by
  unfold expectKeyword
  split
  · simp
  · split_ifs
    · simp
    · simp

@[simp] theorem not_escapes_parseString : ¬Escapes (parseString ts) := by
  unfold parseString
  split
  · simp
  · simp

@[simp] theorem not_escapes_parseSymbol (message : String) : ¬Escapes (parseSymbol message ts) := by
  unfold parseSymbol
  split
  · simp
  · simp

@[simp] theorem not_escapes_parseField : ¬Escapes (parseField ts) := by
  unfold parseField
  split
  · split
    · simp
    · simp
  · simp

@[simp] theorem not_escapes_parseOutput : ¬Escapes (parseOutput ts) := by
  unfold parseOutput
  split
  · simp
  · simp

theorem escapes_parseNumber {α : Type} {read : String → Parsing α} {message : String} :
    Escapes (parseNumber read message ts) ↔
      ∃ text rest, ts = .number text :: rest ∧ Escapes (read text) := by
  unfold parseNumber
  split
  · simp
  · rename_i hne
    refine iff_of_false (by simp) ?_
    rintro ⟨text, rest, hts, -⟩
    exact hne text rest hts

theorem escapes_parseOptional {α : Type} {read : String → Parsing α} {name : String} :
    Escapes (parseOptional read name ts) ↔
      ∃ keyword text rest, ts = .keyword keyword :: .number text :: rest ∧
        keywordName keyword = name ∧ Escapes (read text) := by
  unfold parseOptional
  split
  · rename_i keyword rest
    split_ifs with hname
    · simp [escapes_parseNumber, hname]
    · refine iff_of_false (by simp) ?_
      rintro ⟨_, _, _, hts, hname', -⟩
      cases hts
      exact hname hname'
  · rename_i hne
    refine iff_of_false (by simp) ?_
    rintro ⟨_, _, _, hts, -⟩
    exact hne _ _ hts

theorem parseOptional_float_not_escapes (name : String) :
    ¬Escapes (parseOptional (fun text => .ok (readFloat text)) name ts) := by
  rw [escapes_parseOptional]
  rintro ⟨_, text, _, -, -, h⟩
  exact not_escapes_ok _ h

theorem refusedParam_of_parseParams (h : Escapes (parseParams ts)) :
    ∃ texts params text rest, ts = texts.map .number ++ .number text :: rest ∧
      List.Forall₂ (fun text param => readParam text = .ok param) texts params ∧
      '.' ∉ text.toList ∧ Refused text := by
  fun_induction parseParams ts with
  | case1 text ts ih =>
    rcases escapes_bind.mp h with hread | ⟨param, hparam, h₁⟩
    · exact ⟨[], [], text, ts, rfl, .nil, escapes_readParam.mp hread⟩
    · rcases escapes_bind.mp h₁ with hrest | ⟨others, -, h₂⟩
      · obtain ⟨texts, params, text', rest, rfl, htexts, hrefused⟩ := ih hrest
        exact ⟨text :: texts, param :: params, text', rest, rfl, .cons hparam htexts, hrefused⟩
      · exact absurd h₂ (not_escapes_ok _)
  | case2 => exact absurd h (not_escapes_ok _)

/-- The parser of a closing parenthesis and what is returned after it let nothing escape. -/
theorem not_escapes_closing {α : Type} (a : α) :
    ¬Escapes (expect .rparen ts >>= fun us => .ok (a, us) : Parsing (α × List Token)) := by
  rw [escapes_bind]
  rintro (h | ⟨us, -, h⟩)
  · exact not_escapes_expect _ h
  · exact not_escapes_ok _ h

theorem stopsValue_of_parseValue (h : Escapes (parseValue ts)) : StopsValue ts := by
  unfold parseValue at h
  split at h
  · simp at h
  · simp at h
  · rcases escapes_bind.mp h with h | ⟨⟨function, us⟩, hfunction, h₁⟩
    · simp at h
    rw [parseSymbol_eq_ok.mp hfunction]
    simp only at h₁
    split_ifs at h₁ with hprice
    · exfalso
      rcases escapes_bind.mp h₁ with h | ⟨⟨symbol, vs⟩, -, h₂⟩
      · simp at h
      rcases escapes_bind.mp h₂ with h | ⟨⟨field, ws⟩, -, h₃⟩
      · simp at h
      exact not_escapes_closing _ h₃
    · split at h₁
      · rename_i name hname
        rw [text_of_withText hname]
        rcases escapes_bind.mp h₁ with h | ⟨⟨symbol, vs⟩, hsymbol, h₂⟩
        · simp at h
        rw [parseSymbol_eq_ok.mp hsymbol]
        rcases escapes_bind.mp h₂ with h | ⟨⟨params, ws⟩, -, h₃⟩
        · obtain ⟨texts, params, text, rest, rfl, htexts, hpoint, hrefused⟩ :=
            refusedParam_of_parseParams h
          exact .indicator name symbol htexts hpoint hrefused
        rcases escapes_bind.mp h₃ with h | ⟨⟨output, xs⟩, -, h₄⟩
        · simp at h
        exact absurd h₄ (not_escapes_closing _)
      · split at h₁
        · rename_i name hname
          rw [text_of_withText hname]
          rcases escapes_bind.mp h₁ with h | ⟨⟨symbol, vs⟩, hsymbol, h₂⟩
          · simp at h
          rw [parseSymbol_eq_ok.mp hsymbol]
          rcases escapes_bind.mp h₂ with h | ⟨⟨period, ws⟩, -, h₃⟩
          · unfold parsePeriod at h
            split at h
            · rw [escapes_map, escapes_readInt] at h
              exact .metric name symbol h
            · simp at h
          exact absurd h₃ (not_escapes_closing _)
        · simp at h₁
  · simp at h

theorem stopsValues_of_parseValues {α : Type} {f : Value ℚ → Value ℚ → α}
    (h : Escapes (parseValues f ts)) : StopsValues ts := by
  rcases escapes_bind.mp h with h | ⟨⟨left, us⟩, hl, h₁⟩
  · exact .left (stopsValue_of_parseValue h)
  rcases escapes_bind.mp h₁ with hr | ⟨⟨right, vs⟩, -, h₂⟩
  · obtain ⟨ls, rfl, hleft⟩ := readsValue_of_parseValue hl
    exact .right hleft (stopsValue_of_parseValue hr)
  exact absurd h₂ (not_escapes_closing _)

/-- The beginning of a list of conditions, of which the last stops. -/
def StopsConditions (ts : List Token) : Prop :=
  ∃ cs conditions rest, ts = cs ++ rest ∧ ReadsConditions cs conditions ∧ StopsCondition rest

theorem stopsCondition_of_parseConditionRest
    {parseOperands : List Token → Parsing (List (Condition ℚ) × List Token)} {t : Token}
    {operator : String} (hoperands : Escapes (parseOperands ts) → StopsConditions ts)
    (hop : IsOperator t operator) (h : Escapes (parseConditionRest parseOperands operator ts)) :
    StopsCondition (.lparen :: t :: ts) := by
  unfold parseConditionRest at h
  split at h
  · rename_i comparison hcomparison
    rw [text_of_withText hcomparison] at hop
    exact .comparison hop (stopsValues_of_parseValues h)
  · split at h
    · rename_i direction hdirection
      rw [text_of_withText hdirection] at hop
      exact .crossover hop (stopsValues_of_parseValues h)
    · split at h
      · rename_i logical hlogical
        rw [text_of_withText hlogical] at hop
        rcases escapes_bind.mp h with h | ⟨⟨operands, us⟩, -, h₁⟩
        · obtain ⟨cs, conditions, rest, rfl, hcs, hrest⟩ := hoperands h
          exact .operand hop hcs hrest
        · exact absurd h₁ (not_escapes_closing _)
      · simp at h

/-- The recursion is as deep as the list of tokens is long, at most. -/
theorem stopsCondition_of_parse (n : ℕ) :
    (∀ ts : List Token, ts.length ≤ n → 0 < n → Escapes (parseCondition n ts) →
        StopsCondition ts) ∧
      ∀ ts : List Token, ts.length < n → Escapes (parseConditions n ts) → StopsConditions ts := by
  induction n with
  | zero =>
    exact ⟨fun _ _ hn => absurd hn (Nat.lt_irrefl 0), fun _ hn => absurd hn (Nat.not_lt_zero _)⟩
  | succ n ih =>
    constructor
    · intro ts hlength _ h
      rw [parseCondition] at h
      rcases escapes_bind.mp h with h | ⟨us, hstart, h₁⟩
      · simp at h
      obtain rfl := expect_eq_ok.mp hstart
      split at h₁
      · simp at h₁
      · exact stopsCondition_of_parseConditionRest (ih.2 _ (by simp at hlength; omega)) (.inl rfl) h₁
      · exact stopsCondition_of_parseConditionRest (ih.2 _ (by simp at hlength; omega)) (.inr rfl) h₁
      · simp at h₁
    · intro ts hlength h
      unfold parseConditions at h
      split at h
      · omega
      · simp at h
      · simp at h
      · rename_i ts _ _ _ heq hne _
        cases heq
        have hpos : 0 < ts.length := List.length_pos_iff.mpr hne
        rcases escapes_bind.mp h with hhead | ⟨⟨operand, vs⟩, hoperand, h₁⟩
        · exact ⟨[], [], ts, rfl, .nil, ih.1 ts (by omega) (by omega) hhead⟩
        · obtain ⟨as, rfl, has⟩ := (readsConditions_of_parse n).1 hoperand
          rcases escapes_bind.mp h₁ with htail | ⟨⟨operands, ws⟩, -, h₂⟩
          · have hshorter : 0 < as.length := by
              cases has
              all_goals simp
            obtain ⟨cs, conditions, rest, rfl, hcs, hrest⟩ :=
              ih.2 vs (by rw [List.length_append] at hlength; omega) htail
            exact ⟨as ++ cs, _, rest, by simp, has.append hcs, hrest⟩
          · exact absurd h₂ (not_escapes_ok _)

/-! ### Blocks -/

theorem refusedOption_of_parseWeightOptions {lookback top : Option ℤ}
    (h : Escapes (parseWeightOptions lookback top ts)) :
    ∃ os options keyword text rest, ts = os ++ .keyword keyword :: .number text :: rest ∧
      ReadsWeightOptions (lookback, top) os options ∧
      (keywordName keyword = "lookback" ∨ keywordName keyword = "top") ∧ Refused text := by
  fun_induction parseWeightOptions lookback top ts with
  | case5 lookback top ts keyword name hname text ih ih' =>
    rcases escapes_bind.mp h with hread | ⟨n, hn, h₁⟩
    · exact ⟨[], (lookback, top), keyword, text, ts, rfl, .nil _, hname, escapes_readInt.mp hread⟩
    split_ifs at h₁ with hlookback
    · obtain ⟨os, options, keyword', text', rest, rfl, hos, hrefused⟩ := ih n h₁
      exact ⟨.keyword keyword :: .number text :: os, options, keyword', text', rest, rfl,
        .lookback hlookback hn hos, hrefused⟩
    · obtain ⟨os, options, keyword', text', rest, rfl, hos, hrefused⟩ := ih' n h₁
      exact ⟨.keyword keyword :: .number text :: os, options, keyword', text', rest, rfl,
        .top (hname.resolve_left hlookback) hn hos, hrefused⟩
  | case2 | case6 => exact absurd h (not_escapes_parseFailure _)
  | case1 | case3 | case4 | case7 | case8 => exact absurd h (not_escapes_ok _)

/-- The beginning of a list of blocks, of which the last stops. -/
def StopsBlocks (ts : List Token) : Prop :=
  ∃ inner children rest, ts = inner ++ rest ∧ ReadsBlocks inner children ∧ StopsBlock rest

section Children

variable {parseChildren : List Token → Parsing (List (Block ℚ) × List Token)}

theorem stopsBlock_of_parseGroup
    (hchildren : ∀ us : List Token, us.length ≤ ts.length → Escapes (parseChildren us) →
      StopsBlocks us)
    (h : Escapes (parseGroup parseChildren ts)) :
    StopsBlock (.lparen :: .symbol "group" :: ts) := by
  rcases escapes_bind.mp h with h | ⟨⟨name, us⟩, hname, h₁⟩
  · simp at h
  obtain ⟨value, rfl, rfl⟩ := parseString_eq_ok.mp hname
  rcases escapes_bind.mp h₁ with h | ⟨⟨weight, vs⟩, hweight, h₂⟩
  · exact absurd h (parseOptional_float_not_escapes _)
  obtain ⟨os, rfl, hos⟩ := readsOptional_of_parseOptional hweight
  rcases escapes_bind.mp h₂ with hescapes | ⟨⟨children, ws⟩, -, h₃⟩
  · obtain ⟨inner, children, rest, rfl, hinner, hrest⟩ :=
      hchildren vs (by simp; omega) hescapes
    exact .group value hos hinner hrest
  · exact absurd h₃ (not_escapes_closing _)

theorem stopsBlock_of_parseWeight
    (hchildren : ∀ us : List Token, us.length ≤ ts.length → Escapes (parseChildren us) →
      StopsBlocks us)
    (h : Escapes (parseWeight parseChildren ts)) :
    StopsBlock (.lparen :: .symbol "weight" :: ts) := by
  rcases escapes_bind.mp h with h | ⟨us, hkeyword, h₁⟩
  · simp at h
  obtain rfl := expectKeyword_eq_ok.mp hkeyword
  rcases escapes_bind.mp h₁ with h | ⟨⟨methodText, vs⟩, hmethod, h₂⟩
  · simp at h
  obtain rfl := parseSymbol_eq_ok.mp hmethod
  simp only at h₂
  split at h₂
  · simp at h₂
  rename_i method hname
  rw [text_of_withText hname]
  rcases escapes_bind.mp h₂ with hescapes | ⟨⟨⟨lookback, top⟩, ws⟩, hoptions, h₃⟩
  · obtain ⟨os, options, keyword, text, rest, rfl, hos, hname', hrefused⟩ :=
      refusedOption_of_parseWeightOptions hescapes
    exact .weightOption method hos hname' hrefused
  obtain ⟨os, rfl, hos⟩ := readsWeightOptions_of_parse hoptions
  rcases escapes_bind.mp h₃ with hescapes | ⟨⟨children, xs⟩, -, h₄⟩
  · obtain ⟨inner, children, rest, rfl, hinner, hrest⟩ :=
      hchildren ws (by simp; omega) hescapes
    exact .weight method hos hinner hrest
  · exact absurd h₄ (not_escapes_closing _)

theorem not_escapes_parseAsset : ¬Escapes (parseAsset ts) := by
  intro h
  rcases escapes_bind.mp h with h | ⟨⟨symbol, us⟩, -, h₁⟩
  · simp at h
  rcases escapes_bind.mp h₁ with h | ⟨⟨weight, vs⟩, -, h₂⟩
  · exact parseOptional_float_not_escapes _ h
  exact not_escapes_closing _ h₂

theorem stopsBlock_of_parseFilter
    (hchildren : ∀ us : List Token, us.length ≤ ts.length → Escapes (parseChildren us) →
      StopsBlocks us)
    (h : Escapes (parseFilter parseChildren ts)) :
    StopsBlock (.lparen :: .symbol "filter" :: ts) := by
  rcases escapes_bind.mp h with h | ⟨us, hby, h₁⟩
  · simp at h
  obtain rfl := expectKeyword_eq_ok.mp hby
  rcases escapes_bind.mp h₁ with h | ⟨⟨byText, vs⟩, hcriteria, h₂⟩
  · simp at h
  obtain rfl := parseSymbol_eq_ok.mp hcriteria
  simp only at h₂
  split at h₂
  · simp at h₂
  rename_i criteria hname
  rw [text_of_withText hname]
  rcases escapes_bind.mp h₂ with h | ⟨ws, hselect, h₃⟩
  · simp at h
  obtain rfl := expectKeyword_eq_ok.mp hselect
  rcases escapes_bind.mp h₃ with h | ⟨xs, hopen, h₄⟩
  · simp at h
  obtain rfl := expect_eq_ok.mp hopen
  rcases escapes_bind.mp h₄ with h | ⟨⟨directionText, ys⟩, hdirection, h₅⟩
  · simp at h
  obtain rfl := parseSymbol_eq_ok.mp hdirection
  simp only at h₅
  split at h₅
  · simp at h₅
  rename_i direction hside
  rw [text_of_withText hside]
  rcases escapes_bind.mp h₅ with hescapes | ⟨⟨count, zs⟩, hcount, h₆⟩
  · obtain ⟨text, rest, rfl, hrefused⟩ := escapes_parseNumber.mp hescapes
    exact .filterCount criteria direction (escapes_readInt.mp hrefused)
  obtain ⟨text, rfl, htext⟩ := parseNumber_eq_ok.mp hcount
  rcases escapes_bind.mp h₆ with h | ⟨ts₁, hclose, h₇⟩
  · simp at h
  obtain rfl := expect_eq_ok.mp hclose
  rcases escapes_bind.mp h₇ with hescapes | ⟨⟨lookback, ts₂⟩, hlookback, h₈⟩
  · obtain ⟨keyword, lookback, rest, rfl, hkeyword, hrefused⟩ := escapes_parseOptional.mp hescapes
    exact .filterLookback criteria direction htext hkeyword (escapes_readInt.mp hrefused)
  obtain ⟨os, rfl, hos⟩ := readsOptional_of_parseOptional hlookback
  rcases escapes_bind.mp h₈ with hescapes | ⟨⟨children, ts₃⟩, -, h₉⟩
  · obtain ⟨inner, children, rest, rfl, hinner, hrest⟩ :=
      hchildren ts₂ (by simp; omega) hescapes
    exact .filter criteria direction htext hos hinner hrest
  · exact absurd h₉ (not_escapes_closing _)

theorem stopsBlock_of_parseIf {parseCondition : List Token → Parsing (Condition ℚ × List Token)}
    {parseBlock : List Token → Parsing (Block ℚ × List Token)}
    (hreadsCondition : ∀ {ts rest : List Token} {condition : Condition ℚ},
      parseCondition ts = .ok (condition, rest) →
        ∃ used, ts = used ++ rest ∧ ReadsConditions used [condition])
    (hreadsBlock : ∀ {ts rest : List Token} {block : Block ℚ},
      parseBlock ts = .ok (block, rest) → ∃ used, ts = used ++ rest ∧ ReadsBlocks used [block])
    (hcondition : Escapes (parseCondition ts) → StopsCondition ts)
    (hblock : ∀ us : List Token, us.length ≤ ts.length → Escapes (parseBlock us) → StopsBlock us)
    (h : Escapes (parseIf parseCondition parseBlock ts)) :
    StopsBlock (.lparen :: .symbol "if" :: ts) := by
  rcases escapes_bind.mp h with hescapes | ⟨⟨condition, us⟩, hparse, h₁⟩
  · exact .ifCondition (hcondition hescapes)
  obtain ⟨cs, rfl, hcs⟩ := hreadsCondition hparse
  rcases escapes_bind.mp h₁ with hescapes | ⟨⟨thenBlock, vs⟩, hparse', h₂⟩
  · exact .ifThen hcs (hblock us (by simp) hescapes)
  obtain ⟨bs, rfl, hbs⟩ := hreadsBlock hparse'
  simp only at h₂
  split at h₂
  · split_ifs at h₂ with helse
    · rcases escapes_bind.mp h₂ with h | ⟨ws, hsymbol, h₃⟩
      · simp at h
      rw [expectSymbol_eq_ok.mp hsymbol] at hblock ⊢
      rcases escapes_bind.mp h₃ with hescapes | ⟨⟨elseBlock, xs⟩, -, h₄⟩
      · exact .ifElse hcs hbs (hblock ws (by simp; omega) hescapes)
      rcases escapes_bind.mp h₄ with h | ⟨ys, -, h₅⟩
      · simp at h
      exact absurd h₅ (not_escapes_closing _)
    · exact absurd h₂ (not_escapes_closing _)
  · exact absurd h₂ (not_escapes_closing _)

end Children

theorem stopsBlock_of_parse (n : ℕ) :
    (∀ ts : List Token, ts.length ≤ n → 0 < n → Escapes (parseBlock n ts) → StopsBlock ts) ∧
      ∀ ts : List Token, ts.length < n → Escapes (parseBlocks n ts) → StopsBlocks ts := by
  induction n with
  | zero =>
    exact ⟨fun _ _ hn => absurd hn (Nat.lt_irrefl 0), fun _ hn => absurd hn (Nat.not_lt_zero _)⟩
  | succ n ih =>
    constructor
    · intro ts hlength _ h
      unfold parseBlock at h
      split at h
      · omega
      · simp at h
      · simp at h
      · rename_i m blockType us heq
        cases heq
        simp only [List.length_cons] at hlength
        have hchildren : ∀ vs : List Token, vs.length ≤ us.length → Escapes (parseBlocks n vs) →
            StopsBlocks vs := fun vs hvs => ih.2 vs (by omega)
        split_ifs at h with hgroup hweight hasset hif hfilter
        · rw [hgroup]
          exact stopsBlock_of_parseGroup hchildren h
        · rw [hweight]
          exact stopsBlock_of_parseWeight hchildren h
        · exact absurd h not_escapes_parseAsset
        · rw [hif]
          exact stopsBlock_of_parseIf (readsConditions_of_parse n).1 (readsBlocks_of_parse n).1
            ((stopsCondition_of_parse n).1 us (by omega) (by omega))
            (fun vs hvs => ih.1 vs (by omega) (by omega)) h
        · rw [hfilter]
          exact stopsBlock_of_parseFilter hchildren h
        · simp at h
      · simp at h
      · simp at h
    · intro ts hlength h
      unfold parseBlocks at h
      split at h
      · omega
      · simp at h
      · simp at h
      · rename_i ts _ _ _ heq hne _
        cases heq
        have hpos : 0 < ts.length := List.length_pos_iff.mpr hne
        rcases escapes_bind.mp h with hhead | ⟨⟨block, vs⟩, hblock, h₁⟩
        · exact ⟨[], [], ts, rfl, .nil, ih.1 ts (by omega) (by omega) hhead⟩
        · obtain ⟨as, rfl, has⟩ := (readsBlocks_of_parse n).1 hblock
          rcases escapes_bind.mp h₁ with htail | ⟨⟨blocks, ws⟩, -, h₂⟩
          · have hshorter : 0 < as.length := by
              cases has
              all_goals simp
            obtain ⟨inner, children, rest, rfl, hinner, hrest⟩ :=
              ih.2 vs (by rw [List.length_append] at hlength; omega) htail
            exact ⟨as ++ inner, _, rest, by simp, has.append hinner, hrest⟩
          · exact absurd h₂ (not_escapes_ok _)

theorem not_escapes_set (options : StrategyOptions) (name : String) (next : Option Token) :
    ¬Escapes (options.set name next) := by
  unfold StrategyOptions.set
  split_ifs
  · dsimp only
    split
    · split
      · simp
      · simp
    · simp
  · split
    · simp
    · simp
  · split
    · simp
    · simp

theorem not_escapes_parseStrategyOptions (options : StrategyOptions) :
    ¬Escapes (parseStrategyOptions options ts) := by
  fun_induction parseStrategyOptions options ts with
  | case2 => simpa using not_escapes_set _ _ _
  | case4 options t u ts name hname ih =>
    rw [escapes_bind]
    rintro (h | ⟨next, -, h⟩)
    · exact not_escapes_set _ _ _ h
    · exact ih next h
  | case1 | case3 | case5 => exact not_escapes_ok _

theorem stopsStrategy_of_parse (h : Escapes (parseStrategyForm ts.length ts)) :
    StopsStrategy ts := by
  rcases escapes_bind.mp h with h | ⟨us, hopen, h₁⟩
  · simp at h
  rcases escapes_bind.mp h₁ with h | ⟨vs, hsymbol, h₂⟩
  · simp at h
  rcases escapes_bind.mp h₂ with h | ⟨⟨name, ws⟩, hname, h₃⟩
  · simp at h
  rcases escapes_bind.mp h₃ with h | ⟨⟨options, xs⟩, hoptions, h₄⟩
  · exact absurd h (not_escapes_parseStrategyOptions _)
  obtain rfl := expect_eq_ok.mp hopen
  obtain rfl := expectSymbol_eq_ok.mp hsymbol
  obtain ⟨value, rfl, rfl⟩ := parseString_eq_ok.mp hname
  obtain ⟨os, rfl, hos⟩ := readsStrategyOptions_of_parse hoptions
  rcases escapes_bind.mp h₄ with hescapes | ⟨⟨children, ys⟩, -, h₅⟩
  · obtain ⟨inner, children, rest, rfl, hinner, hrest⟩ :=
      (stopsBlock_of_parse _).2 xs (by simp; omega) hescapes
    exact .strategy value hos hinner hrest
  · exact absurd h₅ (not_escapes_closing _)

end Sound

end LlamaTrade
