import LlamaTrade.StoppedParses

/-!
# Errors that escape the parser

From every token sequence that stops at an integer an error escapes, so a source is parsed or
refused with `ParseError` exactly where its tokens do not stop at one.
-/

namespace LlamaTrade

/-! ## What stops at an integer escapes -/

section Complete

variable {ts : List Token}

theorem escapes_parseParams {texts : List String} {params : List Param} {text : String}
    (h : List.Forall₂ (fun text param => readParam text = .ok param) texts params)
    (hpoint : '.' ∉ text.toList) (hrefused : Refused text) :
    Escapes (parseParams (texts.map .number ++ .number text :: ts)) := by
  induction h with
  | nil =>
    rw [List.map_nil, List.nil_append, parseParams, escapes_bind]
    exact .inl (escapes_readParam.mpr ⟨hpoint, hrefused⟩)
  | cons hread _ ih =>
    rw [List.map_cons, List.cons_append, parseParams, hread, except_ok_bind, escapes_bind]
    exact .inl ih

theorem StopsValue.escapes (h : StopsValue ts) : Escapes (parseValue ts) := by
  cases h with
  | indicator name symbol hparams hpoint hrefused =>
    have hname : name.text ≠ "price" := by cases name <;> decide
    simp only [parseValue, parseSymbol_cons, except_ok_bind, if_neg hname,
      IndicatorName.ofText_text, parseIndicatorRest]
    exact escapes_bind.mpr (.inl (escapes_parseParams hparams hpoint hrefused))
  | metric name symbol hrefused =>
    have hname : name.text ≠ "price" := by cases name <;> decide
    have hnone : IndicatorName.ofText name.text = none := by cases name <;> decide
    simp only [parseValue, parseSymbol_cons, except_ok_bind, if_neg hname, hnone,
      MetricName.ofText_text, parseMetricRest, parsePeriod]
    exact escapes_bind.mpr (.inl (escapes_map.mpr (escapes_readInt.mpr hrefused)))

theorem StopsValues.escapes {α : Type} (f : Value ℚ → Value ℚ → α) (h : StopsValues ts) :
    Escapes (parseValues f ts) := by
  cases h with
  | left h => exact escapes_bind.mpr (.inl h.escapes)
  | right hleft h =>
    exact escapes_bind.mpr (.inr ⟨_, hleft.parse _, escapes_bind.mpr (.inl h.escapes)⟩)

/-! ### Conditions -/

/-- What escapes after these conditions escapes. -/
def CarriesCondition (cs : List Token) : Prop :=
  ∀ ts : List Token, (∀ n, ts.length ≤ n → Escapes (parseCondition n ts)) →
    ∀ n, (cs ++ ts).length < n → Escapes (parseConditions n (cs ++ ts))

theorem CarriesCondition.nil : CarriesCondition [] := by
  intro ts h n hn
  obtain ⟨n, rfl⟩ : ∃ m, n = m + 1 := ⟨n - 1, by omega⟩
  rw [List.nil_append] at hn ⊢
  have hescapes := h n (Nat.lt_succ_iff.mp hn)
  unfold parseConditions
  split
  · omega
  · have hnext := h 1 (by simp)
    simp [parseCondition, expect, parseFailure, Escapes, bind, Except.bind] at hnext
  · have hnext := h (n + 1) hn.le
    simp [parseCondition, expect, parseFailure, Escapes, bind, Except.bind] at hnext
  · rename_i heq _ _
    cases heq
    exact escapes_bind.mpr (.inl hescapes)

theorem CarriesCondition.cons {us vs : List Token} {condition : Condition ℚ}
    (h : ParsesCondition (.lparen :: us) condition) (h' : CarriesCondition vs) :
    CarriesCondition (.lparen :: us ++ vs) := by
  intro ts hts n hn
  obtain ⟨n, rfl⟩ : ∃ m, n = m + 1 := ⟨n - 1, by omega⟩
  simp only [List.cons_append, List.length_cons, List.length_append] at hn
  have hhead := h n (vs ++ ts) (by simp; omega)
  have htail := h' ts hts n (by simp; omega)
  simp only [List.cons_append] at hhead
  simp only [List.cons_append, List.append_assoc, parseConditions, hhead, except_ok_bind]
  exact escapes_bind.mpr (.inl htail)

theorem ReadsConditions.carries {cs : List Token} {conditions : List (Condition ℚ)}
    (h : ReadsConditions cs conditions) : CarriesCondition cs := by
  induction h with
  | nil => exact .nil
  | comparison hop hleft hright _ ih =>
    simpa using CarriesCondition.cons (parsesComparison hop hleft hright) ih
  | crossover hop hfast hslow _ ih =>
    simpa using CarriesCondition.cons (parsesCrossover hop hfast hslow) ih
  | logicalOp hop hinner _ _ ih =>
    simpa using CarriesCondition.cons (parsesLogicalOp hop hinner.parse.1) ih

theorem StopsCondition.escapes (h : StopsCondition ts) :
    ∀ n, ts.length ≤ n → Escapes (parseCondition n ts) := by
  induction h with
  | comparison hop h =>
    intro n hn
    obtain ⟨n, rfl⟩ : ∃ m, n = m + 1 := ⟨n - 1, by simp at hn; omega⟩
    rw [parseCondition_cons hop, parseConditionRest, ComparisonOperator.ofText_text]
    exact h.escapes _
  | @crossover t direction ts hop h =>
    intro n hn
    have hcomparison : ComparisonOperator.ofText direction.text = none := by
      cases direction <;> decide
    obtain ⟨n, rfl⟩ : ∃ m, n = m + 1 := ⟨n - 1, by simp at hn; omega⟩
    rw [parseCondition_cons hop, parseConditionRest, hcomparison, CrossoverDirection.ofText_text]
    exact h.escapes _
  | @operand t operator cs ts operands hop hoperands _ ih =>
    intro n hn
    have hcomparison : ComparisonOperator.ofText operator.text = none := by
      cases operator <;> decide
    have hcrossover : CrossoverDirection.ofText operator.text = none := by
      cases operator <;> decide
    obtain ⟨n, rfl⟩ : ∃ m, n = m + 1 := ⟨n - 1, by simp at hn; omega⟩
    rw [parseCondition_cons hop, parseConditionRest, hcomparison, hcrossover,
      LogicalOperator.ofText_text]
    exact escapes_bind.mpr (.inl (hoperands.carries ts ih n (by simp at hn ⊢; omega)))

/-! ### Blocks -/

/-- What escapes after these blocks escapes. -/
def CarriesBlock (bs : List Token) : Prop :=
  ∀ ts : List Token, (∀ n, ts.length ≤ n → Escapes (parseBlock n ts)) →
    ∀ n, (bs ++ ts).length < n → Escapes (parseBlocks n (bs ++ ts))

theorem CarriesBlock.nil : CarriesBlock [] := by
  intro ts h n hn
  obtain ⟨n, rfl⟩ : ∃ m, n = m + 1 := ⟨n - 1, by omega⟩
  rw [List.nil_append] at hn ⊢
  have hescapes := h n (Nat.lt_succ_iff.mp hn)
  unfold parseBlocks
  split
  · omega
  · have hnext := h 1 (by simp)
    simp [parseBlock] at hnext
  · have hnext := h (n + 1) hn.le
    simp [parseBlock] at hnext
  · rename_i heq _ _
    cases heq
    exact escapes_bind.mpr (.inl hescapes)

theorem CarriesBlock.cons {us vs : List Token} {block : Block ℚ}
    (h : ParsesBlock (.lparen :: us) block) (h' : CarriesBlock vs) :
    CarriesBlock (.lparen :: us ++ vs) := by
  intro ts hts n hn
  obtain ⟨n, rfl⟩ : ∃ m, n = m + 1 := ⟨n - 1, by omega⟩
  simp only [List.cons_append, List.length_cons, List.length_append] at hn
  have hhead := h n (vs ++ ts) (by simp; omega)
  have htail := h' ts hts n (by simp; omega)
  simp only [List.cons_append] at hhead
  simp only [List.cons_append, List.append_assoc, parseBlocks, hhead, except_ok_bind]
  exact escapes_bind.mpr (.inl htail)

theorem ReadsBlocks.carries {bs : List Token} {blocks : List (Block ℚ)}
    (h : ReadsBlocks bs blocks) : CarriesBlock bs := by
  induction h with
  | nil => exact .nil
  | group value hweight hinner _ _ ih =>
    simpa using CarriesBlock.cons (parsesGroup value hweight hinner hinner.parse.1) ih
  | weight method hoptions hinner _ _ ih =>
    simpa using CarriesBlock.cons (parsesWeight method hoptions hinner hinner.parse.1) ih
  | asset symbol hweight _ ih =>
    simpa using CarriesBlock.cons (parsesAsset symbol hweight) ih
  | onlyIf hcondition hthen _ _ ih =>
    simpa using CarriesBlock.cons
      (parsesOnlyIf (hcondition.parse.2 _ rfl) (hthen.parse.2 _ rfl)) ih
  | ifElse hcondition hthen helse _ _ _ ih =>
    simpa using CarriesBlock.cons
      (parsesIfElse (hcondition.parse.2 _ rfl) (hthen.parse.2 _ rfl) (helse.parse.2 _ rfl)) ih
  | filter criteria direction hcount hlookback hinner _ _ ih =>
    simpa using CarriesBlock.cons
      (parsesFilter criteria direction hcount hlookback hinner hinner.parse.1) ih

theorem StopsBlock.noKeyword {inner : List Token} {blocks : List (Block ℚ)} (h : StopsBlock ts)
    (hinner : ReadsBlocks inner blocks) : NoKeyword (inner ++ ts) := by
  cases hinner with
  | nil =>
    cases h
    all_goals exact noKeyword_lparen _
  | _ => exact noKeyword_lparen _

theorem escapes_parseWeightOptions {before after : Option ℤ × Option ℤ} {os : List Token}
    {keyword text : String} (h : ReadsWeightOptions before os after)
    (hkeyword : keywordName keyword = "lookback" ∨ keywordName keyword = "top")
    (hrefused : Refused text) (rest : List Token) :
    Escapes (parseWeightOptions before.1 before.2
      (os ++ .keyword keyword :: .number text :: rest)) := by
  induction h with
  | nil options =>
    simp only [List.nil_append, parseWeightOptions, if_pos hkeyword]
    exact escapes_bind.mpr (.inl (escapes_readInt.mpr hrefused))
  | lookback hname hread _ ih => simpa [parseWeightOptions, hname, hread] using ih
  | top hname hread _ ih => simpa [parseWeightOptions, hname, hread] using ih

theorem StopsBlock.escapes (h : StopsBlock ts) :
    ∀ n, ts.length ≤ n → Escapes (parseBlock n ts) := by
  have hmethod : ∀ ts, expectKeyword "method" (.keyword ":method" :: ts) = .ok ts :=
    fun _ => expectKeyword_eq_ok.mpr rfl
  have hby : ∀ ts, expectKeyword "by" (.keyword ":by" :: ts) = .ok ts :=
    fun _ => expectKeyword_eq_ok.mpr rfl
  have hselect : ∀ ts, expectKeyword "select" (.keyword ":select" :: ts) = .ok ts :=
    fun _ => expectKeyword_eq_ok.mpr rfl
  induction h with
  | group value hweight hinner h ih =>
    intro n hn
    obtain ⟨n, rfl⟩ : ∃ m, n = m + 1 := ⟨n - 1, by simp at hn; omega⟩
    have hchildren := hinner.carries _ ih n (by simp at hn ⊢; omega)
    simp only [parseBlock, reduceIte, parseGroup, parseString_cons, except_ok_bind,
      hweight.parse (h.noKeyword hinner)]
    exact escapes_bind.mpr (.inl hchildren)
  | @weightOption method os ts options keyword text hoptions hkeyword hrefused =>
    intro n hn
    obtain ⟨n, rfl⟩ : ∃ m, n = m + 1 := ⟨n - 1, by simp at hn; omega⟩
    have hescapes := escapes_parseWeightOptions hoptions hkeyword hrefused ts
    simp only [parseBlock, parseWeight, hmethod, parseSymbol_cons, except_ok_bind,
      WeightMethod.ofText_text]
    exact escapes_bind.mpr (.inl hescapes)
  | weight method hoptions hinner h ih =>
    intro n hn
    obtain ⟨n, rfl⟩ : ∃ m, n = m + 1 := ⟨n - 1, by simp at hn; omega⟩
    have hchildren := hinner.carries _ ih n (by simp at hn ⊢; omega)
    have hparse := hoptions.parse (h.noKeyword hinner)
    simp only at hparse
    simp only [parseBlock, parseWeight, hmethod, parseSymbol_cons, except_ok_bind,
      WeightMethod.ofText_text, hparse]
    exact escapes_bind.mpr (.inl hchildren)
  | ifCondition h =>
    intro n hn
    obtain ⟨n, rfl⟩ : ∃ m, n = m + 1 := ⟨n - 1, by simp at hn; omega⟩
    have hescapes := h.escapes n (by simp at hn; omega)
    simp only [parseBlock, parseIf]
    exact escapes_bind.mpr (.inl hescapes)
  | @ifThen cs ts condition hcondition _ ih =>
    intro n hn
    obtain ⟨n, rfl⟩ : ∃ m, n = m + 1 := ⟨n - 1, by simp at hn; omega⟩
    have hcs := hcondition.parse.2 _ rfl n ts (by simp at hn; omega)
    have hescapes := ih n (by simp at hn; omega)
    simp only [parseBlock, parseIf, hcs, except_ok_bind]
    exact escapes_bind.mpr (.inl hescapes)
  | @ifElse cs bs ts condition block hcondition hthen _ ih =>
    intro n hn
    obtain ⟨n, rfl⟩ : ∃ m, n = m + 1 := ⟨n - 1, by simp at hn; omega⟩
    have hcs := hcondition.parse.2 _ rfl n (bs ++ .lparen :: .symbol "else" :: ts)
      (by simp at hn; omega)
    have hbs := hthen.parse.2 _ rfl n (.lparen :: .symbol "else" :: ts) (by simp at hn; omega)
    have hescapes := ih n (by simp at hn; omega)
    simp only [parseBlock, parseIf, hcs, hbs, except_ok_bind, Token.value, reduceIte,
      expectSymbol_cons]
    exact escapes_bind.mpr (.inl hescapes)
  | filterCount criteria direction hrefused =>
    intro n hn
    obtain ⟨n, rfl⟩ : ∃ m, n = m + 1 := ⟨n - 1, by simp at hn; omega⟩
    simp only [parseBlock, parseFilter, hby, hselect, parseSymbol_cons, expect_cons,
      except_ok_bind, FilterCriteria.ofText_text, SelectDirection.ofText_text, parseNumber]
    exact escapes_bind.mpr (.inl (escapes_map.mpr (escapes_readInt.mpr hrefused)))
  | filterLookback criteria direction hcount hkeyword hrefused =>
    intro n hn
    obtain ⟨n, rfl⟩ : ∃ m, n = m + 1 := ⟨n - 1, by simp at hn; omega⟩
    have hescapes : ∀ keyword text rest, keywordName keyword = "lookback" → Refused text →
        Escapes (parseOptional readInt "lookback" (.keyword keyword :: .number text :: rest)) :=
      fun _ _ _ hname h => escapes_parseOptional.mpr ⟨_, _, _, rfl, hname, escapes_readInt.mpr h⟩
    simp only [parseBlock, parseFilter, hby, hselect, parseSymbol_cons, expect_cons,
      except_ok_bind, FilterCriteria.ofText_text, SelectDirection.ofText_text, parseNumber, hcount,
      except_map_ok]
    exact escapes_bind.mpr (.inl (hescapes _ _ _ hkeyword hrefused))
  | filter criteria direction hcount hlookback hinner h ih =>
    intro n hn
    obtain ⟨n, rfl⟩ : ∃ m, n = m + 1 := ⟨n - 1, by simp at hn; omega⟩
    have hchildren := hinner.carries _ ih n (by simp at hn ⊢; omega)
    simp only [parseBlock, parseFilter, hby, hselect, parseSymbol_cons, expect_cons,
      except_ok_bind, FilterCriteria.ofText_text, SelectDirection.ofText_text, parseNumber, hcount,
      except_map_ok, hlookback.parse (h.noKeyword hinner)]
    exact escapes_bind.mpr (.inl hchildren)

theorem StopsStrategy.escapes (h : StopsStrategy ts) : Escapes (parseStrategyForm ts.length ts) := by
  cases h with
  | strategy value hoptions hinner h =>
    have hparse := hoptions.parse (h.noKeyword hinner)
    have hchildren := hinner.carries _ h.escapes
    simp only [parseStrategyForm, expect_cons, except_ok_bind, expectSymbol_cons, parseString_cons,
      hparse]
    exact escapes_bind.mpr (.inl (hchildren _ (by simp; omega)))

end Complete

/-! ## Every source -/

/-- `parse_strategy` returns a strategy or raises `ParseError`. -/
def RaisesOnlyParseError (source : String) : Prop :=
  ∀ e, parseStrategy source = .error e → ∃ message, e = .parseError message

theorem not_escapes_checkNesting (depth : ℕ) (ts : List Token) :
    ¬Escapes (checkNesting depth ts) := by
  fun_induction checkNesting depth ts with
  | case1 => exact not_escapes_ok _
  | case2 => exact not_escapes_parseFailure _
  | case3 | case4 | case5 => assumption

theorem escapes_parseTokens {ts : List Token} :
    Escapes (parseTokens ts) ↔ checkNesting 0 ts = .ok () ∧ StopsStrategy ts := by
  unfold parseTokens
  rw [escapes_bind]
  constructor
  · rintro (h | ⟨⟨⟩, hnesting, h⟩)
    · exact absurd h (not_escapes_checkNesting _ _)
    refine ⟨hnesting, ?_⟩
    split_ifs at h
    · simp at h
    rcases escapes_bind.mp h with h | ⟨⟨strategy, rest⟩, -, h⟩
    · exact stopsStrategy_of_parse h
    · dsimp only at h
      split_ifs at h
      · simp at h
      · simp at h
  · rintro ⟨hnesting, h⟩
    refine .inr ⟨(), hnesting, ?_⟩
    have hne : ts ≠ [] := by
      rintro rfl
      cases h
    rw [if_neg hne]
    exact escapes_bind.mpr (.inl h.escapes)

end LlamaTrade
