import LlamaTrade.StrategyLeaves

/-!
# Printed strategies

The compact and the pretty text of a strategy are read as the same tokens.
-/

namespace LlamaTrade

open PyText

/-- A text that has no strings and comments. -/
theorem prints_literal {s : String} {ts : List Token} (hclean : Clean s.toList)
    (hts : tokenize s.toList = ts) : Prints s ts := by
  rw [← hts]
  exact prints_of_clean hclean

/-- A text that has no strings and comments and ends in a delimiter. -/
theorem printsAlone_literal {s : String} {ts : List Token} (hclean : Clean s.toList)
    (hend : EndsDelimited s.toList) (hts : tokenize s.toList = ts) : PrintsAlone s ts := by
  rw [← hts]
  exact printsAlone_of_clean hclean hend

/-! ## Names -/

theorem prints_rebalance (r : RebalanceFrequency) : Prints r.text [.symbol r.text] := by
  cases r <;> exact prints_symbol (by decide)

theorem prints_method (m : WeightMethod) : Prints m.text [.symbol m.text] := by
  cases m <;> exact prints_symbol (by decide)

theorem prints_criteria (c : FilterCriteria) : Prints c.text [.symbol c.text] := by
  cases c <;> exact prints_symbol (by decide)

theorem prints_direction (d : SelectDirection) : Prints d.text [.symbol d.text] := by
  cases d <;> exact prints_symbol (by decide)

theorem prints_comparison (o : ComparisonOperator) : Prints o.text [.operator o.text] := by
  cases o <;> exact prints_literal (by decide) rfl

theorem prints_crossover (d : CrossoverDirection) : Prints d.text [.operator d.text] := by
  cases d <;> exact prints_literal (by decide) rfl

theorem prints_logical (o : LogicalOperator) : Prints o.text [.symbol o.text] := by
  cases o <;> exact prints_symbol (by decide)

theorem prints_indicatorName (n : IndicatorName) : Prints n.text [.symbol n.text] := by
  cases n <;> exact prints_symbol (by decide)

theorem prints_metricName (n : MetricName) : Prints n.text [.symbol n.text] := by
  cases n <;> exact prints_symbol (by decide)

theorem isKeywordName_priceField (f : PriceField) : IsKeywordName f.text := by
  cases f <;> decide

/-! ## Values and conditions -/

/-- What the tokenizer needs of a leaf to read it as one token. -/
def StrategyLeaf.Lexes : StrategyLeaf → Prop
  | .symbol s => IsSymbol s
  | .output s => IsKeywordName s
  | .nestedStrategy => False
  | _ => True

theorem IsKeywordName.ne_empty {s : String} (h : IsKeywordName s) : s ≠ "" := by
  rintro rfl
  exact absurd h (by decide)

theorem prints_value : (value : Value ℚ) → (∀ leaf ∈ valueLeaves value, leaf.Lexes) →
    Prints (serializeValue value) (valueTokens value)
  | .numericLiteral value, _ => prints_formatWeight value
  | .price symbol field, h => by
    have hsymbol : IsSymbol symbol := h (.symbol symbol) (by simp [valueLeaves])
    have hhead : PrintsAlone "(price " [.lparen, .symbol "price"] :=
      printsAlone_literal (by decide) (by decide) rfl
    rw [serializeValue, valueTokens]
    split_ifs
    · simpa using (hhead.append (prints_symbol hsymbol)).close.prints
    · have hfield := prints_keyword (isKeywordName_priceField field)
      simpa using ((hhead.append (prints_symbol hsymbol)).blank.append hfield).close.prints
  | .indicator ind, h => by
    have hsymbol : IsSymbol ind.symbol := h (.symbol ind.symbol) (by simp [valueLeaves])
    have hnames : List.Forall₂ Prints [ind.name.text, ind.symbol]
        [[.symbol ind.name.text], [.symbol ind.symbol]] :=
      .cons (prints_indicatorName ind.name) (.cons (prints_symbol hsymbol) .nil)
    have hparams : List.Forall₂ Prints (ind.params.map fun p => formatWeight p.value)
        (ind.params.map fun p => numberTokens p.value) := by
      rw [List.forall₂_map_left_iff, List.forall₂_map_right_iff, List.forall₂_same]
      exact fun p _ => prints_formatWeight p.value
    have houtput : List.Forall₂ Prints (indicatorOutput ind.output)
        ((indicatorOutput ind.output).map fun k => [.keyword k]) := by
      rw [List.forall₂_map_right_iff, List.forall₂_same]
      intro k hk
      cases hoption : ind.output with
      | none => simp [indicatorOutput, hoption] at hk
      | some output =>
        have hname : IsKeywordName output :=
          h (.output output) (by simp [valueLeaves, hoption])
        simp only [indicatorOutput, hoption, if_neg hname.ne_empty, List.mem_singleton] at hk
        rw [hk]
        exact prints_keyword hname
    have hjoin := prints_joinBlank
      (List.rel_append (List.rel_append hnames hparams) houtput)
    have hkeywords : ((indicatorOutput ind.output).map fun k => [Token.keyword k]).flatten =
        (indicatorOutput ind.output).map .keyword := by
      rw [← List.flatMap_def, List.map_eq_flatMap]
    have hprints := (printsAlone_open.append hjoin).close.prints
    simpa [serializeValue, valueTokens, hkeywords, List.flatMap_def] using hprints
  | .metric metric, h => by
    have hsymbol : IsSymbol metric.symbol := h (.symbol metric.symbol) (by simp [valueLeaves])
    have hhead := (printsAlone_open.append (prints_metricName metric.name)).blank.append
      (prints_symbol hsymbol)
    rw [serializeValue, valueTokens]
    cases metric.period with
    | none => simpa using hhead.close.prints
    | some period =>
      by_cases hzero : period = 0
      · simpa [hzero, Option.filter] using hhead.close.prints
      · simpa [hzero, Option.filter] using (hhead.blank.append (prints_intText period)).close.prints

theorem conditionsTokens_eq (conditions : List (Condition ℚ)) :
    conditionsTokens conditions = (conditions.map conditionTokens).flatten := by
  induction conditions with
  | nil => rw [conditionsTokens, List.map_nil, List.flatten_nil]
  | cons condition conditions ih => rw [conditionsTokens, ih, List.map_cons, List.flatten_cons]

theorem blocksTokens_eq (blocks : List (Block ℚ)) :
    blocksTokens blocks = (blocks.map blockTokens).flatten := by
  induction blocks with
  | nil => rw [blocksTokens, List.map_nil, List.flatten_nil]
  | cons block blocks ih => rw [blocksTokens, ih, List.map_cons, List.flatten_cons]

mutual

theorem prints_condition : (condition : Condition ℚ) →
    (∀ leaf ∈ conditionLeaves condition, leaf.Lexes) →
    Prints (serializeCondition condition) (conditionTokens condition)
  | .comparison operator left right, h => by
    have hleft := prints_value left fun leaf hleaf => h leaf (by simp [conditionLeaves, hleaf])
    have hright := prints_value right fun leaf hleaf => h leaf (by simp [conditionLeaves, hleaf])
    have hhead := (printsAlone_open.append (prints_comparison operator)).blank.append hleft
    rw [serializeCondition, conditionTokens]
    simpa using (hhead.blank.append hright).close.prints
  | .crossover direction fast slow, h => by
    have hfast := prints_value fast fun leaf hleaf => h leaf (by simp [conditionLeaves, hleaf])
    have hslow := prints_value slow fun leaf hleaf => h leaf (by simp [conditionLeaves, hleaf])
    have hhead := (printsAlone_open.append (prints_crossover direction)).blank.append hfast
    rw [serializeCondition, conditionTokens]
    simpa using (hhead.blank.append hslow).close.prints
  | .logicalOp operator operands, h => by
    have hoperands := prints_conditions operands fun leaf hleaf =>
      h leaf (by simpa [conditionLeaves] using hleaf)
    have hhead := (printsAlone_open.append (prints_logical operator)).blank
    rw [serializeCondition, conditionTokens, conditionsTokens_eq]
    simpa using (hhead.append (prints_joinBlank hoperands)).close.prints

theorem prints_conditions : (conditions : List (Condition ℚ)) →
    (∀ leaf ∈ conditionsLeaves conditions, leaf.Lexes) →
    List.Forall₂ Prints (serializeConditions conditions) (conditions.map conditionTokens)
  | [], _ => .nil
  | condition :: conditions, h =>
    .cons (prints_condition condition fun leaf hleaf => h leaf (by simp [conditionsLeaves, hleaf]))
      (prints_conditions conditions fun leaf hleaf => h leaf (by simp [conditionsLeaves, hleaf]))

end

/-! ## Blocks -/

section Blocks

variable {pretty : Bool} {indent : ℕ} {head : String} {hs : List Token} {children : List String}
  {tss : List (List Token)}

theorem prints_indented (n : ℕ) (h : Prints head hs) : Prints (blanks n ++ head) hs :=
  (printsAlone_blanks n).append h

theorem prints_close : Prints ")" [.rparen] := prints_literal (by decide) rfl

theorem prints_withChildren (hhead : Prints head hs) (h : List.Forall₂ Prints children tss) :
    Prints (withChildren pretty indent head children) (hs ++ (tss.flatten ++ [.rparen])) := by
  cases pretty with
  | false => simpa [withChildren] using (hhead.blank.append (prints_joinBlank h)).close.prints
  | true =>
    have hfirst : List.Forall₂ Prints [blanks indent ++ head] [hs] :=
      .cons (prints_indented indent hhead) .nil
    have hlast : List.Forall₂ Prints [blanks indent ++ ")"] [[.rparen]] :=
      .cons (prints_indented indent prints_close) .nil
    simpa [withChildren] using prints_joinLines (List.rel_append (List.rel_append hfirst h) hlast)

/-- An optional keyword argument and its tokens. -/
theorem prints_keywordPart {keyword : String} (hkeyword : Prints keyword [.keyword keyword])
    {text : Option String} {ts : Option (List Token)} (h : Option.Rel Prints text ts) :
    ∃ tss, List.Forall₂ Prints (keywordPart keyword text) tss ∧
      tss.flatten = keywordTokens keyword ts := by
  cases h with
  | none => exact ⟨[], .nil, rfl⟩
  | some h => exact ⟨[_], .cons (hkeyword.blank.append h) .nil, by simp [keywordTokens]⟩

theorem prints_intPart {keyword : String} (hkeyword : Prints keyword [.keyword keyword])
    (n : Option ℤ) :
    ∃ tss, List.Forall₂ Prints (keywordPart keyword (n.map intText)) tss ∧
      tss.flatten = intTokens keyword n := by
  refine prints_keywordPart hkeyword ?_
  cases n with
  | none => exact .none
  | some n => exact .some (prints_intText n)

theorem prints_weightAttr (hhead : Prints head hs) (weight : Option ℚ) :
    Prints (head ++ weightAttr weight) (hs ++ weightTokens weight) := by
  cases weight with
  | none => simpa [weightAttr, weightTokens, keywordTokens] using hhead
  | some weight =>
    have hkeyword : PrintsAlone " :weight " [.keyword ":weight"] :=
      printsAlone_literal (by decide) (by decide) rfl
    refine hhead.append (hkeyword.append (prints_formatWeight weight)) ?_
    rw [weightAttr, String.toList_append]
    exact Delimited.append_of_ne_nil (by decide) (by decide) _

/-- The arguments of a strategy, after its name. -/
theorem prints_strategyParts (name : String) (rebalance : Option RebalanceFrequency)
    {benchmark : Option String} (hbenchmark : ∀ s ∈ benchmark, IsSymbol s)
    (description : Option String) :
    ∃ tss, List.Forall₂ Prints (strategyParts name rebalance benchmark description) tss ∧
      tss.flatten = .string (quoted name) ::
        strategyOptionTokens rebalance benchmark description := by
  have hname : List.Forall₂ Prints [quoted name] [[.string (quoted name)]] :=
    .cons (printsAlone_quoted name).prints .nil
  have hrel₁ : Option.Rel Prints (rebalance.map (·.text))
      (rebalance.map fun r => [.symbol r.text]) := by
    cases rebalance with
    | none => exact .none
    | some r => exact .some (prints_rebalance r)
  have hrel₂ : Option.Rel Prints (benchmark.filter (· ≠ ""))
      ((benchmark.filter (· ≠ "")).map fun s => [.symbol s]) := by
    cases hfilter : benchmark.filter (· ≠ "") with
    | none => exact .none
    | some b => exact .some (prints_symbol (hbenchmark b (Option.filter_eq_some_iff.mp hfilter).1))
  have hrel₃ : Option.Rel Prints ((description.filter (· ≠ "")).map quoted)
      ((description.filter (· ≠ "")).map fun s => [.string (quoted s)]) := by
    cases description.filter (· ≠ "") with
    | none => exact .none
    | some d => exact .some (printsAlone_quoted d).prints
  obtain ⟨tss₁, hrebalance, htss₁⟩ :=
    prints_keywordPart (prints_literal (by decide) rfl : Prints ":rebalance" [.keyword ":rebalance"])
      hrel₁
  obtain ⟨tss₂, hbenchmark, htss₂⟩ :=
    prints_keywordPart (prints_literal (by decide) rfl : Prints ":benchmark" [.keyword ":benchmark"])
      hrel₂
  obtain ⟨tss₃, hdescription, htss₃⟩ :=
    prints_keywordPart
      (prints_literal (by decide) rfl : Prints ":description" [.keyword ":description"]) hrel₃
  refine ⟨_, List.rel_append (List.rel_append (List.rel_append hname hrebalance) hbenchmark)
    hdescription, ?_⟩
  simp [strategyOptionTokens, htss₁, htss₂, htss₃]

theorem prints_strategyText (pretty : Bool) (indent : ℕ) {parts : List String} {pss : List (List Token)}
    (hparts : List.Forall₂ Prints parts pss) (h : List.Forall₂ Prints children tss) :
    Prints (strategyText pretty indent parts children)
      (.lparen :: .symbol "strategy" :: (pss.flatten ++ (tss.flatten ++ [.rparen]))) := by
  cases pretty with
  | false =>
    have hhead : PrintsAlone "(strategy " [.lparen, .symbol "strategy"] :=
      printsAlone_literal (by decide) (by decide) rfl
    simpa [strategyText] using
      ((hhead.append (prints_joinBlank hparts)).blank.append (prints_joinBlank h)).close.prints
  | true =>
    have hhead : Prints "(strategy" [.lparen, .symbol "strategy"] :=
      prints_literal (by decide) rfl
    have hfirst : List.Forall₂ Prints [blanks indent ++ "(strategy"]
        [[.lparen, .symbol "strategy"]] := .cons (prints_indented indent hhead) .nil
    have hlines : List.Forall₂ Prints (parts.map (blanks (indent + 2) ++ ·)) pss := by
      rw [List.forall₂_map_left_iff]
      exact hparts.imp fun _ _ hpart => prints_indented (indent + 2) hpart
    have hlast : List.Forall₂ Prints [blanks indent ++ ")"] [[.rparen]] :=
      .cons (prints_indented indent prints_close) .nil
    simpa [strategyText] using prints_joinLines
      (List.rel_append (List.rel_append (List.rel_append hfirst hlines) h) hlast)

theorem prints_if {cond thenText : String} {cs bs : List Token} (hcond : Prints cond cs)
    (hthen : Prints thenText bs) :
    Prints (if pretty then joinLines [blanks indent ++ "(if " ++ cond, thenText, blanks indent ++ ")"]
        else "(if " ++ cond ++ " " ++ thenText ++ ")")
      (.lparen :: .symbol "if" :: (cs ++ (bs ++ [.rparen]))) := by
  have hhead : PrintsAlone "(if " [.lparen, .symbol "if"] :=
    printsAlone_literal (by decide) (by decide) rfl
  cases pretty with
  | false => simpa using ((hhead.append hcond).blank.append hthen).close.prints
  | true =>
    have hfirst := prints_indented indent (hhead.append hcond)
    rw [← String.append_assoc] at hfirst
    simpa using prints_joinLines
      (.cons hfirst (.cons hthen (.cons (prints_indented indent prints_close) .nil)))

theorem prints_ifElse {cond thenText elseText : String} {cs bs es : List Token}
    (hcond : Prints cond cs) (hthen : Prints thenText bs) (helse : Prints elseText es) :
    Prints
      (if pretty then
        joinLines [blanks indent ++ "(if " ++ cond, thenText, blanks (indent + 2) ++ "(else",
          elseText, blanks (indent + 2) ++ ")", blanks indent ++ ")"]
        else "(if " ++ cond ++ " " ++ thenText ++ " (else " ++ elseText ++ ")" ++ ")")
      (.lparen :: .symbol "if" :: (cs ++ (bs ++
        .lparen :: .symbol "else" :: (es ++ [.rparen, .rparen])))) := by
  have hhead : PrintsAlone "(if " [.lparen, .symbol "if"] :=
    printsAlone_literal (by decide) (by decide) rfl
  cases pretty with
  | false =>
    have hopen : PrintsAlone " (else " [.lparen, .symbol "else"] :=
      printsAlone_literal (by decide) (by decide) rfl
    have hdelimited : Delimited (" (else " ++ elseText).toList := by
      rw [String.toList_append]
      exact Delimited.append_of_ne_nil (by decide) (by decide) _
    have hbranches :=
      ((hhead.append hcond).blank.append hthen).append (hopen.append helse) hdelimited
    rw [← String.append_assoc] at hbranches
    simpa using hbranches.close.prints.close.prints
  | true =>
    have hfirst := prints_indented indent (hhead.append hcond)
    rw [← String.append_assoc] at hfirst
    have hopen : Prints "(else" [.lparen, .symbol "else"] := prints_literal (by decide) rfl
    simpa using prints_joinLines (.cons hfirst (.cons hthen
      (.cons (prints_indented (indent + 2) hopen) (.cons helse
        (.cons (prints_indented (indent + 2) prints_close)
          (.cons (prints_indented indent prints_close) .nil))))))

end Blocks

mutual

theorem prints_block (pretty : Bool) (indent : ℕ) : (block : Block ℚ) →
    (∀ leaf ∈ blockLeaves block, leaf.Lexes) →
    Prints (serializeBlock pretty indent block) (blockTokens block)
  | .strategy .., h => absurd (h .nestedStrategy (by simp [blockLeaves])) not_false
  | .group name children weight, h => by
    have hchildren := prints_blocks pretty (indent + 2) children fun leaf hleaf =>
      h leaf (by simp [blockLeaves, hleaf])
    have hhead : PrintsAlone "(group " [.lparen, .symbol "group"] :=
      printsAlone_literal (by decide) (by decide) rfl
    have hname := prints_weightAttr (hhead.append (printsAlone_quoted name).prints) weight
    rw [serializeBlock, blockTokens, blocksTokens_eq]
    simpa using prints_withChildren hname hchildren
  | .weight method children lookback top _, h => by
    have hchildren := prints_blocks pretty (indent + 2) children fun leaf hleaf =>
      h leaf (by simpa [blockLeaves] using hleaf)
    have hhead : PrintsAlone "(weight " [.lparen, .symbol "weight"] :=
      printsAlone_literal (by decide) (by decide) rfl
    have hkeyword : PrintsAlone ":method " [.keyword ":method"] :=
      printsAlone_literal (by decide) (by decide) rfl
    have hmethod : List.Forall₂ Prints [":method " ++ method.text]
        [[.keyword ":method", .symbol method.text]] :=
      .cons (hkeyword.append (prints_method method)) .nil
    obtain ⟨tss₁, hlookback, htss₁⟩ :=
      prints_intPart (prints_literal (by decide) rfl : Prints ":lookback" [.keyword ":lookback"])
        lookback
    obtain ⟨tss₂, htop, htss₂⟩ :=
      prints_intPart (prints_literal (by decide) rfl : Prints ":top" [.keyword ":top"]) top
    have hargs := hhead.append
      (prints_joinBlank (List.rel_append (List.rel_append hmethod hlookback) htop))
    rw [serializeBlock, blockTokens, blocksTokens_eq, ← htss₁, ← htss₂]
    simpa using prints_withChildren hargs hchildren
  | .asset symbol weight, h => by
    have hsymbol : IsSymbol symbol := h (.symbol symbol) (by simp [blockLeaves])
    have hhead : PrintsAlone "(asset " [.lparen, .symbol "asset"] :=
      printsAlone_literal (by decide) (by decide) rfl
    have hasset := (prints_weightAttr (hhead.append (prints_symbol hsymbol)) weight).close.prints
    rw [serializeBlock, blockTokens]
    cases pretty with
    | false => simpa using hasset
    | true => simpa [String.append_assoc] using prints_indented indent hasset
  | .onlyIf condition thenBlock, h => by
    have hcond := prints_condition condition fun leaf hleaf => h leaf (by simp [blockLeaves, hleaf])
    have hthen := prints_block pretty (indent + 2) thenBlock fun leaf hleaf =>
      h leaf (by simp [blockLeaves, hleaf])
    rw [serializeBlock, blockTokens]
    exact prints_if hcond hthen
  | .ifElse condition thenBlock elseBlock, h => by
    have hcond := prints_condition condition fun leaf hleaf => h leaf (by simp [blockLeaves, hleaf])
    have hthen := prints_block pretty (indent + 2) thenBlock fun leaf hleaf =>
      h leaf (by simp [blockLeaves, hleaf])
    have helse := prints_block pretty (indent + 4) elseBlock fun leaf hleaf =>
      h leaf (by simp [blockLeaves, hleaf])
    rw [serializeBlock, blockTokens]
    exact prints_ifElse hcond hthen helse
  | .filter criteria direction count children lookback, h => by
    have hchildren := prints_blocks pretty (indent + 2) children fun leaf hleaf =>
      h leaf (by simpa [blockLeaves] using hleaf)
    have hhead : PrintsAlone "(filter " [.lparen, .symbol "filter"] :=
      printsAlone_literal (by decide) (by decide) rfl
    have hby : PrintsAlone ":by " [.keyword ":by"] :=
      printsAlone_literal (by decide) (by decide) rfl
    have hselect : PrintsAlone ":select (" [.keyword ":select", .lparen] :=
      printsAlone_literal (by decide) (by decide) rfl
    have hcount := ((hselect.append (prints_direction direction)).blank.append
      (prints_intText count)).close.prints
    obtain ⟨tss₁, hlookback, htss₁⟩ :=
      prints_intPart (prints_literal (by decide) rfl : Prints ":lookback" [.keyword ":lookback"])
        lookback
    have hargs := hhead.append (prints_joinBlank (List.rel_append
      (.cons (hby.append (prints_criteria criteria)) (.cons hcount .nil)) hlookback))
    rw [serializeBlock, blockTokens, blocksTokens_eq, ← htss₁]
    simpa using prints_withChildren hargs hchildren

theorem prints_blocks (pretty : Bool) (indent : ℕ) : (blocks : List (Block ℚ)) →
    (∀ leaf ∈ blocksLeaves blocks, leaf.Lexes) →
    List.Forall₂ Prints (serializeBlocks pretty indent blocks) (blocks.map blockTokens)
  | [], _ => .nil
  | block :: blocks, h =>
    .cons (prints_block pretty indent block fun leaf hleaf => h leaf (by simp [blocksLeaves, hleaf]))
      (prints_blocks pretty indent blocks fun leaf hleaf => h leaf (by simp [blocksLeaves, hleaf]))

end

/-- Both forms of a strategy are read as its tokens. -/
theorem tokenize_serialize (strategy : DescribedStrategy) (pretty : Bool)
    (h : ∀ leaf ∈ strategy.leaves, leaf.Lexes) :
    tokenize (serialize strategy pretty).toList = strategy.tokens := by
  have hbenchmark : ∀ s ∈ strategy.benchmark, IsSymbol s := by
    intro s hs
    have hs : strategy.benchmark = some s := hs
    exact h (.symbol s) (by simp [DescribedStrategy.leaves, hs])
  obtain ⟨pss, hparts, hpss⟩ := prints_strategyParts strategy.name strategy.rebalance hbenchmark
    strategy.description
  have hchildren := prints_blocks pretty 2 strategy.children fun leaf hleaf =>
    h leaf (by simp [DescribedStrategy.leaves, hleaf])
  have hprints := prints_strategyText pretty 0 hparts hchildren [] (by simp [Delimited])
  simpa [serialize, DescribedStrategy.tokens, hpss, blocksTokens_eq] using hprints

end LlamaTrade
