import LlamaTrade.PrintedNumbers

/-!
# Leaves and tokens of a strategy

The texts and numbers at the leaves of a strategy, the tokens that a strategy is printed as, and
how deeply its parentheses are nested.
-/

namespace LlamaTrade

open PyText

/-! ## Leaves -/

inductive StrategyLeaf where
  | symbol (symbol : String)
  | name (name : String)
  | number (number : ℚ)
  | output (output : String)
  | period (period : ℤ)
  | nestedStrategy

def valueLeaves : Value ℚ → List StrategyLeaf
  | .numericLiteral value => [.number value]
  | .price symbol _ => [.symbol symbol]
  | .indicator ind =>
    .symbol ind.symbol :: (ind.params.map (fun p => .number p.value) ++
      (ind.output.map .output).toList)
  | .metric metric => .symbol metric.symbol :: (metric.period.map .period).toList

mutual

def conditionLeaves : Condition ℚ → List StrategyLeaf
  | .comparison _ left right => valueLeaves left ++ valueLeaves right
  | .crossover _ fast slow => valueLeaves fast ++ valueLeaves slow
  | .logicalOp _ operands => conditionsLeaves operands

def conditionsLeaves : List (Condition ℚ) → List StrategyLeaf
  | [] => []
  | condition :: conditions => conditionLeaves condition ++ conditionsLeaves conditions

end

/-- The leaf of an optional weight. -/
def weightLeaves (weight : Option ℚ) : List StrategyLeaf := (weight.map .number).toList

mutual

def blockLeaves : Block ℚ → List StrategyLeaf
  | .strategy .. => [.nestedStrategy]
  | .group name children weight => .name name :: (weightLeaves weight ++ blocksLeaves children)
  | .weight _ children .. => blocksLeaves children
  | .asset symbol weight => .symbol symbol :: weightLeaves weight
  | .onlyIf condition thenBlock => conditionLeaves condition ++ blockLeaves thenBlock
  | .ifElse condition thenBlock elseBlock =>
    conditionLeaves condition ++ (blockLeaves thenBlock ++ blockLeaves elseBlock)
  | .filter _ _ _ children _ => blocksLeaves children

def blocksLeaves : List (Block ℚ) → List StrategyLeaf
  | [] => []
  | block :: blocks => blockLeaves block ++ blocksLeaves blocks

end

def DescribedStrategy.leaves (strategy : DescribedStrategy) : List StrategyLeaf :=
  .name strategy.name :: ((strategy.benchmark.map .symbol).toList ++
    ((strategy.description.map .name).toList ++ blocksLeaves strategy.children))

/-! ## Tokens -/

/-- The tokens of an optional keyword. -/
def keywordTokens (keyword : String) : Option (List Token) → List Token
  | none => []
  | some ts => .keyword keyword :: ts

/-- The tokens of an optional integer argument. -/
def intTokens (keyword : String) (n : Option ℤ) : List Token :=
  keywordTokens keyword (n.map fun n => [.number (intText n)])

def weightTokens (weight : Option ℚ) : List Token :=
  keywordTokens ":weight" (weight.map numberTokens)

def valueTokens : Value ℚ → List Token
  | .numericLiteral value => numberTokens value
  | .price symbol field =>
    .lparen :: .symbol "price" :: .symbol symbol ::
      ((if field = .close then [] else [.keyword (":" ++ field.text)]) ++ [.rparen])
  | .indicator ind =>
    .lparen :: .symbol ind.name.text :: .symbol ind.symbol ::
      (ind.params.flatMap (fun p => numberTokens p.value) ++
        ((indicatorOutput ind.output).map .keyword ++ [.rparen]))
  | .metric metric =>
    .lparen :: .symbol metric.name.text :: .symbol metric.symbol ::
      (((metric.period.filter (· ≠ 0)).map fun n => .number (intText n)).toList ++ [.rparen])

mutual

def conditionTokens : Condition ℚ → List Token
  | .comparison operator left right =>
    .lparen :: .operator operator.text :: (valueTokens left ++ (valueTokens right ++ [.rparen]))
  | .crossover direction fast slow =>
    .lparen :: .operator direction.text :: (valueTokens fast ++ (valueTokens slow ++ [.rparen]))
  | .logicalOp operator operands =>
    .lparen :: .symbol operator.text :: (conditionsTokens operands ++ [.rparen])

def conditionsTokens : List (Condition ℚ) → List Token
  | [] => []
  | condition :: conditions => conditionTokens condition ++ conditionsTokens conditions

end

/-- The tokens of the arguments of a strategy. -/
def strategyOptionTokens (rebalance : Option RebalanceFrequency)
    (benchmark description : Option String) : List Token :=
  keywordTokens ":rebalance" (rebalance.map fun r => [.symbol r.text]) ++
    (keywordTokens ":benchmark" ((benchmark.filter (· ≠ "")).map fun s => [.symbol s]) ++
      keywordTokens ":description" ((description.filter (· ≠ "")).map fun s => [.string (quoted s)]))

mutual

def blockTokens : Block ℚ → List Token
  | .strategy name children rebalance =>
    .lparen :: .symbol "strategy" :: .string (quoted name) ::
      (strategyOptionTokens rebalance none none ++ (blocksTokens children ++ [.rparen]))
  | .group name children weight =>
    .lparen :: .symbol "group" :: .string (quoted name) ::
      (weightTokens weight ++ (blocksTokens children ++ [.rparen]))
  | .weight method children lookback top _ =>
    .lparen :: .symbol "weight" :: .keyword ":method" :: .symbol method.text ::
      ((intTokens ":lookback" lookback ++ intTokens ":top" top) ++
        (blocksTokens children ++ [.rparen]))
  | .asset symbol weight =>
    .lparen :: .symbol "asset" :: .symbol symbol :: (weightTokens weight ++ [.rparen])
  | .onlyIf condition thenBlock =>
    .lparen :: .symbol "if" :: (conditionTokens condition ++ (blockTokens thenBlock ++ [.rparen]))
  | .ifElse condition thenBlock elseBlock =>
    .lparen :: .symbol "if" :: (conditionTokens condition ++ (blockTokens thenBlock ++
      .lparen :: .symbol "else" :: (blockTokens elseBlock ++ [.rparen, .rparen])))
  | .filter criteria direction count children lookback =>
    .lparen :: .symbol "filter" :: .keyword ":by" :: .symbol criteria.text :: .keyword ":select" ::
      .lparen :: .symbol direction.text :: .number (intText count) :: .rparen ::
      (intTokens ":lookback" lookback ++ (blocksTokens children ++ [.rparen]))

def blocksTokens : List (Block ℚ) → List Token
  | [] => []
  | block :: blocks => blockTokens block ++ blocksTokens blocks

end

/-- The tokens of a printed strategy. -/
def DescribedStrategy.tokens (strategy : DescribedStrategy) : List Token :=
  .lparen :: .symbol "strategy" :: .string (quoted strategy.name) ::
    (strategyOptionTokens strategy.rebalance strategy.benchmark strategy.description ++
      (blocksTokens strategy.children ++ [.rparen]))

/-! ## Words -/

/-- The text is a symbol token. -/
def IsSymbol (s : String) : Prop := lexOne s.toList = some (.token (.symbol s), [])

instance (s : String) : Decidable (IsSymbol s) := inferInstanceAs (Decidable (_ = _))

/-- The text is the name of a keyword token. -/
def IsKeywordName (s : String) : Prop := matchName isNameStart s.toList = some (s.toList, [])

instance (s : String) : Decidable (IsKeywordName s) := inferInstanceAs (Decidable (_ = _))

theorem clean_of_isNameChar {c : Char} (h : isNameChar c) :
    c ≠ '"' ∧ c ≠ ';' ∧ (isSpace c → isDelimiter c) := by
  have hne : ∀ d, isNameChar d = false → c ≠ d := by
    rintro d hd rfl
    rw [hd] at h
    cases h
  refine ⟨hne _ (by decide), hne _ (by decide), fun hspace => ?_⟩
  have halphanum := not_isAlphanum_of_isSpace hspace
  simp only [isNameChar, halphanum, Bool.false_or, Bool.or_eq_true, beq_iff_eq] at h
  rcases h with rfl | rfl <;> exact absurd hspace (by decide)

theorem clean_of_matchName {start : Char → Bool} (hstart : ∀ c, start c → isNameChar c ∨ c = '$')
    {cs : List Char} (h : matchName start cs = some (cs, [])) : Clean cs := by
  cases cs with
  | nil => simp [matchName] at h
  | cons c cs =>
    rw [matchName] at h
    split_ifs at h with hc
    have hdrop : cs.dropWhile isNameChar = [] := by simpa using congrArg (Option.map Prod.snd) h
    intro d hd
    rcases List.mem_cons.mp hd with rfl | hd
    · rcases hstart d hc with hname | rfl
      · exact clean_of_isNameChar hname
      · decide
    · exact clean_of_isNameChar (List.dropWhile_eq_nil_iff.mp hdrop d hd)

theorem isNameChar_of_isNameStart {c : Char} (h : isNameStart c) : isNameChar c := by
  simp only [isNameStart, Bool.or_eq_true, beq_iff_eq] at h
  rcases h with h | rfl
  · simp [isNameChar, Char.isAlphanum, h]
  · decide

theorem matchName_of_lexOne_symbol {cs rest : List Char} {s : String}
    (h : lexOne cs = some (.token (.symbol s), rest)) :
    matchName (fun c => isNameStart c || c == '$') cs = some (s.toList, rest) := by
  simp only [lexOne, Option.or_eq_some_iff, Matched.to, Option.map_eq_some_iff,
    Option.map_eq_none_iff, tokenOf, Prod.mk.injEq, reduceCtorEq, false_and, and_false, exists_false,
    false_or, Lexeme.token.injEq, Token.symbol.injEq, or_false] at h
  obtain ⟨-, -, -, -, -, -, ⟨text, rest'⟩, hname, rfl, rfl⟩ := h
  simpa using hname

theorem prints_symbol {s : String} (h : IsSymbol s) : Prints s [.symbol s] := by
  have hclean : Clean s.toList := by
    refine clean_of_matchName (fun c hc => ?_) (matchName_of_lexOne_symbol h)
    simp only [Bool.or_eq_true, beq_iff_eq] at hc
    exact hc.imp isNameChar_of_isNameStart id
  have hprints := prints_of_clean hclean
  rwa [tokenize_of_lexOne h] at hprints

theorem prints_keyword {s : String} (h : IsKeywordName s) :
    Prints (":" ++ s) [.keyword (":" ++ s)] := by
  have htext : (":" ++ s).toList = ':' :: s.toList := by simp
  have hclean : Clean (":" ++ s).toList := by
    rw [htext]
    intro c hc
    rcases List.mem_cons.mp hc with rfl | hc
    · decide
    · exact clean_of_matchName (fun c hc => .inl (isNameChar_of_isNameStart hc)) h c hc
  have hone : lexOne (":" ++ s).toList = some (.token (.keyword (":" ++ s)), []) := by
    have hofList : String.ofList (':' :: s.toList) = ":" ++ s := by
      rw [← htext, String.ofList_toList]
    rw [htext]
    simp [lexOne, matchChar, matchString, matchKeyword, show matchName isNameStart s.toList = _ from h,
      Matched.to, tokenOf, hofList]
  have hprints := prints_of_clean hclean
  rwa [tokenize_of_lexOne hone] at hprints

end LlamaTrade
