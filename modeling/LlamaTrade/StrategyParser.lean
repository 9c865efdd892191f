import LlamaTrade.StrategyTokens
import LlamaTrade.StrategyTree

/-!
# Parser of the strategy language

`Parser` of the DSL. Numbers are read as exact decimals. Source locations are left out: the parsed
blocks have none, and an error is its message without the line and the column.
-/

namespace LlamaTrade

/-- A root with everything that its source says. -/
structure DescribedStrategy extends Strategy ℚ where
  benchmark : Option String
  description : Option String

/-! ## Names -/

/-- The member of an enumeration with a given text. -/
def withText {α : Type} (text : α → String) (members : List α) (value : String) : Option α :=
  members.find? fun a => text a = value

namespace RebalanceFrequency

/-- `REBALANCE_FREQUENCIES`. -/
def ofText : String → Option RebalanceFrequency :=
  withText text [.daily, .weekly, .monthly, .quarterly, .annually]

@[simp] theorem ofText_text (r : RebalanceFrequency) : ofText r.text = some r := by
  cases r <;> decide

end RebalanceFrequency

namespace WeightMethod

/-- `WEIGHT_METHODS`. -/
def ofText : String → Option WeightMethod :=
  withText text
    [.specified, .equal, .momentum, .inverseVolatility, .minVariance, .marketCap, .riskParity]

@[simp] theorem ofText_text (m : WeightMethod) : ofText m.text = some m := by
  cases m <;> decide

end WeightMethod

namespace FilterCriteria

def text : FilterCriteria → String
  | .momentum => "momentum"
  | .volatility => "volatility"
  | .volume => "volume"

/-- `FILTER_CRITERIA`. -/
def ofText : String → Option FilterCriteria := withText text [.momentum, .volatility, .volume]

@[simp] theorem ofText_text (c : FilterCriteria) : ofText c.text = some c := by
  cases c <;> decide

end FilterCriteria

namespace SelectDirection

def text : SelectDirection → String
  | .top => "top"
  | .bottom => "bottom"

def ofText : String → Option SelectDirection := withText text [.top, .bottom]

@[simp] theorem ofText_text (d : SelectDirection) : ofText d.text = some d := by
  cases d <;> decide

end SelectDirection

namespace ComparisonOperator

def text : ComparisonOperator → String
  | .gt => ">"
  | .lt => "<"
  | .ge => ">="
  | .le => "<="
  | .eq => "="
  | .ne => "!="

/-- `COMPARISON_OPS`. -/
def ofText : String → Option ComparisonOperator := withText text [.gt, .lt, .ge, .le, .eq, .ne]

@[simp] theorem ofText_text (o : ComparisonOperator) : ofText o.text = some o := by
  cases o <;> decide

end ComparisonOperator

namespace CrossoverDirection

/-- The operator of a crossover. -/
def text : CrossoverDirection → String
  | .above => "crosses-above"
  | .below => "crosses-below"

/-- `CROSSOVER_OPS`. -/
def ofText : String → Option CrossoverDirection := withText text [.above, .below]

@[simp] theorem ofText_text (d : CrossoverDirection) : ofText d.text = some d := by
  cases d <;> decide

end CrossoverDirection

namespace LogicalOperator

/-- `LOGICAL_OPS`. -/
def ofText : String → Option LogicalOperator := withText text [.and, .or, .not]

@[simp] theorem ofText_text (o : LogicalOperator) : ofText o.text = some o := by
  cases o <;> decide

end LogicalOperator

namespace PriceField

def text : PriceField → String
  | .close => "close"
  | .opening => "open"
  | .high => "high"
  | .low => "low"
  | .volume => "volume"

def ofText : String → Option PriceField := withText text [.close, .opening, .high, .low, .volume]

@[simp] theorem ofText_text (f : PriceField) : ofText f.text = some f := by
  cases f <;> decide

end PriceField

namespace IndicatorName

def ofText : String → Option IndicatorName :=
  withText text [.sma, .ema, .rsi, .macd, .bbands, .atr, .adx, .stoch, .cci, .williamsR, .obv, .mfi,
    .vwap, .keltner, .donchian, .stddev, .momentum]

@[simp] theorem ofText_text (n : IndicatorName) : ofText n.text = some n := by
  cases n <;> decide

end IndicatorName

namespace MetricName

def ofText : String → Option MetricName := withText text [.drawdown, .ret, .volatility]

@[simp] theorem ofText_text (n : MetricName) : ofText n.text = some n := by
  cases n <;> decide

end MetricName

/-! ## Errors, numbers and strings -/

/-- What the parser raises: `ParseError`, the `ValueError` of `int`, or `RecursionError`. -/
inductive StrategyError where
  | parseError (message : String)
  | valueError (message : String)
  | recursionError
  deriving DecidableEq

/-- What is parsed at the front of the tokens comes with the tokens that are left. -/
abbrev Parsing := Except StrategyError

def parseFailure {α : Type} (message : String) : Parsing α :=
  .error (.parseError message)

/-- `int(text)`. -/
def readInt (text : String) : Parsing ℤ :=
  match PyText.parseInt text with
  | .ok n => .ok n
  | .error _ => .error (.valueError s!"invalid literal for int() with base 10: '{text}'")

/-- `float(text)` of a number token. -/
def readFloat (text : String) : ℚ :=
  let (negative, cs) := PyText.takeSign text.toList
  let (digits, rest) := PyText.takeDigits cs
  let (decimals, _) := PyText.takeDigits rest.tail
  let magnitude : ℚ := PyText.ofDigits (digits ++ decimals) / 10 ^ decimals.length
  if negative then -magnitude else magnitude

/-- A parameter of an indicator. -/
def readParam (text : String) : Parsing Param :=
  if '.' ∈ text.toList then .ok (.float (readFloat text)) else (readInt text).map .int

/-- `str.replace` of two characters by one. -/
def replacePair (a b c : Char) : List Char → List Char
  | x :: y :: cs =>
    if x = a ∧ y = b then c :: replacePair a b c cs else x :: replacePair a b c (y :: cs)
  | cs => cs

/-- The unescaping of a string. -/
def unescape (cs : List Char) : List Char :=
  replacePair '\\' '\\' '\\' (replacePair '\\' 'n' '\n' (replacePair '\\' '"' '"' cs))

/-- The text of a string token. -/
def stringText (value : String) : String := String.ofList (unescape (value.toList.drop 1).dropLast)

/-- The name of a keyword token. -/
def keywordName (value : String) : String := String.ofList (value.toList.drop 1)

/-! ## Tokens -/

/-- `_expect`, of a parenthesis. -/
def expect (expected : Token) : List Token → Parsing (List Token)
  | [] => parseFailure s!"Expected {expected.kind}, got end of input"
  | t :: ts =>
    if t = expected then .ok ts
    else parseFailure s!"Expected {expected.kind}, got {t.kind}: {t.value}"

/-- `_expect_symbol`. -/
def expectSymbol (expected : String) : List Token → Parsing (List Token)
  | [] => parseFailure s!"Expected '{expected}', got end of input"
  | t :: ts =>
    if t = .symbol expected then .ok ts else parseFailure s!"Expected '{expected}', got {t.value}"

/-- `_expect_keyword`. -/
def expectKeyword (expected : String) : List Token → Parsing (List Token)
  | [] => parseFailure s!"Expected ':{expected}', got end of input"
  | t :: ts =>
    if t = .keyword s!":{expected}" then .ok ts
    else parseFailure s!"Expected ':{expected}', got {t.value}"

/-- `_parse_string`. -/
def parseString : List Token → Parsing (String × List Token)
  | .string value :: ts => .ok (stringText value, ts)
  | _ => parseFailure "Expected string"

/-- The symbol that a form requires. -/
def parseSymbol (message : String) : List Token → Parsing (String × List Token)
  | .symbol value :: ts => .ok (value, ts)
  | _ => parseFailure message

/-- The number after a keyword. -/
def parseNumber {α : Type} (read : String → Parsing α) (message : String) :
    List Token → Parsing (α × List Token)
  | .number text :: ts => (read text).map (·, ts)
  | _ => parseFailure message

/-- A number after a keyword, if the keyword is next. -/
def parseOptional {α : Type} (read : String → Parsing α) (name : String) :
    List Token → Parsing (Option α × List Token)
  | .keyword value :: ts =>
    if keywordName value = name then
      (parseNumber read s!"Expected number for :{name}" ts).map fun p => (some p.1, p.2)
    else .ok (none, .keyword value :: ts)
  | ts => .ok (none, ts)

/-! ## Values -/

/-- The field of a price. A keyword that names no field is not taken. -/
def parseField : List Token → Parsing (PriceField × List Token)
  | .keyword value :: ts =>
    match PriceField.ofText (keywordName value) with
    | some field => .ok (field, ts)
    | none => .ok (.close, .keyword value :: ts)
  | ts => .ok (.close, ts)

/-- `_parse_price_rest`. -/
def parsePriceRest (ts : List Token) : Parsing (Value ℚ × List Token) := do
  let (symbol, ts) ← parseSymbol "Expected symbol in price expression" ts
  let (field, ts) ← parseField ts
  let ts ← expect .rparen ts
  .ok (.price symbol field, ts)

/-- The numeric parameters of an indicator. -/
def parseParams : List Token → Parsing (List Param × List Token)
  | .number text :: ts => do
    let param ← readParam text
    let (params, ts) ← parseParams ts
    .ok (param :: params, ts)
  | ts => .ok ([], ts)

/-- The output of an indicator. -/
def parseOutput : List Token → Parsing (Option String × List Token)
  | .keyword value :: ts => .ok (some (keywordName value), ts)
  | ts => .ok (none, ts)

/-- `_parse_indicator_rest`. -/
def parseIndicatorRest (name : IndicatorName) (ts : List Token) :
    Parsing (Value ℚ × List Token) := do
  let (symbol, ts) ← parseSymbol s!"Expected symbol in {name.text} indicator" ts
  let (params, ts) ← parseParams ts
  let (output, ts) ← parseOutput ts
  let ts ← expect .rparen ts
  .ok (.indicator ⟨name, symbol, params, output, none⟩, ts)

/-- The period of a metric. -/
def parsePeriod : List Token → Parsing (Option ℤ × List Token)
  | .number text :: ts => (readInt text).map fun period => (some period, ts)
  | ts => .ok (none, ts)

/-- `_parse_metric_rest`. -/
def parseMetricRest (name : MetricName) (ts : List Token) : Parsing (Value ℚ × List Token) := do
  let (symbol, ts) ← parseSymbol s!"Expected symbol in {name.text} metric" ts
  let (period, ts) ← parsePeriod ts
  let ts ← expect .rparen ts
  .ok (.metric ⟨name, symbol, period⟩, ts)

/-- `_parse_value`. -/
def parseValue : List Token → Parsing (Value ℚ × List Token)
  | [] => parseFailure "Expected value"
  | .number text :: ts => .ok (.numericLiteral (readFloat text), ts)
  | .lparen :: ts => do
    let (function, ts) ← parseSymbol "Expected function name in value expression" ts
    if function = "price" then parsePriceRest ts
    else match IndicatorName.ofText function with
      | some name => parseIndicatorRest name ts
      | none => match MetricName.ofText function with
        | some name => parseMetricRest name ts
        | none => parseFailure s!"Unknown value function: {function}"
  | t :: _ => parseFailure s!"Expected value expression, got {t.value}"

/-! ## Conditions -/

/-- A form of two values. -/
def parseValues {α : Type} (f : Value ℚ → Value ℚ → α) (ts : List Token) :
    Parsing (α × List Token) := do
  let (left, ts) ← parseValue ts
  let (right, ts) ← parseValue ts
  let ts ← expect .rparen ts
  .ok (f left right, ts)

/-- `_parse_condition` after the operator. -/
def parseConditionRest (parseOperands : List Token → Parsing (List (Condition ℚ) × List Token))
    (operator : String) (ts : List Token) : Parsing (Condition ℚ × List Token) :=
  match ComparisonOperator.ofText operator with
  | some comparison => parseValues (.comparison comparison) ts
  | none => match CrossoverDirection.ofText operator with
    | some direction => parseValues (.crossover direction) ts
    | none => match LogicalOperator.ofText operator with
      | some logical => do
        let (operands, ts) ← parseOperands ts
        let ts ← expect .rparen ts
        .ok (.logicalOp logical operands, ts)
      | none => parseFailure s!"Unknown condition operator: {operator}"

mutual

/-- `_parse_condition`. The number bounds the recursion. -/
def parseCondition : ℕ → List Token → Parsing (Condition ℚ × List Token)
  | 0, _ => .error .recursionError
  | n + 1, ts => do
    let ts ← expect .lparen ts
    match ts with
    | [] => parseFailure "Expected condition operator"
    | .operator operator :: ts => parseConditionRest (parseConditions n) operator ts
    | .symbol operator :: ts => parseConditionRest (parseConditions n) operator ts
    | t :: _ => parseFailure s!"Expected operator, got {t.value}"

/-- The operands of a logical operator. -/
def parseConditions : ℕ → List Token → Parsing (List (Condition ℚ) × List Token)
  | 0, _ => .error .recursionError
  | _ + 1, [] => .ok ([], [])
  | _ + 1, .rparen :: ts => .ok ([], .rparen :: ts)
  | n + 1, ts => do
    let (operand, ts) ← parseCondition n ts
    let (operands, ts) ← parseConditions n ts
    .ok (operand :: operands, ts)

end

/-! ## Blocks -/

section Blocks

variable (parseChildren : List Token → Parsing (List (Block ℚ) × List Token))

/-- `_parse_group` after its name. -/
def parseGroup (ts : List Token) : Parsing (Block ℚ × List Token) := do
  let (name, ts) ← parseString ts
  let (weight, ts) ← parseOptional (fun text => .ok (readFloat text)) "weight" ts
  let (children, ts) ← parseChildren ts
  let ts ← expect .rparen ts
  .ok (.group name children weight, ts)

/-- The optional arguments `:lookback` and `:top`, in any order. -/
def parseWeightOptions (lookback top : Option ℤ) :
    List Token → Parsing ((Option ℤ × Option ℤ) × List Token)
  | [] => .ok ((lookback, top), [])
  | [t] =>
    match t with
    | .keyword value =>
      let name := keywordName value
      if name = "lookback" ∨ name = "top" then parseFailure s!"Expected number for :{name}"
      else .ok ((lookback, top), [t])
    | _ => .ok ((lookback, top), [t])
  | t :: u :: ts =>
    match t with
    | .keyword value =>
      let name := keywordName value
      if name = "lookback" ∨ name = "top" then
        match u with
        | .number text => do
          let number ← readInt text
          if name = "lookback" then parseWeightOptions (some number) top ts
          else parseWeightOptions lookback (some number) ts
        | _ => parseFailure s!"Expected number for :{name}"
      else .ok ((lookback, top), t :: u :: ts)
    | _ => .ok ((lookback, top), t :: u :: ts)

/-- `_parse_weight` after its name. -/
def parseWeight (ts : List Token) : Parsing (Block ℚ × List Token) := do
  let ts ← expectKeyword "method" ts
  let (methodText, ts) ← parseSymbol "Expected weight method" ts
  match WeightMethod.ofText methodText with
  | none => parseFailure s!"Invalid weight method: {methodText}"
  | some method => do
    let ((lookback, top), ts) ← parseWeightOptions none none ts
    let (children, ts) ← parseChildren ts
    let ts ← expect .rparen ts
    .ok (.weight method children lookback top none, ts)

/-- `_parse_asset` after its name. -/
def parseAsset (ts : List Token) : Parsing (Block ℚ × List Token) := do
  let (symbol, ts) ← parseSymbol "Expected asset symbol" ts
  let (weight, ts) ← parseOptional (fun text => .ok (readFloat text)) "weight" ts
  let ts ← expect .rparen ts
  .ok (.asset symbol weight, ts)

/-- `_parse_if` after its name. An else branch is recognised by its first two tokens. -/
def parseIf (parseCondition : List Token → Parsing (Condition ℚ × List Token))
    (parseBlock : List Token → Parsing (Block ℚ × List Token)) (ts : List Token) :
    Parsing (Block ℚ × List Token) := do
  let (condition, ts) ← parseCondition ts
  let (thenBlock, ts) ← parseBlock ts
  match ts with
  | .lparen :: t :: ts =>
    if t.value = "else" then do
      let ts ← expectSymbol "else" (t :: ts)
      let (elseBlock, ts) ← parseBlock ts
      let ts ← expect .rparen ts
      let ts ← expect .rparen ts
      .ok (.ifElse condition thenBlock elseBlock, ts)
    else do
      let ts ← expect .rparen (.lparen :: t :: ts)
      .ok (.onlyIf condition thenBlock, ts)
  | ts => do
    let ts ← expect .rparen ts
    .ok (.onlyIf condition thenBlock, ts)

/-- `_parse_filter` after its name. -/
def parseFilter (ts : List Token) : Parsing (Block ℚ × List Token) := do
  let ts ← expectKeyword "by" ts
  let (byText, ts) ← parseSymbol "Expected filter criteria" ts
  match FilterCriteria.ofText byText with
  | none => parseFailure s!"Invalid filter criteria: {byText}"
  | some criteria => do
    let ts ← expectKeyword "select" ts
    let ts ← expect .lparen ts
    let (directionText, ts) ← parseSymbol "Expected 'top' or 'bottom' in :select" ts
    match SelectDirection.ofText directionText with
    | none => parseFailure "Expected 'top' or 'bottom' in :select"
    | some direction => do
      let (count, ts) ← parseNumber readInt "Expected number in :select" ts
      let ts ← expect .rparen ts
      let (lookback, ts) ← parseOptional readInt "lookback" ts
      let (children, ts) ← parseChildren ts
      let ts ← expect .rparen ts
      .ok (.filter criteria direction count children lookback, ts)

end Blocks

mutual

/-- `_parse_block`. The number bounds the recursion. -/
def parseBlock : ℕ → List Token → Parsing (Block ℚ × List Token)
  | 0, _ => .error .recursionError
  | _ + 1, [] => parseFailure "Expected block, got end of input"
  | _ + 1, [.lparen] => parseFailure "Unexpected end of input"
  | n + 1, .lparen :: .symbol blockType :: ts =>
    if blockType = "group" then parseGroup (parseBlocks n) ts
    else if blockType = "weight" then parseWeight (parseBlocks n) ts
    else if blockType = "asset" then parseAsset ts
    else if blockType = "if" then parseIf (parseCondition n) (parseBlock n) ts
    else if blockType = "filter" then parseFilter (parseBlocks n) ts
    else parseFailure s!"Unknown block type: {blockType}"
  | _ + 1, .lparen :: t :: _ => parseFailure s!"Expected block type, got {t.value}"
  | _ + 1, t :: _ => parseFailure s!"Expected '(', got {t.value}"

/-- The children of a block. -/
def parseBlocks : ℕ → List Token → Parsing (List (Block ℚ) × List Token)
  | 0, _ => .error .recursionError
  | _ + 1, [] => .ok ([], [])
  | _ + 1, .rparen :: ts => .ok ([], .rparen :: ts)
  | n + 1, ts => do
    let (block, ts) ← parseBlock n ts
    let (blocks, ts) ← parseBlocks n ts
    .ok (block :: blocks, ts)

end

/-! ## Strategies -/

/-- The optional arguments of a strategy. -/
structure StrategyOptions where
  rebalance : Option RebalanceFrequency
  benchmark : Option String
  description : Option String

namespace StrategyOptions

def none : StrategyOptions := ⟨.none, .none, .none⟩

/-- The value of the keyword `name` is the next token. -/
def set (options : StrategyOptions) (name : String) (next : Option Token) :
    Parsing StrategyOptions :=
  if name = "rebalance" then
    let found := (next.map Token.value).getD "EOF"
    let invalid := s!"Invalid rebalance frequency: {found}"
    match next with
    | some (.symbol value) =>
      match RebalanceFrequency.ofText value with
      | some rebalance => .ok { options with rebalance := some rebalance }
      | .none => parseFailure invalid
    | _ => parseFailure invalid
  else if name = "benchmark" then
    match next with
    | some (.symbol value) => .ok { options with benchmark := some value }
    | _ => parseFailure "Expected symbol for benchmark"
  else
    match next with
    | some (.string value) => .ok { options with description := some (stringText value) }
    | _ => parseFailure "Expected string"

end StrategyOptions

/-- The keyword of an optional argument of a strategy. -/
def strategyOption : Token → Option String
  | .keyword value =>
    let name := keywordName value
    if name ∈ ["rebalance", "benchmark", "description"] then some name else none
  | _ => none

/-- The optional arguments of a strategy, in any order. -/
def parseStrategyOptions (options : StrategyOptions) :
    List Token → Parsing (StrategyOptions × List Token)
  | [] => .ok (options, [])
  | [t] =>
    match strategyOption t with
    | some name => (options.set name none).map (·, [])
    | none => .ok (options, [t])
  | t :: u :: ts =>
    match strategyOption t with
    | some name => do
      let options ← options.set name (some u)
      parseStrategyOptions options ts
    | none => .ok (options, t :: u :: ts)

/-- `_parse_strategy`. -/
def parseStrategyForm (n : ℕ) (ts : List Token) : Parsing (DescribedStrategy × List Token) := do
  let ts ← expect .lparen ts
  let ts ← expectSymbol "strategy" ts
  let (name, ts) ← parseString ts
  let (options, ts) ← parseStrategyOptions .none ts
  let (children, ts) ← parseBlocks n ts
  let ts ← expect .rparen ts
  .ok (⟨⟨name, children, options.rebalance⟩, options.benchmark, options.description⟩, ts)

/-- `_MAX_NESTING`. -/
def maxNesting : ℕ := 150

/-- `_check_nesting`, below a given depth. -/
def checkNesting (depth : ℕ) : List Token → Parsing Unit
  | [] => .ok ()
  | .lparen :: ts =>
    if depth + 1 > maxNesting then parseFailure s!"Nesting exceeds {maxNesting} levels"
    else checkNesting (depth + 1) ts
  | .rparen :: ts => checkNesting (depth - 1) ts
  | _ :: ts => checkNesting depth ts

/-- `Parser.parse`, of the tokens. A list of tokens needs no deeper recursion than it is long. -/
def parseTokens (ts : List Token) : Parsing DescribedStrategy := do
  checkNesting 0 ts
  if ts = [] then parseFailure "Empty input"
  else do
    let (strategy, rest) ← parseStrategyForm ts.length ts
    if rest = [] then .ok strategy else parseFailure "Unexpected tokens after strategy"

/-- `parse_strategy`. -/
def parseStrategy (source : String) : Parsing DescribedStrategy :=
  parseTokens (tokenize source.toList)

end LlamaTrade
