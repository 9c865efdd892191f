import LlamaTrade.PythonText
import Mathlib.Algebra.Order.Field.Rat
import Mathlib.Data.Rat.Cast.Defs
import Mathlib.Data.List.MinMax

/-!
# Strategy trees

The syntax tree of the allocation language, its validator, the indicators that a tree reads and
the history window it needs (`ast`, `validator`, `analysis` and `window` of the DSL package).
Numbers are exact, in any ordered field. What the standard library and `numpy` provide is a
parameter.
-/

namespace LlamaTrade

/-- Weights are in percent. -/
instance atLeastTwo_hundred : Nat.AtLeastTwo 100 := ⟨by norm_num⟩

/-- Tolerances and roundings are powers of ten. -/
instance atLeastTwo_ten : Nat.AtLeastTwo 10 := ⟨by norm_num⟩

structure SourceLocation where
  line : ℕ
  column : ℕ
  deriving DecidableEq

inductive RebalanceFrequency where
  | daily | weekly | monthly | quarterly | annually
  deriving DecidableEq

def RebalanceFrequency.text : RebalanceFrequency → String
  | .daily => "daily"
  | .weekly => "weekly"
  | .monthly => "monthly"
  | .quarterly => "quarterly"
  | .annually => "annually"

inductive WeightMethod where
  | specified | equal | momentum | inverseVolatility | minVariance | marketCap | riskParity
  deriving DecidableEq

def WeightMethod.text : WeightMethod → String
  | .specified => "specified"
  | .equal => "equal"
  | .momentum => "momentum"
  | .inverseVolatility => "inverse-volatility"
  | .minVariance => "min-variance"
  | .marketCap => "market-cap"
  | .riskParity => "risk-parity"

inductive FilterCriteria where
  | momentum | volatility | volume
  deriving DecidableEq

inductive SelectDirection where
  | top | bottom
  deriving DecidableEq

inductive ComparisonOperator where
  | gt | lt | ge | le | eq | ne
  deriving DecidableEq

inductive LogicalOperator where
  | and | or | not
  deriving DecidableEq

def LogicalOperator.text : LogicalOperator → String
  | .and => "and"
  | .or => "or"
  | .not => "not"

inductive CrossoverDirection where
  | above | below
  deriving DecidableEq

inductive PriceField where
  | close | opening | high | low | volume
  deriving DecidableEq

/-- `INDICATORS`. -/
inductive IndicatorName where
  | sma | ema | rsi | macd | bbands | atr | adx | stoch | cci | williamsR | obv | mfi | vwap
  | keltner | donchian | stddev | momentum
  deriving DecidableEq

def IndicatorName.text : IndicatorName → String
  | .sma => "sma"
  | .ema => "ema"
  | .rsi => "rsi"
  | .macd => "macd"
  | .bbands => "bbands"
  | .atr => "atr"
  | .adx => "adx"
  | .stoch => "stoch"
  | .cci => "cci"
  | .williamsR => "williams-r"
  | .obv => "obv"
  | .mfi => "mfi"
  | .vwap => "vwap"
  | .keltner => "keltner"
  | .donchian => "donchian"
  | .stddev => "stddev"
  | .momentum => "momentum"

/-- `METRICS`. -/
inductive MetricName where
  | drawdown | ret | volatility
  deriving DecidableEq

def MetricName.text : MetricName → String
  | .drawdown => "drawdown"
  | .ret => "return"
  | .volatility => "volatility"

/-- A parameter of an indicator, `int | float`. -/
inductive Param where
  | int (n : ℤ)
  | float (x : ℚ)
  deriving DecidableEq

/-- The number of a parameter. -/
def Param.value : Param → ℚ
  | .int n => n
  | .float x => x

/-- `int(param)`. Validated parameters are positive. -/
def Param.period (p : Param) : ℕ := p.value.floor.toNat

structure Indicator where
  name : IndicatorName
  symbol : String
  params : List Param
  output : Option String
  location : Option SourceLocation
  deriving DecidableEq

structure Metric where
  name : MetricName
  symbol : String
  period : Option ℤ
  deriving DecidableEq

inductive Value (K : Type) where
  | numericLiteral (value : K)
  | price (symbol : String) (field : PriceField)
  | indicator (indicator : Indicator)
  | metric (metric : Metric)

inductive Condition (K : Type) where
  | comparison (operator : ComparisonOperator) (left right : Value K)
  | crossover (direction : CrossoverDirection) (fast slow : Value K)
  | logicalOp (operator : LogicalOperator) (operands : List (Condition K))

/-- `Block`. An `If` is `onlyIf` when it has no else branch. -/
inductive Block (K : Type) where
  | strategy (name : String) (children : List (Block K)) (rebalance : Option RebalanceFrequency)
  | group (name : String) (children : List (Block K)) (weight : Option K)
  | weight (method : WeightMethod) (children : List (Block K)) (lookback top : Option ℤ)
    (location : Option SourceLocation)
  | asset (symbol : String) (weight : Option K)
  | onlyIf (condition : Condition K) (thenBlock : Block K)
  | ifElse (condition : Condition K) (thenBlock elseBlock : Block K)
  | filter (by_ : FilterCriteria) (direction : SelectDirection) (count : ℤ)
    (children : List (Block K)) (lookback : Option ℤ)

/-- The root of a tree. -/
structure Strategy (K : Type) where
  name : String
  children : List (Block K)
  rebalance : Option RebalanceFrequency

/-- The functions of the standard library and of `numpy` that the strategies use: `str` of a
float, `isalpha`, `np.sqrt`, and `np.linalg.pinv(cov) @ ones`, which is `none` when it raises
`LinAlgError`. A number that is not a number is `none`. -/
structure Numerics (K : Type) where
  text : K → String
  isalpha : Char → Bool
  sqrt : K → K
  pinvOnes : List (List (Option K)) → Option (List (Option K))

/-- `str(param)`. -/
def Numerics.paramText {K : Type} [RatCast K] (num : Numerics K) : Param → String
  | .int n => toString n
  | .float x => num.text x

/-! ## Validator -/

structure ValidationError where
  message : String
  path : String
  line : Option ℕ
  column : Option ℕ
  deriving DecidableEq

/-- `self._error(message, path, line, column)`, if the check fails. -/
def errorAt (location : Option SourceLocation) (failed : Bool) (message path : String) :
    List ValidationError :=
  if failed then [⟨message, path, location.map (·.line), location.map (·.column)⟩] else []

/-- `self._error(message, path)`, if the check fails. -/
def errorIf (failed : Bool) (message path : String) : List ValidationError :=
  errorAt none failed message path

@[simp] theorem errorIf_eq_nil {failed : Bool} {message path : String} :
    errorIf failed message path = [] ↔ failed = false := by
  cases failed <;> simp [errorIf, errorAt]

@[simp] theorem errorAt_eq_nil {location : Option SourceLocation} {failed : Bool}
    {message path : String} : errorAt location failed message path = [] ↔ failed = false := by
  cases failed <;> simp [errorAt]

/-- The errors of a check on each element, with the element's path. -/
def checkEach {α : Type} (check : String → α → List ValidationError) (path : String)
    (elements : List α) : List ValidationError :=
  (elements.mapIdx fun i x => check s!"{path}[{i}]" x).flatten

/-- `not text or not text.strip()`. -/
def isBlank (text : String) : Bool := (PyText.strip text.toList).isEmpty

section Validator

variable {K : Type} [Field K] [LinearOrder K]

/-- `_common_branch_weight`. -/
def commonBranchWeight : Block K → Option K
  | .asset _ weight => weight
  | .group _ _ weight => weight
  | .ifElse _ thenBlock elseBlock =>
    match commonBranchWeight thenBlock, commonBranchWeight elseBlock with
    | some thenWeight, some elseWeight =>
      if |thenWeight - elseWeight| ≤ 1 / 100 then some thenWeight else none
    | _, _ => none
  | _ => none

/-- `_declared_sibling_weight`. -/
def declaredSiblingWeight : Block K → Option K
  | .asset _ weight => weight
  | .group _ _ weight => weight
  | .ifElse condition thenBlock elseBlock =>
    commonBranchWeight (.ifElse condition thenBlock elseBlock)
  | _ => none

/-- `_check_declared_weight_sum`. -/
def checkDeclaredWeightSum (num : Numerics K) (children : List (Block K)) (path : String) :
    List ValidationError :=
  if children.isEmpty then []
  else if children.any fun c => (declaredSiblingWeight c).isNone then []
  else
    let total := (children.filterMap declaredSiblingWeight).sum
    let text := num.text total
    errorIf (|total - 100| > 1 / 100) s!"Weights must sum to 100%, got {text}%" s!"{path}.children"

mutual

/-- `_count_assets`, for one block. -/
def countAsset : Block K → ℕ
  | .asset .. => 1
  | .group _ children _ => countAssets children
  | .weight _ children .. => countAssets children
  | .filter _ _ _ children _ => countAssets children
  | .onlyIf _ thenBlock => countAsset thenBlock
  | .ifElse _ thenBlock elseBlock => countAsset thenBlock + countAsset elseBlock
  | .strategy .. => 0

/-- `_count_assets`. -/
def countAssets : List (Block K) → ℕ
  | [] => 0
  | block :: blocks => countAsset block + countAssets blocks

end

/-- `_validate_value`. -/
def validateValue (num : Numerics K) (path : String) : Value K → List ValidationError
  | .numericLiteral _ => []
  | .price symbol _ => errorIf (isBlank symbol) "Price symbol is required" s!"{path}.symbol"
  | .indicator ind =>
    errorAt ind.location (isBlank ind.symbol) "Indicator symbol is required" s!"{path}.symbol" ++
      checkEach (fun path param =>
        let text := num.paramText param
        errorAt ind.location (param.value ≤ 0) s!"Indicator parameter must be positive: {text}" path)
        s!"{path}.params" ind.params
  | .metric metric =>
    errorIf (isBlank metric.symbol) "Metric symbol is required" s!"{path}.symbol" ++
      match metric.period with
      | none => []
      | some period => errorIf (period ≤ 0) "Metric period must be positive" s!"{path}.period"

/-- A crossover of a metric. -/
def checkCrossoverOperand (path : String) : Value K → List ValidationError
  | .metric metric =>
    let name := metric.name.text
    errorIf true (s!"Crossover cannot use metric '{name}': crossovers need a previous value and " ++
      "metrics have none; use a comparison instead") path
  | _ => []

mutual

/-- `_validate_condition`. -/
def validateCondition (num : Numerics K) (path : String) : Condition K → List ValidationError
  | .comparison _ left right =>
    validateValue num s!"{path}.left" left ++ validateValue num s!"{path}.right" right
  | .crossover _ fast slow =>
    checkCrossoverOperand s!"{path}.fast" fast ++ checkCrossoverOperand s!"{path}.slow" slow ++
      validateValue num s!"{path}.fast" fast ++ validateValue num s!"{path}.slow" slow
  | .logicalOp operator operands =>
    let name := operator.text
    (match operator with
      | .not => errorIf (operands.length ≠ 1) "'not' requires exactly 1 operand" s!"{path}.operands"
      | _ => errorIf (operands.length < 2) s!"'{name}' requires at least 2 operands"
          s!"{path}.operands") ++
      validateOperands num path 0 operands

def validateOperands (num : Numerics K) (path : String) (i : ℕ) :
    List (Condition K) → List ValidationError
  | [] => []
  | operand :: operands =>
    validateCondition num s!"{path}.operands[{i}]" operand ++
      validateOperands num path (i + 1) operands

end

/-- `_validate_asset`. -/
def validateAsset (num : Numerics K) (path symbol : String) (weight : Option K) :
    List ValidationError :=
  errorIf (isBlank symbol) "Asset symbol is required" s!"{path}.symbol" ++
    errorIf (symbol.toList.head?.any fun c => !num.isalpha c)
      s!"Asset symbol must start with a letter: {symbol}" s!"{path}.symbol" ++
    errorIf (weight.any (· ≤ 0)) "Asset weight must be positive" s!"{path}.weight"

/-- The check of a child of a `specified` block. -/
def checkSpecifiedChild (path : String) : Block K → List ValidationError
  | .asset _ weight =>
    errorIf weight.isNone "Asset must have :weight when parent uses method: specified" path
  | .group _ _ weight =>
    errorIf weight.isNone "Group must have :weight when parent uses method: specified" path
  | .onlyIf condition thenBlock =>
    errorIf (commonBranchWeight (.onlyIf condition thenBlock)).isNone
      "Every branch of an if under method: specified must declare the same :weight" path
  | .ifElse condition thenBlock elseBlock =>
    errorIf (commonBranchWeight (.ifElse condition thenBlock elseBlock)).isNone
      "Every branch of an if under method: specified must declare the same :weight" path
  | _ => []

/-- The check of a child of any other weight block. -/
def checkUnweightedChild (method : WeightMethod) (path : String) : Block K → List ValidationError
  | .asset _ weight =>
    let name := method.text
    errorIf weight.isSome s!"Asset should not have :weight when parent uses method: {name}" path
  | .group _ _ weight =>
    let name := method.text
    errorIf weight.isSome s!"Group should not have :weight when parent uses method: {name}" path
  | _ => []

/-- The checks of `_validate_weight` before those of the children. -/
def checkWeight (num : Numerics K) (path : String) (method : WeightMethod)
    (children : List (Block K)) (lookback top : Option ℤ) (location : Option SourceLocation) :
    List ValidationError :=
  let name := method.text
  let dynamic := method ∈ [.momentum, .inverseVolatility, .minVariance, .riskParity]
  errorAt location (method = .marketCap)
      ("market-cap weighting is not supported (requires fundamental data not " ++
        "available from price bars); use 'specified' or 'equal'") s!"{path}.method" ++
    errorIf children.isEmpty "Weight block must have at least one child" s!"{path}.children" ++
    errorIf (dynamic ∧ lookback.any (· ≤ 0)) "Lookback must be a positive integer"
      s!"{path}.lookback" ++
    (match top with
      | none => []
      | some top =>
        let count := children.length
        errorAt location (method ≠ .momentum) ("Only :method momentum honors :top; remove :top or " ++
            s!"use method: momentum instead of {name}") s!"{path}.top" ++
          errorIf (top ≤ 0) "Top selection must be a positive integer" s!"{path}.top" ++
          errorIf (top > count) s!"Top selection ({top}) exceeds children ({count})"
            s!"{path}.top") ++
    if method = .specified then
      checkEach checkSpecifiedChild s!"{path}.children" children ++
        checkDeclaredWeightSum num children path
    else checkEach (checkUnweightedChild method) s!"{path}.children" children

/-- The checks of `_validate_filter` before those of the children. -/
def checkFilter (path : String) (count : ℤ) (children : List (Block K)) (lookback : Option ℤ) :
    List ValidationError :=
  let assets := countAssets children
  errorIf (count ≤ 0) "Select count must be positive" s!"{path}.select_count" ++
    errorIf (lookback.any (· ≤ 0)) "Lookback must be a positive integer" s!"{path}.lookback" ++
    errorIf children.isEmpty "Filter block must have at least one child" s!"{path}.children" ++
    errorIf (count > assets) s!"Select count ({count}) exceeds available assets ({assets})"
      s!"{path}.select_count"

mutual

/-- `_validate_block`. -/
def validateBlock (num : Numerics K) (path : String) : Block K → List ValidationError
  | .strategy .. => errorIf true "Nested strategy blocks are not allowed" path
  | .group name children _ =>
    errorIf (isBlank name) "Group name is required" s!"{path}.name" ++
      errorIf children.isEmpty "Group must have at least one child block" s!"{path}.children" ++
      validateBlocks num path 0 children ++ checkDeclaredWeightSum num children path
  | .weight method children lookback top location =>
    checkWeight num path method children lookback top location ++ validateBlocks num path 0 children
  | .asset symbol weight => validateAsset num path symbol weight
  | .onlyIf condition thenBlock =>
    validateCondition num s!"{path}.condition" condition ++
      validateBlock num s!"{path}.then" thenBlock ++
      errorIf true ("An if must have an else branch; without one the branch can evaluate to " ++
        "nothing and the remaining allocation silently scales to 100%. Add an else " ++
        "(e.g. a cash-proxy holding) for the false case.") s!"{path}.else"
  | .ifElse condition thenBlock elseBlock =>
    validateCondition num s!"{path}.condition" condition ++
      validateBlock num s!"{path}.then" thenBlock ++ validateBlock num s!"{path}.else" elseBlock
  | .filter _ _ count children lookback =>
    checkFilter path count children lookback ++ validateBlocks num path 0 children

def validateBlocks (num : Numerics K) (path : String) (i : ℕ) :
    List (Block K) → List ValidationError
  | [] => []
  | block :: blocks =>
    validateBlock num s!"{path}.children[{i}]" block ++ validateBlocks num path (i + 1) blocks

end

/-- `validate_strategy`: the errors, in the order in which they are found. -/
def validateStrategy (num : Numerics K) (strategy : Strategy K) : List ValidationError :=
  errorIf (isBlank strategy.name) "Strategy name is required" "strategy.name" ++
    errorIf strategy.children.isEmpty "Strategy must have at least one allocation block"
      "strategy.children" ++
    validateBlocks num "strategy" 0 strategy.children ++
    checkDeclaredWeightSum num strategy.children "strategy"

end Validator

/-! ## Indicators of a strategy -/

/-- `IndicatorSpec`. The source of every indicator is the close. -/
structure IndicatorSpec where
  indicatorType : IndicatorName
  symbol : String
  params : List Param
  outputKey : String
  outputField : Option String
  requiredBars : ℕ
  deriving DecidableEq

/-- `INDICATOR_DEFAULT_PERIODS`. -/
def indicatorDefaultPeriods : IndicatorName → List Param
  | .sma => [.int 20]
  | .ema => [.int 20]
  | .rsi => [.int 14]
  | .macd => [.int 12, .int 26, .int 9]
  | .bbands => [.int 20, .float 2]
  | .atr => [.int 14]
  | .adx => [.int 14]
  | .stoch => [.int 14, .int 3, .int 3]
  | .cci => [.int 20]
  | .williamsR => [.int 14]
  | .obv => []
  | .mfi => [.int 14]
  | .vwap => []
  | .keltner => [.int 20, .float 2]
  | .donchian => [.int 20]
  | .stddev => [.int 20]
  | .momentum => [.int 10]

/-- `params + defaults[len(params):]`. -/
def paddedParams (name : IndicatorName) (params : List Param) : List Param :=
  params ++ (indicatorDefaultPeriods name).drop params.length

/-- The period at a position of the padded parameters. -/
def periodAt (name : IndicatorName) (params : List Param) (index : ℕ) : ℕ :=
  ((paddedParams name params)[index]?.map Param.period).getD 0

/-- `_calculate_required_bars`. -/
def calculateRequiredBars (name : IndicatorName) (params : List Param) : ℕ :=
  let period := periodAt name params
  match name with
  | .adx => 2 * period 0
  | .macd => period 1 + period 2 - 1
  | .stoch => period 0 + period 2 + period 1 - 2
  | .ema => period 0 + 2
  | .rsi | .atr | .mfi | .momentum | .keltner => period 0 + 1
  | .obv | .vwap => 1
  | .sma | .bbands | .cci | .williamsR | .donchian | .stddev => period 0

section Indicators

variable {K : Type} [RatCast K]

/-- The text of the output, if there is one. -/
def outputParts : Option String → List String
  | none => []
  | some output => if output = "" then [] else [output]

/-- `_generate_output_key`, for the source `close`. -/
def generateOutputKey (num : Numerics K) (name : IndicatorName) (symbol : String)
    (params : List Param) (output : Option String) : String :=
  "_".intercalate ([name.text, symbol, "close"] ++ params.map num.paramText ++ outputParts output)

/-- `_extract_from_value`: the specs found so far, keyed by their output keys. -/
def extractFromValue (num : Numerics K) (indicators : List IndicatorSpec) :
    Value K → List IndicatorSpec
  | .indicator ind =>
    let key := generateOutputKey num ind.name ind.symbol ind.params ind.output
    if indicators.any (·.outputKey = key) then indicators
    else indicators ++ [⟨ind.name, ind.symbol, ind.params, key, ind.output,
      calculateRequiredBars ind.name ind.params⟩]
  | _ => indicators

mutual

/-- `_extract_from_condition`. -/
def extractFromCondition (num : Numerics K) (indicators : List IndicatorSpec) :
    Condition K → List IndicatorSpec
  | .comparison _ left right => extractFromValue num (extractFromValue num indicators left) right
  | .crossover _ fast slow => extractFromValue num (extractFromValue num indicators fast) slow
  | .logicalOp _ operands => extractFromOperands num indicators operands

def extractFromOperands (num : Numerics K) (indicators : List IndicatorSpec) :
    List (Condition K) → List IndicatorSpec
  | [] => indicators
  | operand :: operands =>
    extractFromOperands num (extractFromCondition num indicators operand) operands

end

mutual

/-- `_extract_from_block`. -/
def extractFromBlock (num : Numerics K) (indicators : List IndicatorSpec) :
    Block K → List IndicatorSpec
  | .strategy _ children _ => extractFromBlocks num indicators children
  | .group _ children _ => extractFromBlocks num indicators children
  | .weight _ children .. => extractFromBlocks num indicators children
  | .asset .. => indicators
  | .onlyIf condition thenBlock =>
    extractFromBlock num (extractFromCondition num indicators condition) thenBlock
  | .ifElse condition thenBlock elseBlock =>
    extractFromBlock num
      (extractFromBlock num (extractFromCondition num indicators condition) thenBlock) elseBlock
  | .filter _ _ _ children _ => extractFromBlocks num indicators children

def extractFromBlocks (num : Numerics K) (indicators : List IndicatorSpec) :
    List (Block K) → List IndicatorSpec
  | [] => indicators
  | block :: blocks => extractFromBlocks num (extractFromBlock num indicators block) blocks

end

/-- `extract_indicators`. -/
def extractIndicators (num : Numerics K) (strategy : Strategy K) : List IndicatorSpec :=
  extractFromBlocks num [] strategy.children

end Indicators

/-- `get_max_lookback`. -/
def getMaxLookback (indicators : List IndicatorSpec) : ℕ :=
  (indicators.map (·.requiredBars)).foldr max 0

/-! ## Window -/

/-- `_WINDOW_BUFFER`. -/
def windowBuffer : ℕ := 10

/-- `_MAX_WINDOW`. -/
def maxWindow : ℕ := 2000

/-- `lookback or default`. -/
def orDefault (lookback : Option ℤ) (default : ℤ) : ℤ :=
  match lookback with
  | none => default
  | some n => if n = 0 then default else n

section Window

variable {K : Type}

/-- `_walk_value`: the lookbacks of a value, and whether it reads unbounded history. -/
def walkValue : Value K → List ℕ × Bool
  | .indicator ind => ([], ind.name = .obv ∨ ind.name = .vwap)
  | .metric metric =>
    match metric.period with
    | none => ([], true)
    | some period => ([(if metric.name = .ret then period + 1 else period).toNat], false)
  | _ => ([], false)

/-- The reads of two parts. -/
def bothReads (a b : List ℕ × Bool) : List ℕ × Bool := (a.1 ++ b.1, a.2 || b.2)

mutual

/-- `_walk_condition`. -/
def walkCondition : Condition K → List ℕ × Bool
  | .comparison _ left right => bothReads (walkValue left) (walkValue right)
  | .crossover _ fast slow => bothReads (walkValue fast) (walkValue slow)
  | .logicalOp _ operands => walkOperands operands

def walkOperands : List (Condition K) → List ℕ × Bool
  | [] => ([], false)
  | operand :: operands => bothReads (walkCondition operand) (walkOperands operands)

end

/-- The lookback of a weight block. -/
def weightLookback (method : WeightMethod) (lookback : Option ℤ) : List ℕ :=
  match method with
  | .momentum => [(orDefault lookback 90 + 1).toNat]
  | .inverseVolatility | .riskParity | .minVariance => [(orDefault lookback 60).toNat]
  | _ => []

mutual

/-- `_walk_block`. -/
def walkBlock : Block K → List ℕ × Bool
  | .strategy _ children _ => walkChildren children
  | .group _ children _ => walkChildren children
  | .weight method children lookback .. =>
    bothReads (weightLookback method lookback, false) (walkChildren children)
  | .asset .. => ([], false)
  | .onlyIf condition thenBlock => bothReads (walkCondition condition) (walkBlock thenBlock)
  | .ifElse condition thenBlock elseBlock =>
    bothReads (bothReads (walkCondition condition) (walkBlock thenBlock)) (walkBlock elseBlock)
  | .filter _ _ _ children lookback =>
    bothReads ([(orDefault lookback 90 + 1).toNat], false) (walkChildren children)

/-- `_walk_children`. -/
def walkChildren : List (Block K) → List ℕ × Bool
  | [] => ([], false)
  | block :: blocks => bothReads (walkBlock block) (walkChildren blocks)

end

/-- `collect_lookbacks`. -/
def collectLookbacks (strategy : Strategy K) (indicatorMinBars : ℕ) : ℕ × Bool :=
  let reads := walkChildren strategy.children
  (reads.1.foldr max indicatorMinBars, reads.2)

/-- `compute_window`. -/
def computeWindow (strategy : Strategy K) (minBars : ℕ) : ℕ :=
  let (lookback, unbounded) := collectLookbacks strategy minBars
  if unbounded then max (lookback + windowBuffer) maxWindow else lookback + windowBuffer

end Window

end LlamaTrade
