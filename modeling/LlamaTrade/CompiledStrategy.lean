import LlamaTrade.BarHistory
import LlamaTrade.IndicatorLibrary
import LlamaTrade.InsertionDict
import Mathlib.Data.List.Sort
import Mathlib.Data.String.Basic

/-!
# Compiled strategies

The evaluation of a strategy tree over the retained bars: statistics, conditions, and the weights
of every kind of block (`evaluation/statistics`, `state`, `conditions` and `compiled`). Weights are
percentages; a weight that is not a number is `none`. A computation that raises is `none`.
-/

namespace LlamaTrade

variable {T K : Type}

/-! ## Slices -/

/-- `xs[-n:]`. -/
def fromEnd {α : Type} (n : ℤ) (xs : List α) : List α :=
  if 0 < n then xs.drop (xs.length - n.toNat) else xs.drop (-n).toNat

/-- `xs[:n]`. -/
def upToCount {α : Type} (n : ℤ) (xs : List α) : List α :=
  if 0 ≤ n then xs.take n.toNat else xs.take (xs.length - (-n).toNat)

section Statistics

variable [Field K] [LinearOrder K]

/-! ## Statistics -/

/-- `trailing_return`. -/
def trailingReturn (bars : List (Bar T K)) (lookback : ℤ) : K :=
  if lookback < 1 ∨ bars.length < lookback + 1 then 0
  else
    match bars[bars.length - (lookback + 1).toNat]?, bars.getLast? with
    | some first, some last =>
      if first.close > 0 then (last.close - first.close) / first.close else 0
    | _, _ => 0

/-- `bars[-lookback:] if lookback else bars`. -/
def lookbackBars (bars : List (Bar T K)) (lookback : Option ℤ) : List (Bar T K) :=
  match lookback with
  | none => bars
  | some n => if n = 0 then bars else fromEnd n bars

/-- `np.diff(closes) / closes[:-1]`. -/
def barReturns (bars : List (Bar T K)) : Series K :=
  List.zipWith (fun next prev => divN (some (next.close - prev.close)) (some prev.close))
    bars.tail bars

/-- `return_volatility`. -/
def returnVolatility (num : Numerics K) (bars : List (Bar T K)) (lookback : Option ℤ) : Option K :=
  let series := lookbackBars bars lookback
  if series.length < 2 then some 0
  else ((barReturns series).mapM id).bind (std num)

/-- `average_dollar_volume`. -/
def averageDollarVolume (bars : List (Bar T K)) (lookback : Option ℤ) : K :=
  let series := lookbackBars bars lookback
  if series.isEmpty then 0
  else (series.map fun bar => bar.close * (bar.volume : K)).sum / series.length

/-! ## Conditions -/

/-- `EvaluationState`. -/
structure EvaluationState (T K : Type) where
  currentBars : InsertionDict (Bar T K)
  prevBars : String → Option (Bar T K)
  indicators : String → Option (Series K)
  barHistory : InsertionDict (List (Bar T K))

/-- `self.bar_history.get(symbol, [])`. -/
def EvaluationState.bars (state : EvaluationState T K) (symbol : String) : List (Bar T K) :=
  state.barHistory.getD symbol []

/-- The price of a bar. -/
def Bar.price (bar : Bar T K) : PriceField → K
  | .close => bar.close
  | .opening => bar.opening
  | .high => bar.high
  | .low => bar.low
  | .volume => bar.volume

/-- The series that `get_indicator_value` reads. -/
def EvaluationState.indicatorSeries (num : Numerics K) (state : EvaluationState T K)
    (ind : Indicator) : Option (Series K) :=
  match state.indicators (generateOutputKey num ind.name ind.symbol ind.params ind.output) with
  | some series => some series
  | none => state.indicators (generateOutputKey num ind.name ind.symbol ind.params none)

/-- `get_indicator_value`. -/
def EvaluationState.getIndicatorValue (num : Numerics K) (state : EvaluationState T K)
    (ind : Indicator) : Option (Option K) :=
  (state.indicatorSeries num ind).bind List.getLast?

/-- `get_prev_indicator_value`. -/
def EvaluationState.getPrevIndicatorValue (num : Numerics K) (state : EvaluationState T K)
    (ind : Indicator) : Option (Option K) :=
  (state.indicatorSeries num ind).bind fun series =>
    if series.length > 1 then series[series.length - 2]? else series.getLast?

/-- `_calculate_drawdown`. -/
def calculateDrawdown (bars : List (Bar T K)) (period : Option ℤ) : K :=
  let closes := (lookbackBars bars period).map (·.close)
  match maxOf closes, closes.getLast? with
  | some peak, some current => if peak = 0 then 0 else (peak - current) / peak
  | _, _ => 0

/-- `_calculate_return`. -/
def calculateReturn (bars : List (Bar T K)) (period : Option ℤ) : K :=
  if bars.length < 2 then 0
  else if period.any fun period => (bars.length : ℤ) > period then
    trailingReturn bars (period.getD 0)
  else
    match bars.head?, bars.getLast? with
    | some first, some last =>
      if first.close > 0 then (last.close - first.close) / first.close else 0
    | _, _ => 0

/-- `_calculate_volatility`. -/
def calculateVolatility (num : Numerics K) (bars : List (Bar T K)) (period : Option ℤ) :
    Option K :=
  if bars.length < 2 then some 0
  else mulN (returnVolatility num bars period) (some (num.sqrt 252))

/-- `get_metric_value`. -/
def EvaluationState.getMetricValue (num : Numerics K) (state : EvaluationState T K)
    (metric : Metric) : Option K :=
  match metric.name with
  | .drawdown => some (calculateDrawdown (state.bars metric.symbol) metric.period)
  | .ret => some (calculateReturn (state.bars metric.symbol) metric.period)
  | .volatility => calculateVolatility num (state.bars metric.symbol) metric.period

/-- `_resolve_value`, which may raise. -/
def resolveValue (num : Numerics K) (state : EvaluationState T K) : Value K → Option (Option K)
  | .numericLiteral value => some (some value)
  | .price symbol field => (state.currentBars.lookup symbol).map fun bar => some (bar.price field)
  | .indicator ind => state.getIndicatorValue num ind
  | .metric metric => some (state.getMetricValue num metric)

/-- `_get_prev_value`. -/
def getPrevValue (num : Numerics K) (state : EvaluationState T K) : Value K → Option (Option K)
  | .numericLiteral value => some (some value)
  | .price symbol field => (state.prevBars symbol).map fun bar => some (bar.price field)
  | .indicator ind => state.getPrevIndicatorValue num ind
  | .metric metric => some (state.getMetricValue num metric)

def ComparisonOperator.holds (operator : ComparisonOperator) (left right : K) : Bool :=
  match operator with
  | .gt => left > right
  | .lt => left < right
  | .ge => left ≥ right
  | .le => left ≤ right
  | .eq => left = right
  | .ne => left ≠ right

/-- `_evaluate_comparison`: false when an operand is not a number. -/
def evaluateComparison (operator : ComparisonOperator) (left right : Option K) : Bool :=
  match left, right with
  | some left, some right => operator.holds left right
  | _, _ => false

/-- `_evaluate_crossover`: false when an operand is not a number. -/
def evaluateCrossover (direction : CrossoverDirection) (fast slow fastPrev slowPrev : Option K) :
    Bool :=
  match fast, slow, fastPrev, slowPrev with
  | some fast, some slow, some fastPrev, some slowPrev =>
    match direction with
    | .above => fastPrev ≤ slowPrev ∧ fast > slow
    | .below => fastPrev ≥ slowPrev ∧ fast < slow
  | _, _, _, _ => false

mutual

/-- `evaluate_condition`, which may raise. -/
def evaluateCondition (num : Numerics K) (state : EvaluationState T K) : Condition K → Option Bool
  | .comparison operator left right => do
    return evaluateComparison operator (← resolveValue num state left)
      (← resolveValue num state right)
  | .crossover direction fast slow => do
    return evaluateCrossover direction (← resolveValue num state fast)
      (← resolveValue num state slow) (← getPrevValue num state fast)
      (← getPrevValue num state slow)
  | .logicalOp .and operands => evaluateAll num state operands
  | .logicalOp .or operands => evaluateAny num state operands
  | .logicalOp .not operands =>
    if operands.length ≠ 1 then none
    else (evaluateAll num state operands).map (!·)

/-- `all(evaluate_condition(operand, state) for operand in operands)`. -/
def evaluateAll (num : Numerics K) (state : EvaluationState T K) :
    List (Condition K) → Option Bool
  | [] => some true
  | operand :: operands => do
    if ← evaluateCondition num state operand then evaluateAll num state operands
    else return false

/-- `any(evaluate_condition(operand, state) for operand in operands)`. -/
def evaluateAny (num : Numerics K) (state : EvaluationState T K) :
    List (Condition K) → Option Bool
  | [] => some false
  | operand :: operands => do
    if ← evaluateCondition num state operand then return true
    else evaluateAny num state operands

end

/-- `evaluate_condition_safe`. -/
def evaluateConditionSafe (num : Numerics K) (state : EvaluationState T K)
    (condition : Condition K) : Bool :=
  (evaluateCondition num state condition).getD false

/-! ## Weights -/

/-- Weights by symbol. -/
abbrev Weights (K : Type) := InsertionDict (Option K)

/-- `sum(xs)`. -/
def sumN (xs : List (Option K)) : Option K := xs.foldl addN (some 0)

/-- `total <= 0`, which is false when the total is not a number. -/
def notPositive (total : Option K) : Bool := total.any (· ≤ 0)

/-- `_normalized`. -/
def normalized (weights : Weights K) : Weights K :=
  let total := sumN weights.values
  if notPositive total then []
  else weights.map fun (symbol, weight) => (symbol, divN (mulN weight (some 100)) total)

/-- The contributions of one allocation, scaled by its share. -/
def mergeInto (combined : Weights K) (allocation : Weights K) (share : K) : Weights K :=
  allocation.foldl (fun combined (symbol, weight) =>
    combined.modify (fun old => addN old (divN (mulN weight (some share)) (some 100))) (some 0)
      symbol) combined

/-- `_scaled_merge`. -/
def scaledMerge (pairs : List (Weights K × K)) : Weights K :=
  normalized (pairs.foldl (fun combined (allocation, share) => mergeInto combined allocation share)
    [])

/-- Each symbol has the same weight. -/
def equalWeights (symbols : List String) : Weights K :=
  symbols.map fun symbol => (symbol, some (100 / symbols.length))

/-- `not x < y`. -/
def notLess (x y : Option K) : Bool := !(x.any fun x => y.any fun y => x < y)

/-- `sorted(symbols, key=..., reverse=True)`. -/
def sortedByScore (score : String → Option K) (symbols : List String) : List String :=
  symbols.insertionSort fun a b => notLess (score a) (score b) = true

/-- `_compute_momentum_weights`. -/
def computeMomentumWeights (state : EvaluationState T K) (symbols : List String)
    (lookback top : Option ℤ) : Weights K :=
  let score symbol := trailingReturn (state.bars symbol) (orDefault lookback 90)
  let sorted := sortedByScore (fun symbol => some (score symbol)) symbols
  let selected := match top with
    | some top => if top ≠ 0 ∧ top < sorted.length then upToCount top sorted else sorted
    | none => sorted
  if selected.isEmpty then []
  else
    let total := (selected.map fun symbol => max (score symbol) 0).sum
    if total ≤ 0 then equalWeights selected
    else selected.map fun symbol => (symbol, some (max (score symbol) 0 / total * 100))

/-- The inverse of a symbol's volatility, if it has one. -/
def inverseVolatility (num : Numerics K) (state : EvaluationState T K) (lookback : ℤ)
    (symbol : String) : Option K :=
  if lookback ≤ (state.bars symbol).length then
    match returnVolatility num (state.bars symbol) (some lookback) with
    | some vol => if vol > 0 then some (1 / vol) else none
    | none => none
  else none

/-- `result.setdefault(symbol, 0.0)` for every symbol. -/
def withZeros (result : Weights K) (symbols : List String) : Weights K :=
  result ++ (symbols.filter (· ∉ result.keys)).map fun symbol => (symbol, some 0)

/-- `_compute_inverse_volatility_weights`. -/
def computeInverseVolatilityWeights (num : Numerics K) (state : EvaluationState T K)
    (symbols : List String) (lookback : Option ℤ) : Weights K :=
  let inverses := symbols.filterMap fun symbol =>
    (inverseVolatility num state (orDefault lookback 60) symbol).map fun x => (symbol, x)
  if inverses.isEmpty then equalWeights symbols
  else
    let total := (inverses.map Prod.snd).sum
    withZeros (inverses.map fun (symbol, x) => (symbol, some (x / total * 100))) symbols

/-- `_aligned_returns`: the symbols, and the returns of each. -/
def alignedReturns (state : EvaluationState T K) (symbols : List String) (lookback : Option ℤ) :
    Option (List String × List (Series K)) :=
  let usable := symbols.filter fun symbol => (state.bars symbol).length ≥ 3
  if usable.length < 2 then none
  else
    let shortest : ℕ := (usable.map fun symbol => (state.bars symbol).length).foldl min
      (state.bars (usable.headD "")).length
    let window : ℤ := match lookback with
      | some n => if n = 0 then shortest else min (shortest : ℤ) (n + 1)
      | none => shortest
    if window < 3 then none
    else
      let sorted := usable.insertionSort (· ≤ ·)
      some (sorted, sorted.map fun symbol => barReturns (fromEnd window (state.bars symbol)))

/-- An entry of `np.cov`. -/
def covariance (xs ys : Series K) : Option K := do
  let xs ← xs.mapM id
  let ys ← ys.mapM id
  let averageX ← mean xs
  let averageY ← mean ys
  divN (some (List.zipWith (fun x y => (x - averageX) * (y - averageY)) xs ys).sum)
    (some ((xs.length : K) - 1))

/-- `np.cov(returns, rowvar=False)`. -/
def covarianceMatrix (returns : List (Series K)) : List (Series K) :=
  returns.map fun xs => returns.map fun ys => covariance xs ys

/-- `_covariance_weights`. -/
def covarianceWeights (num : Numerics K) (state : EvaluationState T K) (symbols : List String)
    (lookback : Option ℤ) (rawWeights : List (Series K) → Option (Series K)) : Weights K :=
  let fallback := computeInverseVolatilityWeights num state symbols lookback
  match alignedReturns state symbols lookback with
  | none => fallback
  | some (sorted, returns) =>
    match rawWeights (covarianceMatrix returns) with
    | none => fallback
    | some raw =>
      let clipped := raw.map fun x => x.map fun x => max x 0
      let total := sumN clipped
      if notPositive total then fallback
      else withZeros (sorted.zip (clipped.map fun x => mulN (divN x total) (some 100))) symbols

/-- `cov @ w`, where small entries are replaced. -/
def marginalRisk (cov : List (Series K)) (w : Series K) : Series K :=
  cov.map fun row => (sumN (List.zipWith mulN row w)).map fun m =>
    if |m| < 1 / 10 ^ 12 then 1 / 10 ^ 12 else m

/-- The next weights of the fixed-point iteration. -/
def riskParityNext (cov : List (Series K)) (w : Series K) : Series K :=
  let inverses := (marginalRisk cov w).map (divN (some 1))
  inverses.map fun x => divN x (sumN inverses)

/-- `np.max(np.abs(w_next - w)) < 1e-9`. -/
def riskParityConverged (next w : Series K) : Bool :=
  ((List.zipWith subN next w).mapM id).any fun differences =>
    (maxOf (differences.map fun x => |x|)).any (· < 1 / 10 ^ 9)

/-- The loop of `_compute_risk_parity_weights`. -/
def riskParityLoop (cov : List (Series K)) : ℕ → Series K → Series K
  | 0, w => w
  | rounds + 1, w =>
    let next := riskParityNext cov w
    if riskParityConverged next w then next else riskParityLoop cov rounds next

/-- The raw weights of `_compute_risk_parity_weights`. -/
def riskParityRaw (cov : List (Series K)) : Option (Series K) :=
  some (riskParityLoop cov 500 (List.replicate cov.length (some (1 / cov.length))))

/-! ## Blocks -/

/-- `_calculate_filter_scores`. -/
def filterScore (num : Numerics K) (state : EvaluationState T K) (criterion : FilterCriteria)
    (lookback : ℤ) (symbol : String) : Option K :=
  let bars := state.bars symbol
  match criterion with
  | .momentum => some (trailingReturn bars lookback)
  | .volatility => if bars.length ≥ lookback then returnVolatility num bars (some lookback) else some 0
  | .volume => some (averageDollarVolume bars (some lookback))

/-- The symbols that a filter selects. -/
def filterSelected (num : Numerics K) (state : EvaluationState T K) (criterion : FilterCriteria)
    (direction : SelectDirection) (count : ℤ) (lookback : Option ℤ) (symbols : List String) :
    List String :=
  let sorted := sortedByScore (filterScore num state criterion (orDefault lookback 90)) symbols
  match direction with
  | .top => upToCount count sorted
  | .bottom => fromEnd count sorted

/-- `_evaluate_filter`, from the weights of its children. -/
def evaluateFilter (num : Numerics K) (state : EvaluationState T K) (criterion : FilterCriteria)
    (direction : SelectDirection) (count : ℤ) (lookback : Option ℤ) (childWeights : Weights K) :
    Weights K :=
  if childWeights.isEmpty then []
  else normalized ((filterSelected num state criterion direction count lookback
    childWeights.keys).filterMap fun symbol => (childWeights.lookup symbol).map (symbol, ·))

/-- `_evaluate_children`, from the shares and allocations of the children. -/
def evaluateSiblings (children : List (Option K × Weights K)) : Weights K :=
  let contributions := children.filter fun child => !child.2.isEmpty
  if contributions.isEmpty then []
  else if contributions.all fun child => child.1.isSome then
    scaledMerge (contributions.filterMap fun child => child.1.map (child.2, ·))
  else scaledMerge (contributions.map fun child => (child.2, 100 / contributions.length))

/-- The symbols of all allocations, in the order in which they are met. -/
def symbolUnion (children : List (Option K × Weights K)) : List String :=
  children.foldl (fun symbols child => child.2.keys.foldl (fun symbols symbol =>
    if symbol ∈ symbols then symbols else symbols ++ [symbol]) symbols) []

/-- The weights of the methods that rank individual symbols. -/
def computedWeights (num : Numerics K) (state : EvaluationState T K) (method : WeightMethod)
    (lookback top : Option ℤ) (symbols : List String) : Weights K :=
  match method with
  | .momentum => computeMomentumWeights state symbols lookback top
  | .inverseVolatility => computeInverseVolatilityWeights num state symbols lookback
  | .riskParity => covarianceWeights num state symbols lookback riskParityRaw
  | .minVariance => covarianceWeights num state symbols lookback num.pinvOnes
  | _ => equalWeights symbols

/-- `_evaluate_weight`, from the shares and allocations of the children. -/
def evaluateWeight (num : Numerics K) (state : EvaluationState T K) (method : WeightMethod)
    (lookback top : Option ℤ) (children : List (Option K × Weights K)) : Weights K :=
  match method with
  | .specified =>
    scaledMerge (children.filterMap fun child =>
      if child.2.isEmpty then none else child.1.map (child.2, ·))
  | .equal =>
    let allocations := (children.map Prod.snd).filter fun allocation => !allocation.isEmpty
    if allocations.isEmpty then []
    else scaledMerge (allocations.map fun allocation => (allocation, 100 / allocations.length))
  | method =>
    let symbols := symbolUnion children
    if symbols.isEmpty then [] else computedWeights num state method lookback top symbols

mutual

/-- `_share_and_allocation`. The allocation is that of `_evaluate_block`. -/
def shareAndAllocation (num : Numerics K) (state : EvaluationState T K) :
    Block K → Option K × Weights K
  | .strategy _ children _ => (none, evaluateSiblings (sharesAndAllocations num state children))
  | .group _ children weight =>
    (weight, evaluateSiblings (sharesAndAllocations num state children))
  | .weight method children lookback top _ =>
    (none, evaluateWeight num state method lookback top (sharesAndAllocations num state children))
  | .asset symbol weight => (weight, [(symbol, some 100)])
  | .onlyIf condition thenBlock =>
    if evaluateConditionSafe num state condition then shareAndAllocation num state thenBlock
    else (none, [])
  | .ifElse condition thenBlock elseBlock =>
    if evaluateConditionSafe num state condition then shareAndAllocation num state thenBlock
    else shareAndAllocation num state elseBlock
  | .filter criterion direction count children lookback =>
    (none, evaluateFilter num state criterion direction count lookback
      (evaluateSiblings (sharesAndAllocations num state children)))

def sharesAndAllocations (num : Numerics K) (state : EvaluationState T K) :
    List (Block K) → List (Option K × Weights K)
  | [] => []
  | block :: blocks =>
    shareAndAllocation num state block :: sharesAndAllocations num state blocks

end

/-! ## Allocations -/

structure CompiledStrategy (K : Type) where
  strategy : Strategy K
  indicators : List IndicatorSpec
  minBars : ℕ
  historyWindow : Option ℕ

/-- `CompiledStrategy.compile`. -/
def CompiledStrategy.compile (num : Numerics K) (strategy : Strategy K) : CompiledStrategy K :=
  let indicators := extractIndicators num strategy
  let minBars := max (collectLookbacks strategy (getMaxLookback indicators)).1 2
  ⟨strategy, indicators, minBars, some (computeWindow strategy minBars)⟩

/-- What a compiled strategy remembers between two ticks. -/
structure StrategyMemory (T K : Type) where
  barHistory : InsertionDict (List (Bar T K))
  lastAllocation : Weights K

/-- `Allocation`. -/
structure Allocation (K : Type) where
  weights : Weights K
  rebalanceNeeded : Bool
  metadata : InsertionDict String

namespace CompiledStrategy

/-- `has_enough_history`. -/
def hasEnoughHistory (compiled : CompiledStrategy K) (history : InsertionDict (List (Bar T K))) :
    Bool :=
  !history.isEmpty && history.all fun entry => entry.2.length ≥ compiled.minBars

/-- `compute_all_indicators` for one symbol: the results of its specs, one after the other. -/
def computeSymbolIndicators (num : Numerics K) (compiled : CompiledStrategy K)
    (computed : String → Option (Series K)) (symbol : String) (bars : List (Bar T K)) :
    Option (String → Option (Series K)) :=
  (compiled.indicators.filter (·.symbol = symbol)).foldlM (fun computed spec => do
    let results ← computeIndicator num spec bars
    return results.foldl (fun computed (key, series) =>
      Function.update computed key (some series)) computed) computed

/-- `_compute_all_indicators`. -/
def computeAllIndicators (num : Numerics K) (compiled : CompiledStrategy K)
    (history : InsertionDict (List (Bar T K))) : Option (String → Option (Series K)) :=
  history.foldlM (fun computed (symbol, bars) =>
    if bars.isEmpty then some computed
    else compiled.computeSymbolIndicators num computed symbol bars) fun _ => none

/-- `_build_state`. -/
def buildState (num : Numerics K) (compiled : CompiledStrategy K)
    (currentBars : InsertionDict (Bar T K)) (history : InsertionDict (List (Bar T K))) :
    Option (EvaluationState T K) := do
  let indicators ← compiled.computeAllIndicators num history
  return {
    currentBars
    prevBars := fun symbol => (history.lookup symbol).bind fun bars =>
      if bars.length ≥ 2 then bars[bars.length - 2]? else none
    indicators
    barHistory := history }

/-- `_normalize_weights`. -/
def normalizeWeights (weights : Weights K) : Weights K :=
  let total := sumN weights.values
  if notPositive total then weights
  else weights.map fun (symbol, weight) => (symbol, mulN (divN weight total) (some 100))

/-- `_check_rebalance_needed`. -/
def checkRebalanceNeeded (last weights : Weights K) : Bool :=
  last.isEmpty || weights.any fun (symbol, weight) =>
    (subN weight (last.getD symbol (some 0))).any fun drift => |drift| > 5

variable [DecidableEq T]

/-- `add_bars`. -/
def addBars (compiled : CompiledStrategy K) (history : InsertionDict (List (Bar T K)))
    (bars : InsertionDict (Bar T K)) : InsertionDict (List (Bar T K)) :=
  bars.foldl (fun history (symbol, bar) =>
    history.modify (fun stored => storeBar compiled.historyWindow stored bar) [] symbol) history

/-- `compute_allocation`. It is `none` when an indicator raises. -/
def computeAllocation (num : Numerics K) (compiled : CompiledStrategy K)
    (memory : StrategyMemory T K) (bars : InsertionDict (Bar T K)) :
    StrategyMemory T K × Option (Allocation K) :=
  let history := compiled.addBars memory.barHistory bars
  if !compiled.hasEnoughHistory history then
    ({ memory with barHistory := history }, some ⟨[], false, [("reason", "insufficient_history")]⟩)
  else
    match compiled.buildState num bars history with
    | none => ({ memory with barHistory := history }, none)
    | some state =>
      let weights := normalizeWeights
        (evaluateSiblings (sharesAndAllocations num state compiled.strategy.children))
      ({ barHistory := history, lastAllocation := weights },
        some ⟨weights, checkRebalanceNeeded memory.lastAllocation weights,
          [("strategy_name", compiled.strategy.name), ("rebalance_frequency",
            (compiled.strategy.rebalance.map RebalanceFrequency.text).getD "none")]⟩)

end CompiledStrategy

end Statistics

end LlamaTrade
