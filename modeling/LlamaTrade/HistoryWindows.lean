import LlamaTrade.CompiledStrategy
import LlamaTrade.WindowedIndicators

/-!
# History windows

A compiled strategy keeps the last bars of each symbol only. Its allocations are those of a strategy
that keeps all bars, as long as every value that it reads comes from the window: recursive
indicators, and the covariances of a block without a lookback, read everything there is.
-/

namespace LlamaTrade

variable {T K : Type}

/-! ## The last bars of a history -/

section LastBars

variable {window : ℕ} {bars : List (Bar T K)}

theorem lastBars_eq_self (h : bars.length ≤ window) : lastBars window bars = bars := by
  rw [lastBars, show bars.length - window = 0 by omega, List.drop_zero]

theorem length_lastBars : (lastBars window bars).length = min bars.length window := by
  rw [lastBars, List.length_drop]
  omega

/-- The bars counted from the end. -/
theorem getElem?_lastBars (bars : List (Bar T K)) {j : ℕ} (hj : j < window)
    (hlen : j < bars.length) :
    (lastBars window bars)[(lastBars window bars).length - 1 - j]? = bars[bars.length - 1 - j]? := by
  rw [length_lastBars, lastBars, List.getElem?_drop]
  congr 1
  omega

theorem getLast?_lastBars (h : 0 < window) : (lastBars window bars).getLast? = bars.getLast? := by
  cases hbars : bars with
  | nil => simp [lastBars]
  | cons bar rest =>
    have hlen : 0 < bars.length := by simp [hbars]
    rw [← hbars, List.getLast?_eq_getElem?, List.getLast?_eq_getElem?]
    exact getElem?_lastBars bars h hlen

theorem isEmpty_lastBars (h : 0 < window) : (lastBars window bars).isEmpty = bars.isEmpty := by
  rw [Bool.eq_iff_iff, List.isEmpty_iff, List.isEmpty_iff, ← List.length_eq_zero_iff,
    ← List.length_eq_zero_iff, length_lastBars]
  omega

theorem fromEnd_lastBars {n : ℤ} (hn : 0 < n) (h : n ≤ window) :
    fromEnd n (lastBars window bars) = fromEnd n bars := by
  rw [fromEnd, fromEnd, if_pos hn, if_pos hn, length_lastBars, lastBars, List.drop_drop]
  congr 1
  omega

theorem lookbackBars_lastBars {n : ℤ} (hn : 0 < n) (h : n ≤ window) :
    lookbackBars (lastBars window bars) (some n) = lookbackBars bars (some n) := by
  rw [lookbackBars, lookbackBars, if_neg hn.ne', if_neg hn.ne', fromEnd_lastBars hn h]

/-- A bar is stored in the same way with and without a window. -/
theorem addBar_lastBars [DecidableEq T] (h : 0 < window) (stored : List (Bar T K)) (bar : Bar T K) :
    addBar window (lastBars window stored) bar = lastBars window (storeBar none stored bar) := by
  rw [storeBar]
  split_ifs with hsame
  · rw [addBar, getLast?_lastBars h, if_pos hsame]
    cases hstored : stored using List.reverseRecOn with
    | nil => simp [hstored] at hsame
    | append_singleton slots old =>
      rw [lastBars_concat h, List.dropLast_concat, List.dropLast_concat, lastBars_concat h]
  · rw [addBar, getLast?_lastBars h, if_neg hsame, trimHistory_lastBars h]

end LastBars

/-- The last value of a series and the one before it, as conditions read them. -/
def lastValues (series : Series K) : Option (Option K) × Option (Option K) :=
  (series.getLast?, if series.length > 1 then series[series.length - 2]? else series.getLast?)

/-! ## Statistics -/

section Statistics

variable [Field K] [LinearOrder K] {window : ℕ} {bars : List (Bar T K)} {num : Numerics K}

theorem trailingReturn_lastBars {lookback : ℤ} (h : lookback + 1 ≤ window) :
    trailingReturn (lastBars window bars) lookback = trailingReturn bars lookback := by
  rw [trailingReturn, trailingReturn]
  by_cases hshort : lookback < 1 ∨ (bars.length : ℤ) < lookback + 1
  · rw [if_pos hshort, if_pos]
    rw [length_lastBars]
    omega
  · have hshort' : ¬ (lookback < 1 ∨ ((lastBars window bars).length : ℤ) < lookback + 1) := by
      rw [length_lastBars]
      omega
    have hfirst := getElem?_lastBars bars (show lookback.toNat < window by omega) (by omega)
    rw [if_neg hshort, if_neg hshort', getLast?_lastBars (by omega),
      show (lastBars window bars).length - (lookback + 1).toNat =
        (lastBars window bars).length - 1 - lookback.toNat by omega, hfirst,
      show bars.length - 1 - lookback.toNat = bars.length - (lookback + 1).toNat by omega]

theorem returnVolatility_lastBars {n : ℤ} (hn : 0 < n) (h : n ≤ window) :
    returnVolatility num (lastBars window bars) (some n) = returnVolatility num bars (some n) := by
  rw [returnVolatility, returnVolatility, lookbackBars_lastBars hn h]

omit [LinearOrder K] in
theorem averageDollarVolume_lastBars {n : ℤ} (hn : 0 < n) (h : n ≤ window) :
    averageDollarVolume (lastBars window bars) (some n) = averageDollarVolume bars (some n) := by
  rw [averageDollarVolume, averageDollarVolume, lookbackBars_lastBars hn h]

theorem calculateReturn_lastBars {n : ℤ} (hn : 0 < n) (h : n + 1 ≤ window) :
    calculateReturn (lastBars window bars) (some n) = calculateReturn bars (some n) := by
  by_cases hlong : bars.length ≤ window
  · rw [lastBars_eq_self hlong]
  · have hlength : (lastBars window bars).length = window := by
      rw [length_lastBars]
      omega
    have hperiod : ∀ bars' : List (Bar T K), n < bars'.length → 2 ≤ bars'.length →
        calculateReturn bars' (some n) = trailingReturn bars' n := by
      intro bars' hmore htwo
      rw [calculateReturn, if_neg (by omega), if_pos]
      · rfl
      · simpa using hmore
    rw [hperiod _ (by omega) (by omega), hperiod bars (by omega) (by omega),
      trailingReturn_lastBars h]

/-- A metric of a period that fits in the window. -/
theorem getMetricValue_lastBars {metric : Metric} {state state' : EvaluationState T K} {n : ℤ}
    (hbars : state'.bars metric.symbol = lastBars window (state.bars metric.symbol))
    (hperiod : metric.period = some n) (hn : 0 < n) (hwindow : 2 ≤ window)
    (h : n ≤ window) (hret : metric.name = .ret → n + 1 ≤ window) :
    state'.getMetricValue num metric = state.getMetricValue num metric := by
  rw [EvaluationState.getMetricValue, EvaluationState.getMetricValue, hbars, hperiod]
  cases hname : metric.name with
  | drawdown => simp only [calculateDrawdown, lookbackBars_lastBars hn h]
  | ret => simp only [calculateReturn_lastBars hn (hret hname)]
  | volatility =>
    simp only [calculateVolatility, returnVolatility_lastBars hn h, length_lastBars]
    congr 1
    simp only [eq_iff_iff]
    omega

/-- The states of two strategies, of which one keeps the last bars only. -/
structure StatesAgree (window : ℕ) (state' state : EvaluationState T K) : Prop where
  currentBars : state'.currentBars = state.currentBars
  prevBars : state'.prevBars = state.prevBars
  bars : ∀ symbol, state'.bars symbol = lastBars window (state.bars symbol)
  indicators : ∀ key, (state'.indicators key).map lastValues = (state.indicators key).map lastValues

theorem foldl_min_lastBars (window : ℕ) (lengths : List ℕ) (n : ℕ) :
    (lengths.map fun m => min m window).foldl min (min n window) =
      min (lengths.foldl min n) window := by
  induction lengths generalizing n with
  | nil => rfl
  | cons m lengths ih =>
    rw [List.map_cons, List.foldl_cons, List.foldl_cons, ← ih (min n m)]
    congr 1
    omega

theorem alignedReturns_agree {state state' : EvaluationState T K} (symbols : List String)
    {n : ℤ} (hbars : ∀ symbol, state'.bars symbol = lastBars window (state.bars symbol))
    (hwindow : 3 ≤ window) (hn : 0 < n) (h : n + 1 ≤ window) :
    alignedReturns state' symbols (some n) = alignedReturns state symbols (some n) := by
  have hlength : ∀ symbol, (state'.bars symbol).length = min (state.bars symbol).length window := by
    intro symbol
    rw [hbars, length_lastBars]
  have husable : (fun symbol => decide ((state'.bars symbol).length ≥ 3)) =
      fun symbol => decide ((state.bars symbol).length ≥ 3) := by
    funext symbol
    rw [hlength, decide_eq_decide]
    omega
  unfold alignedReturns
  rw [husable]
  extract_lets usable shortest' span' sorted shortest span
  have hshortest : shortest' = min shortest window := by
    have hmap : usable.map (fun symbol => (state'.bars symbol).length) =
        (usable.map fun symbol => (state.bars symbol).length).map fun m => min m window := by
      rw [List.map_map]
      exact List.map_congr_left fun symbol _ => hlength symbol
    simp only [shortest', shortest]
    rw [hmap, hlength, foldl_min_lastBars]
  have hspan : span' = span := by
    simp only [span', span, if_neg hn.ne', hshortest]
    omega
  rw [hspan]
  split_ifs with hfew hshort
  · rfl
  · rfl
  · have hle : span ≤ window := by
      simp only [span, if_neg hn.ne']
      omega
    congr 2
    refine List.map_congr_left fun symbol _ => ?_
    rw [hbars, fromEnd_lastBars (by omega) hle]

end Statistics

/-! ## Conditions -/

/-- The reads are bounded, by a number of bars. -/
def ReadsWithin (needed : ℕ) (reads : List ℕ × Bool) : Prop :=
  reads.2 = false ∧ ∀ n ∈ reads.1, n ≤ needed

theorem readsWithin_both {needed : ℕ} {a b : List ℕ × Bool} :
    ReadsWithin needed (bothReads a b) ↔ ReadsWithin needed a ∧ ReadsWithin needed b := by
  simp only [ReadsWithin, bothReads, Bool.or_eq_false_iff, List.mem_append, or_imp, forall_and]
  exact and_and_and_comm

section Conditions

variable [Field K] [LinearOrder K] {num : Numerics K} {window needed : ℕ}
  {state state' : EvaluationState T K}

omit [LinearOrder K] in
theorem StatesAgree.indicatorSeries (h : StatesAgree window state' state) (ind : Indicator) :
    (state'.indicatorSeries num ind).map lastValues =
      (state.indicatorSeries num ind).map lastValues := by
  have hkey := h.indicators (generateOutputKey num ind.name ind.symbol ind.params ind.output)
  have hbase := h.indicators (generateOutputKey num ind.name ind.symbol ind.params none)
  rw [EvaluationState.indicatorSeries, EvaluationState.indicatorSeries]
  cases hleft : state'.indicators
      (generateOutputKey num ind.name ind.symbol ind.params ind.output) with
  | none =>
    cases hright : state.indicators
        (generateOutputKey num ind.name ind.symbol ind.params ind.output) with
    | none => exact hbase
    | some series => simp [hleft, hright] at hkey
  | some series' =>
    cases hright : state.indicators
        (generateOutputKey num ind.name ind.symbol ind.params ind.output) with
    | none => simp [hleft, hright] at hkey
    | some series => rwa [hleft, hright] at hkey

omit [Field K] [LinearOrder K] in
/-- The values that are read of a series. -/
theorem bind_lastValues {series' series : Option (Series K)}
    (h : series'.map lastValues = series.map lastValues) :
    series'.bind List.getLast? = series.bind List.getLast? ∧
      (series'.bind fun series =>
          if series.length > 1 then series[series.length - 2]? else series.getLast?) =
        series.bind fun series =>
          if series.length > 1 then series[series.length - 2]? else series.getLast? := by
  cases series' with
  | none =>
    cases series with
    | none => exact ⟨rfl, rfl⟩
    | some series => cases h
  | some series' =>
    cases series with
    | none => cases h
    | some series =>
      have hvalues := Option.some.inj h
      exact ⟨congrArg Prod.fst hvalues, congrArg Prod.snd hvalues⟩

theorem metric_agree (h : StatesAgree window state' state) {metric : Metric} {path : String}
    (hvalid : validateValue num path (.metric metric) = [])
    (hreads : ReadsWithin needed (walkValue (.metric metric : Value K)))
    (hwindow : needed + 2 ≤ window) :
    state'.getMetricValue num metric = state.getMetricValue num metric := by
  cases hperiod : metric.period with
  | none =>
    have hunbounded := hreads.1
    simp [walkValue, hperiod] at hunbounded
  | some n =>
    have hn : 0 < n := by
      simp only [validateValue, hperiod, List.append_eq_nil_iff, errorIf_eq_nil] at hvalid
      simpa using hvalid.2
    have hbound := hreads.2 (if metric.name = .ret then n + 1 else n).toNat
      (by simp [walkValue, hperiod])
    refine getMetricValue_lastBars (h.bars _) hperiod hn (by omega) ?_ ?_
    · split_ifs at hbound
      · omega
      · omega
    · intro hret
      rw [if_pos hret] at hbound
      omega

theorem value_agree (h : StatesAgree window state' state) {value : Value K} {path : String}
    (hvalid : validateValue num path value = []) (hreads : ReadsWithin needed (walkValue value))
    (hwindow : needed + 2 ≤ window) :
    resolveValue num state' value = resolveValue num state value ∧
      getPrevValue num state' value = getPrevValue num state value := by
  cases value with
  | numericLiteral x => exact ⟨rfl, rfl⟩
  | price symbol field =>
    simp only [resolveValue, getPrevValue, h.currentBars, h.prevBars, and_self]
  | indicator ind => exact bind_lastValues (h.indicatorSeries ind)
  | metric metric =>
    simp only [resolveValue, getPrevValue, metric_agree h hvalid hreads hwindow, and_self]

mutual

theorem condition_agree (h : StatesAgree window state' state) (hwindow : needed + 2 ≤ window) :
    (condition : Condition K) → (path : String) → validateCondition num path condition = [] →
      ReadsWithin needed (walkCondition condition) →
        evaluateCondition num state' condition = evaluateCondition num state condition
  | .comparison operator left right, path, hvalid, hreads => by
    simp only [validateCondition, List.append_eq_nil_iff] at hvalid
    rw [walkCondition, readsWithin_both] at hreads
    rw [evaluateCondition, evaluateCondition, (value_agree h hvalid.1 hreads.1 hwindow).1,
      (value_agree h hvalid.2 hreads.2 hwindow).1]
  | .crossover direction fast slow, path, hvalid, hreads => by
    simp only [validateCondition, List.append_eq_nil_iff] at hvalid
    rw [walkCondition, readsWithin_both] at hreads
    have hfast := value_agree h hvalid.1.2 hreads.1 hwindow
    have hslow := value_agree h hvalid.2 hreads.2 hwindow
    rw [evaluateCondition, evaluateCondition, hfast.1, hfast.2, hslow.1, hslow.2]
  | .logicalOp operator operands, path, hvalid, hreads => by
    simp only [validateCondition, List.append_eq_nil_iff] at hvalid
    rw [walkCondition] at hreads
    obtain ⟨hall, hany⟩ := operands_agree h hwindow operands path 0 hvalid.2 hreads
    cases operator with
    | and => rw [evaluateCondition, evaluateCondition, hall]
    | or => rw [evaluateCondition, evaluateCondition, hany]
    | not => rw [evaluateCondition, evaluateCondition, hall]

theorem operands_agree (h : StatesAgree window state' state) (hwindow : needed + 2 ≤ window) :
    (operands : List (Condition K)) → (path : String) → (i : ℕ) →
      validateOperands num path i operands = [] → ReadsWithin needed (walkOperands operands) →
        evaluateAll num state' operands = evaluateAll num state operands ∧
          evaluateAny num state' operands = evaluateAny num state operands
  | [], _, _, _, _ => by simp only [evaluateAll, evaluateAny, and_self]
  | operand :: operands, path, i, hvalid, hreads => by
    rw [validateOperands, List.append_eq_nil_iff] at hvalid
    rw [walkOperands, readsWithin_both] at hreads
    have hfirst := condition_agree h hwindow operand _ hvalid.1 hreads.1
    obtain ⟨hall, hany⟩ := operands_agree h hwindow operands path (i + 1) hvalid.2 hreads.2
    simp only [evaluateAll, evaluateAny, hfirst, hall, hany, and_self]

end

end Conditions

/-! ## Blocks -/

mutual

/-- A block weighs by covariances and has no lookback. -/
def readsAllReturns : Block K → Bool
  | .strategy _ children _ => anyReadsAllReturns children
  | .group _ children _ => anyReadsAllReturns children
  | .weight method children lookback .. =>
    ((method = .riskParity ∨ method = .minVariance) ∧ lookback = none) ||
      anyReadsAllReturns children
  | .asset .. => false
  | .onlyIf _ thenBlock => readsAllReturns thenBlock
  | .ifElse _ thenBlock elseBlock => readsAllReturns thenBlock || readsAllReturns elseBlock
  | .filter _ _ _ children _ => anyReadsAllReturns children

def anyReadsAllReturns : List (Block K) → Bool
  | [] => false
  | block :: blocks => readsAllReturns block || anyReadsAllReturns blocks

end

section Blocks

variable [Field K] [LinearOrder K] {num : Numerics K} {window needed : ℕ}
  {state state' : EvaluationState T K}

theorem covarianceWeights_agree {symbols : List String} {lookback : Option ℤ}
    (hinverse : computeInverseVolatilityWeights num state' symbols lookback =
      computeInverseVolatilityWeights num state symbols lookback)
    (haligned : alignedReturns state' symbols lookback = alignedReturns state symbols lookback)
    (rawWeights : List (Series K) → Option (Series K)) :
    covarianceWeights num state' symbols lookback rawWeights =
      covarianceWeights num state symbols lookback rawWeights := by
  simp only [covarianceWeights, hinverse, haligned]

theorem inverseWeights_agree (h : StatesAgree window state' state) (symbols : List String)
    {lookback : Option ℤ} (hpos : 0 < orDefault lookback 60)
    (hwindow : orDefault lookback 60 ≤ window) :
    computeInverseVolatilityWeights num state' symbols lookback =
      computeInverseVolatilityWeights num state symbols lookback := by
  have hone : inverseVolatility num state' (orDefault lookback 60) =
      inverseVolatility num state (orDefault lookback 60) := by
    funext symbol
    simp only [inverseVolatility, h.bars, returnVolatility_lastBars hpos hwindow, length_lastBars]
    congr 1
    simp only [eq_iff_iff]
    omega
  simp only [computeInverseVolatilityWeights, hone]

theorem momentumWeights_agree (h : StatesAgree window state' state) (symbols : List String)
    {lookback : Option ℤ} (top : Option ℤ) (hwindow : orDefault lookback 90 + 1 ≤ window) :
    computeMomentumWeights state' symbols lookback top =
      computeMomentumWeights state symbols lookback top := by
  have hscore : ∀ symbol, trailingReturn (state'.bars symbol) (orDefault lookback 90) =
      trailingReturn (state.bars symbol) (orDefault lookback 90) := by
    intro symbol
    rw [h.bars, trailingReturn_lastBars hwindow]
  simp only [computeMomentumWeights, hscore]

theorem filterSelected_agree (num : Numerics K) (h : StatesAgree window state' state)
    (criterion : FilterCriteria)
    (direction : SelectDirection) (count : ℤ) {lookback : Option ℤ} (symbols : List String)
    (hpos : 0 < orDefault lookback 90) (hwindow : orDefault lookback 90 + 1 ≤ window) :
    filterSelected num state' criterion direction count lookback symbols =
      filterSelected num state criterion direction count lookback symbols := by
  have hwindow' : orDefault lookback 90 ≤ window := by omega
  have hscore : filterScore num state' criterion (orDefault lookback 90) =
      filterScore num state criterion (orDefault lookback 90) := by
    funext symbol
    cases criterion with
    | momentum => simp only [filterScore, h.bars, trailingReturn_lastBars hwindow]
    | volatility =>
      simp only [filterScore, h.bars, returnVolatility_lastBars hpos hwindow', length_lastBars]
      congr 1
      simp only [eq_iff_iff]
      omega
    | volume => simp only [filterScore, h.bars, averageDollarVolume_lastBars hpos hwindow']
  simp only [filterSelected, hscore]

theorem orDefault_pos {lookback : Option ℤ} {n : ℤ} (hn : 0 < n)
    (h : lookback.any (· ≤ 0) = false) : 0 < orDefault lookback n := by
  cases lookback with
  | none => exact hn
  | some m =>
    have hm : 0 < m := by simpa using h
    rwa [orDefault, if_neg hm.ne']

theorem computedWeights_agree (num : Numerics K) (h : StatesAgree window state' state)
    {method : WeightMethod} {lookback : Option ℤ} (top : Option ℤ) (symbols : List String)
    (hlookback : method ∈ [.momentum, .inverseVolatility, .minVariance, .riskParity] →
      lookback.any (· ≤ 0) = false)
    (hreads : ∀ n ∈ weightLookback method lookback, n ≤ needed) (hwindow : needed + 10 ≤ window)
    (hall : method = .riskParity ∨ method = .minVariance → lookback = none →
      ∀ symbol, (state.bars symbol).length ≤ window) :
    computedWeights num state' method lookback top symbols =
      computedWeights num state method lookback top symbols := by
  have haligned : method = .riskParity ∨ method = .minVariance →
      lookback.any (· ≤ 0) = false → orDefault lookback 60 ≤ needed →
        alignedReturns state' symbols lookback = alignedReturns state symbols lookback := by
    intro hmethod hpos hle
    cases lookback with
    | none =>
      have hsame : ∀ symbol, state'.bars symbol = state.bars symbol := by
        intro symbol
        rw [h.bars, lastBars_eq_self (hall hmethod rfl symbol)]
      simp only [alignedReturns, hsame]
    | some n =>
      have hn : 0 < n := by simpa using hpos
      rw [orDefault, if_neg hn.ne'] at hle
      exact alignedReturns_agree symbols h.bars (by omega) hn (by omega)
  cases method with
  | momentum =>
    have hbound := hreads _ (List.mem_singleton_self _)
    exact momentumWeights_agree h symbols top (by omega)
  | inverseVolatility =>
    have hbound := hreads _ (List.mem_singleton_self _)
    exact inverseWeights_agree h symbols (orDefault_pos (by decide) (hlookback (by simp)))
      (by omega)
  | riskParity =>
    have hbound := hreads _ (List.mem_singleton_self _)
    have hpos := hlookback (by simp)
    exact covarianceWeights_agree
      (inverseWeights_agree h symbols (orDefault_pos (by decide) hpos) (by omega))
      (haligned (by simp) hpos (by omega)) riskParityRaw
  | minVariance =>
    have hbound := hreads _ (List.mem_singleton_self _)
    have hpos := hlookback (by simp)
    exact covarianceWeights_agree
      (inverseWeights_agree h symbols (orDefault_pos (by decide) hpos) (by omega))
      (haligned (by simp) hpos (by omega)) num.pinvOnes
  | specified | equal | marketCap => rfl

theorem evaluateWeight_agree (h : StatesAgree window state' state) {method : WeightMethod}
    {lookback top : Option ℤ} (children : List (Option K × Weights K))
    (hlookback : method ∈ [.momentum, .inverseVolatility, .minVariance, .riskParity] →
      lookback.any (· ≤ 0) = false)
    (hreads : ∀ n ∈ weightLookback method lookback, n ≤ needed) (hwindow : needed + 10 ≤ window)
    (hall : method = .riskParity ∨ method = .minVariance → lookback = none →
      ∀ symbol, (state.bars symbol).length ≤ window) :
    evaluateWeight num state' method lookback top children =
      evaluateWeight num state method lookback top children := by
  have hsame := fun symbols : List String =>
    computedWeights_agree num h top symbols hlookback hreads hwindow hall
  cases method with
  | specified | equal => rfl
  | momentum | inverseVolatility | riskParity | minVariance | marketCap =>
    simp only [evaluateWeight, hsame]

theorem checkWeight_lookback {path : String} {method : WeightMethod} {blocks : List (Block K)}
    {lookback top : Option ℤ} {location : Option SourceLocation}
    (h : checkWeight num path method blocks lookback top location = [])
    (hmethod : method ∈ [.momentum, .inverseVolatility, .minVariance, .riskParity]) :
    lookback.any (· ≤ 0) = false := by
  unfold checkWeight at h
  simp only [List.append_eq_nil_iff, errorIf_eq_nil, errorAt_eq_nil] at h
  have hchecked := h.1.1.2
  simp only [hmethod, true_and, decide_eq_false_iff_not] at hchecked
  simpa using hchecked

omit [Field K] [LinearOrder K] in
theorem checkFilter_lookback {path : String} {count : ℤ} {blocks : List (Block K)}
    {lookback : Option ℤ} (h : checkFilter path count blocks lookback = []) :
    lookback.any (· ≤ 0) = false := by
  unfold checkFilter at h
  simp only [List.append_eq_nil_iff, errorIf_eq_nil] at h
  exact h.1.1.2

mutual

/-- A block is evaluated in the same way over the last bars. -/
theorem block_agree (h : StatesAgree window state' state) (hwindow : needed + 10 ≤ window) :
    (block : Block K) → (path : String) → validateBlock num path block = [] →
      ReadsWithin needed (walkBlock block) →
        (readsAllReturns block = true → ∀ symbol, (state.bars symbol).length ≤ window) →
          shareAndAllocation num state' block = shareAndAllocation num state block
  | .strategy .., path, hvalid, _, _ => by simp [validateBlock] at hvalid
  | .group name children weight, path, hvalid, hreads, hall => by
    simp only [validateBlock, List.append_eq_nil_iff] at hvalid
    rw [walkBlock] at hreads
    rw [readsAllReturns] at hall
    rw [shareAndAllocation, shareAndAllocation,
      blocks_agree h hwindow children path 0 hvalid.1.2 hreads hall]
  | .weight method children lookback top location, path, hvalid, hreads, hall => by
    simp only [validateBlock, List.append_eq_nil_iff] at hvalid
    rw [walkBlock, readsWithin_both] at hreads
    simp only [readsAllReturns, Bool.or_eq_true, decide_eq_true_eq] at hall
    rw [shareAndAllocation, shareAndAllocation,
      blocks_agree h hwindow children path 0 hvalid.2 hreads.2 fun hsome => hall (.inr hsome),
      evaluateWeight_agree h _ (checkWeight_lookback hvalid.1) hreads.1.2 hwindow
        fun hmethod hnone => hall (.inl ⟨hmethod, hnone⟩)]
  | .asset symbol weight, path, _, _, _ => by rw [shareAndAllocation, shareAndAllocation]
  | .onlyIf condition thenBlock, path, hvalid, _, _ => by simp [validateBlock] at hvalid
  | .ifElse condition thenBlock elseBlock, path, hvalid, hreads, hall => by
    simp only [validateBlock, List.append_eq_nil_iff] at hvalid
    rw [walkBlock, readsWithin_both, readsWithin_both] at hreads
    rw [readsAllReturns, Bool.or_eq_true] at hall
    have hcondition := condition_agree h (by omega) condition _ hvalid.1.1 hreads.1.1
    rw [shareAndAllocation, shareAndAllocation, evaluateConditionSafe, evaluateConditionSafe,
      hcondition, block_agree h hwindow thenBlock _ hvalid.1.2 hreads.1.2 fun hsome =>
        hall (.inl hsome), block_agree h hwindow elseBlock _ hvalid.2 hreads.2 fun hsome =>
        hall (.inr hsome)]
  | .filter criterion direction count children lookback, path, hvalid, hreads, hall => by
    simp only [validateBlock, List.append_eq_nil_iff] at hvalid
    rw [walkBlock, readsWithin_both] at hreads
    rw [readsAllReturns] at hall
    have hbound := hreads.1.2 _ (List.mem_singleton_self _)
    have hpos : 0 < orDefault lookback 90 :=
      orDefault_pos (by decide) (checkFilter_lookback hvalid.1)
    have hselected := fun symbols : List String => filterSelected_agree num h criterion direction
      count symbols hpos (by omega)
    rw [shareAndAllocation, shareAndAllocation,
      blocks_agree h hwindow children path 0 hvalid.2 hreads.2 hall]
    simp only [evaluateFilter, hselected]

theorem blocks_agree (h : StatesAgree window state' state) (hwindow : needed + 10 ≤ window) :
    (blocks : List (Block K)) → (path : String) → (i : ℕ) →
      validateBlocks num path i blocks = [] → ReadsWithin needed (walkChildren blocks) →
        (anyReadsAllReturns blocks = true → ∀ symbol, (state.bars symbol).length ≤ window) →
          sharesAndAllocations num state' blocks = sharesAndAllocations num state blocks
  | [], _, _, _, _, _ => by rw [sharesAndAllocations, sharesAndAllocations]
  | block :: blocks, path, i, hvalid, hreads, hall => by
    rw [validateBlocks, List.append_eq_nil_iff] at hvalid
    rw [walkChildren, readsWithin_both] at hreads
    rw [anyReadsAllReturns, Bool.or_eq_true] at hall
    rw [sharesAndAllocations, sharesAndAllocations,
      block_agree h hwindow block _ hvalid.1 hreads.1 fun hsome => hall (.inl hsome),
      blocks_agree h hwindow blocks path (i + 1) hvalid.2 hreads.2 fun hsome => hall (.inr hsome)]

end

end Blocks

end LlamaTrade
