import LlamaTrade.DefinedSeries
import LlamaTrade.IndicatorKeys

/-!
# Warm-up

Whether the bars that `_calculate_required_bars` asks for define every output of an indicator, and
whether `compute_allocation` returns for all bars.
-/

namespace LlamaTrade

variable {T K : Type} [Field K] [LinearOrder K]

/-- The numbers by which an indicator divides at the last bar or, for `adx`, from its first
directional indicators on. -/
def IndicatorSpec.denominators (spec : IndicatorSpec) (bars : List (Bar T K)) : Series K :=
  let period := periodAt spec.indicatorType spec.params 0
  let last := bars.length - 1
  match spec.indicatorType with
  | .adx =>
    let smoothed := wilderSmooth ((trueRange bars).set 0 (some 0)) period period
    let (_, plus, minus) := adx bars period
    smoothed.drop period ++ (List.zipWith addN plus minus).drop period
  | .cci =>
    let window := windowAt period last (bars.map typical)
    [do
      let average ← (sma ((bars.map typical).map some) period).at last
      mean (window.map fun x => |x - average|)]
  | .mfi =>
    let positive := (windowAt period last (moneyFlow (fun now prev => now > prev) bars)).sum
    let negative := (windowAt period last (moneyFlow (fun now prev => now < prev) bars)).sum
    if negative = 0 then [] else [some (1 + positive / negative)]
  | .vwap => [some (cumsumAt (bars.map fun bar => (bar.volume : K)) last)]
  | _ => []

/-- Every output of an indicator is a number at the last bar. -/
def IndicatorSpec.OutputsDefined (num : Numerics K) (spec : IndicatorSpec) (bars : List (Bar T K)) :
    Prop :=
  ∃ results, computeIndicator num spec bars = some results ∧
    ∀ output ∈ results, (output.2.at (bars.length - 1)).isSome

/-- The periods that an indicator uses are at least 1, and the slow average of `macd` is not
shorter than the fast one. -/
def IndicatorName.PeriodsWarm (name : IndicatorName) (params : List Param) : Prop :=
  let period := periodAt name params
  match name with
  | .obv | .mfi | .vwap => True
  | .macd => 0 < period 0 ∧ period 0 ≤ period 1 ∧ 0 < period 2
  | .stoch => 0 < period 0 ∧ 0 < period 1 ∧ 0 < period 2
  | _ => 0 < period 0

variable {num : Numerics K} {spec : IndicatorSpec} {bars : List (Bar T K)}

/-! ## Results -/

omit [Field K] [LinearOrder K] in
theorem results_defined {base : List String} {outputs : List (String × Series K)}
    {default : Series K} {i : ℕ} (houtputs : ∀ output ∈ outputs, (output.2.at i).isSome)
    (hdefault : (default.at i).isSome) :
    ∀ output ∈ spec.results base outputs default, (output.2.at i).isSome := by
  intro output houtput
  obtain h | h := List.mem_append.mp houtput
  · obtain ⟨named, hnamed, rfl⟩ := List.mem_map.mp h
    exact houtputs named hnamed
  · rw [List.mem_singleton.mp h, IndicatorSpec.picks]
    cases hfield : spec.outputField.bind fun field => outputs.lookup field with
    | none => exact hdefault
    | some series =>
      obtain ⟨field, -, hlookup⟩ := Option.bind_eq_some_iff.mp hfield
      obtain ⟨output, houtput, rfl⟩ := List.mem_map.mp (InsertionDict.mem_values_of_lookup hlookup)
      exact houtputs output houtput

omit [Field K] [LinearOrder K] in
theorem single_defined {key : String} {series : Series K} {i : ℕ} (h : (series.at i).isSome) :
    ∀ output ∈ [(key, series)], (output.2.at i).isSome := fun _ houtput =>
  List.mem_singleton.mp houtput ▸ h

/-! ## Indicators that do not warm up -/

/-- An output that is not a number. -/
theorem not_outputsDefined {spec : IndicatorSpec} {bars : List (Bar T K)}
    {results : List (String × Series K)} {key : String} {series : Series K}
    (h : computeIndicator num spec bars = some results) (hmem : (key, series) ∈ results)
    (hnone : series.at (bars.length - 1) = none) : ¬ spec.OutputsDefined num bars := by
  rintro ⟨results', h', hall⟩
  cases h.symm.trans h'
  have hsome := hall _ hmem
  rw [hnone] at hsome
  cases hsome

omit [Field K] [LinearOrder K] in
theorem mem_results (spec : IndicatorSpec) (base : List String) (default : Series K)
    {outputs : List (String × Series K)} {name : String} {series : Series K}
    (h : (name, series) ∈ outputs) :
    ("_".intercalate (base ++ [name]), series) ∈ spec.results base outputs default :=
  List.mem_append_left _ (List.mem_map.mpr ⟨_, h, rfl⟩)

theorem meanN_nil : meanN ([] : Series K) = none := by simp [meanN, mean, divN]

/-- The signal line of `macd` before it is warm. -/
theorem macd_signal_undefined (values : List K) {fast slow signal : ℕ}
    (hcold : ¬ (0 < fast ∧ fast ≤ slow ∧ 0 < signal)) (hlength : values.length = slow + signal - 1) :
    (macd (values.map some) fast slow signal).2.1.at (values.length - 1) = none := by
  have hlineLength : (subS (ema (values.map some) fast) (ema (values.map some) slow)).length =
      values.length := by
    rw [subS, List.length_zipWith, length_ema, length_ema, List.length_map, Nat.min_self]
  have hsub : ∀ y : Option K, subN none y = none := fun y => rfl
  by_cases hempty : values.length = 0
  · exact Series.at_of_le (by simp only [macd]; rw [length_ema, hlineLength]; omega)
  · simp only [macd]
    obtain rfl | hsignal := Nat.eq_zero_or_pos signal
    · exact at_ema_zero _ _
    · obtain rfl | hfast := Nat.eq_zero_or_pos fast
      · have hline : UndefinedBelow values.length
            (subS (ema (values.map some) 0) (ema (values.map some) slow)) :=
          UndefinedBelow.zipWith_left hsub fun i _ => at_ema_zero _ i
        exact hline.ema hsignal _ (by omega)
      · have hvalues : UndefinedBelow 0 (values.map some) := fun i hi => absurd hi (Nat.not_lt_zero i)
        have hline : UndefinedBelow (0 + fast - 1)
            (subS (ema (values.map some) fast) (ema (values.map some) slow)) :=
          UndefinedBelow.zipWith_left hsub (hvalues.ema hfast)
        exact hline.ema hsignal _ (by omega)

/-- Periods that are not warm leave an output undefined, or raise, on the required bars. -/
theorem outputs_undefined (num : Numerics K) (bar : Bar T K) {spec : IndicatorSpec}
    (hcold : ¬ spec.indicatorType.PeriodsWarm spec.params) :
    let bars := List.replicate (calculateRequiredBars spec.indicatorType spec.params) bar
    some 0 ∉ spec.denominators bars ∧ ¬ spec.OutputsDefined num bars := by
  obtain ⟨name, symbol, params, key, output, required⟩ := spec
  intro bars
  have hlength : bars.length = calculateRequiredBars name params := List.length_replicate ..
  have hraises : computeIndicator num ⟨name, symbol, params, key, output, required⟩ bars = none →
      ¬ IndicatorSpec.OutputsDefined num ⟨name, symbol, params, key, output, required⟩ bars := by
    rintro h ⟨results, h', -⟩
    cases h.symm.trans h'
  cases name <;> simp only [IndicatorName.PeriodsWarm, calculateRequiredBars, not_lt,
    Nat.le_zero] at hcold hlength
  case sma | bbands | williamsR | donchian | momentum =>
    refine ⟨List.not_mem_nil, hraises ?_⟩
    simp only [computeIndicator, if_pos hcold]
  case obv | mfi | vwap => exact absurd trivial hcold
  case cci =>
    refine ⟨?_, hraises (by simp only [computeIndicator, if_pos hcold])⟩
    rw [List.length_eq_zero_iff.mp (hlength.trans hcold)]
    have hsma : Series.at (sma (([] : List (Option K))) (periodAt .cci params 0)) 0 = none :=
      Series.at_of_le (by rw [length_sma]; rfl)
    simp [IndicatorSpec.denominators, hsma]
  case ema =>
    refine ⟨List.not_mem_nil, not_outputsDefined rfl (List.mem_singleton_self _) ?_⟩
    rw [show periodAt .ema params 0 = 0 from hcold]
    exact at_ema_zero _ _
  case rsi =>
    refine ⟨List.not_mem_nil, not_outputsDefined rfl (List.mem_singleton_self _) ?_⟩
    rw [show periodAt .rsi params 0 = 0 from hcold, rsi]
    split_ifs with hshort hzero
    · exact Series.at_nans _ _
    · exact Series.at_nans _ _
    · exact absurd rfl hzero
  case macd =>
    refine ⟨List.not_mem_nil, not_outputsDefined rfl
      (mem_results _ _ _ (List.mem_cons_of_mem _ (List.mem_cons_self ..))) ?_⟩
    have h := macd_signal_undefined (bars.map (·.close)) hcold (by simpa using hlength)
    rwa [List.length_map] at h
  case atr =>
    refine ⟨List.not_mem_nil, not_outputsDefined rfl (List.mem_singleton_self _) ?_⟩
    have hzero : periodAt .atr params 0 = 0 := hcold
    have hone : bars.length = 1 := by rw [hlength, hzero]
    have hrange : (trueRange bars).length = 1 := by rw [length_trueRange, hone]
    have hempty : windowAt 0 0 (trueRange bars) = [] := by simp [windowAt]
    have hseed : (atr bars 0).at 0 = meanN (windowAt 0 0 (trueRange bars)) := by
      rw [atr, if_neg (by omega), wilderSmooth_eq (by omega), List.drop_eq_nil_of_le (by omega)]
      rfl
    rw [show periodAt .atr params 0 = 0 from hcold, hone, hseed, hempty]
    exact meanN_nil
  case adx =>
    have hnil : bars = [] := List.length_eq_zero_iff.mp (by rw [hlength, hcold])
    rw [hnil]
    have hadx : adx ([] : List (Bar T K)) (periodAt .adx params 0) = (nans K 0, nans K 0, nans K 0) :=
      if_pos (.inr hcold)
    refine ⟨?_, not_outputsDefined rfl (mem_results _ _ _ (List.mem_cons_self ..)) ?_⟩
    · simp [IndicatorSpec.denominators, hadx, wilderSmooth, trueRange, rolling, tabulate, nans]
    · rw [show periodAt .adx params 0 = 0 from hcold]
      exact Series.at_nans _ _
  case stoch =>
    refine ⟨List.not_mem_nil, ?_⟩
    by_cases hk : periodAt .stoch params 0 = 0
    · exact hraises (by simp only [computeIndicator, if_pos hk])
    · by_cases hshort : bars.length < periodAt .stoch params 0
      · unfold IndicatorSpec.OutputsDefined computeIndicator
        simp only [if_neg hk, if_pos hshort, Option.some.injEq, exists_eq_left']
        intro hall
        have hsome := hall _ (mem_results _ _ _ (List.mem_cons_self ..))
        simp [stochastic, hshort, Series.at_nans] at hsome
      · refine hraises ?_
        simp only [computeIndicator, if_neg hk, if_neg hshort]
        split_ifs with hd hsmooth
        · rfl
        · rfl
        · exact absurd ⟨Nat.pos_of_ne_zero hk, Nat.pos_of_ne_zero hd, Nat.pos_of_ne_zero hsmooth⟩ hcold
  case keltner =>
    refine ⟨List.not_mem_nil, not_outputsDefined rfl
      (mem_results _ _ _ (List.mem_cons_of_mem _ (List.mem_cons_self ..))) ?_⟩
    rw [show periodAt .keltner params 0 = 0 from hcold]
    exact at_ema_zero _ _
  case stddev =>
    refine ⟨List.not_mem_nil, not_outputsDefined rfl (List.mem_singleton_self _) ?_⟩
    rw [stddev]
    split_ifs
    · exact Series.at_nans _ _
    · exact Series.at_of_le (by rw [rolling, length_tabulate, List.length_map, hlength, hcold])

variable [IsStrictOrderedRing K]

/-! ## Indicators that warm up -/

theorem macd_defined (values : List K) {fast slow signal : ℕ} (hfast : 0 < fast)
    (hslow : fast ≤ slow) (hsignal : 0 < signal) (hlength : values.length = slow + signal - 1) :
    let (line, signalLine, histogram) := macd (values.map some) fast slow signal
    ∀ series ∈ [line, signalLine, histogram], (series.at (values.length - 1)).isSome := by
  have hvalues := definedFrom_map_some values
  have hline : DefinedFrom (slow - 1) (subS (ema (values.map some) fast) (ema (values.map some) slow)) :=
    ((hvalues.ema hfast).mono (by omega)).subS ((hvalues.ema (by omega)).mono (by omega))
  have hsignalLine := (hline.ema hsignal).mono (m := values.length - 1) (by omega)
  have hhistogram := (hline.mono (m := values.length - 1) (by omega)).subS hsignalLine
  have hlen : ∀ period, (ema (values.map some) period).length = values.length := fun period => by
    rw [length_ema, List.length_map]
  have hlineLength : (subS (ema (values.map some) fast) (ema (values.map some) slow)).length =
      values.length := by
    rw [subS, List.length_zipWith, hlen, hlen, Nat.min_self]
  have hsignalLength : (ema (subS (ema (values.map some) fast) (ema (values.map some) slow))
      signal).length = values.length := by
    rw [length_ema, hlineLength]
  simp only [macd, List.mem_cons, List.not_mem_nil, or_false, forall_eq_or_imp, forall_eq]
  refine ⟨hline _ (by omega) (by omega), hsignalLine _ le_rfl (by omega),
    hhistogram _ le_rfl ?_⟩
  rw [subS, List.length_zipWith, hlineLength, hsignalLength]
  omega

omit [LinearOrder K] [IsStrictOrderedRing K] in
theorem ne_zero_of_drop {values : Series K} {k i : ℕ} {x : K} (h : some 0 ∉ values.drop k)
    (hk : k ≤ i) (hx : values.at i = some x) : x ≠ 0 := by
  rintro rfl
  rw [Series.at_eq_some] at hx
  refine h (List.mem_of_getElem? (i := i - k) ?_)
  rw [List.getElem?_drop, Nat.add_sub_cancel' hk, hx]

omit [IsStrictOrderedRing K] in
theorem definedFrom_directionalMove (pick : K × K → K × K) (bars : List (Bar T K)) :
    DefinedFrom 0 (directionalMove pick bars) := by
  intro i _ hi
  rw [directionalMove, length_tabulate] at hi
  rw [directionalMove, Series.at_tabulate hi]
  split <;> rfl

omit [IsStrictOrderedRing K] in
theorem definedFrom_neutralized (bars : List (Bar T K)) :
    DefinedFrom 0 ((trueRange bars).set 0 (some 0)) := by
  intro i _ hi
  rw [List.length_set] at hi
  cases i with
  | zero =>
    rw [Series.at, List.getElem?_set_self hi]
    rfl
  | succ i =>
    rw [Series.at, List.getElem?_set_ne (by omega), ← Series.at]
    exact definedFrom_trueRange bars (i + 1) (by omega) hi

/-- A directional indicator, where the smoothed range is not zero. -/
theorem definedFrom_directional (pick : K × K → K × K) {bars : List (Bar T K)} {period : ℕ}
    (hperiod : 0 < period)
    (hclean : some 0 ∉ (wilderSmooth ((trueRange bars).set 0 (some 0)) period period).drop period) :
    DefinedFrom period (List.zipWith (fun dm tr => divN (mulN (some 100) dm) tr)
      (wilderSmooth (directionalMove pick bars) period period)
      (wilderSmooth ((trueRange bars).set 0 (some 0)) period period)) := by
  refine DefinedFrom.zipWith _ (fun i hi x y _ hy => isSome_divN (ne_zero_of_drop hclean hi hy)) ?_ ?_
  · exact (definedFrom_directionalMove pick bars).wilderSmooth hperiod (by omega)
  · exact (definedFrom_neutralized bars).wilderSmooth hperiod (by omega)

theorem adx_defined {bars : List (Bar T K)} {period : ℕ} (hperiod : 0 < period)
    (hlength : bars.length = 2 * period)
    (hclean : some 0 ∉ (wilderSmooth ((trueRange bars).set 0 (some 0)) period period).drop period ++
      (List.zipWith addN (adx bars period).2.1 (adx bars period).2.2).drop period) :
    ∀ series ∈ [(adx bars period).1, (adx bars period).2.1, (adx bars period).2.2],
      (series.at (bars.length - 1)).isSome := by
  have hlong : ¬ (bars.length < 2 * period ∨ period = 0) := by omega
  unfold adx at hclean ⊢
  simp only [if_neg hlong, List.mem_append, not_or] at hclean ⊢
  obtain ⟨hrange, hsum⟩ := hclean
  have hplus := definedFrom_directional id hperiod hrange
  have hminus := definedFrom_directional Prod.swap hperiod hrange
  have hdirectional : ∀ pick : K × K → K × K, (List.zipWith (fun dm tr => divN (mulN (some 100) dm) tr)
      (wilderSmooth (directionalMove pick bars) period period)
      (wilderSmooth ((trueRange bars).set 0 (some 0)) period period)).length = bars.length := by
    intro pick
    rw [List.length_zipWith, length_wilderSmooth, length_wilderSmooth, List.length_set,
      length_trueRange, directionalMove, length_tabulate, Nat.min_self]
  have hdx := DefinedFrom.zipWith (fun p m =>
      divN (mulN (some 100) ((subN p m).map fun x => |x|)) (addN p m)) (fun i hi x y hx hy => by
    refine isSome_divN (ne_zero_of_drop hsum hi ?_)
    rw [Series.at_eq_some] at hx hy ⊢
    rw [List.getElem?_zipWith, hx, hy]
    rfl) hplus hminus
  have hvalue : DefinedFrom (2 * period - 1) (wilderSmooth _ period (2 * period - 1)) :=
    hdx.wilderSmooth hperiod (by omega)
  simp only [List.mem_cons, List.not_mem_nil, or_false, forall_eq_or_imp, forall_eq]
  refine ⟨hvalue _ (by omega) ?_, hplus _ (by omega) ?_, hminus _ (by omega) ?_⟩
  · rw [length_wilderSmooth, List.length_zipWith, hdirectional, hdirectional, Nat.min_self]
    omega
  · rw [hdirectional]
    omega
  · rw [hdirectional]
    omega

theorem rsi_defined {values : List K} {period : ℕ} (hperiod : 0 < period)
    (hlength : values.length = period + 1) :
    ((rsi values period).at (values.length - 1)).isSome := by
  have hnonneg : ∀ (f : K → K) (xs : List K), (∀ x, 0 ≤ f x) →
      0 ≤ ((xs.map f).take period).sum / period := by
    intro f xs hf
    refine div_nonneg (List.sum_nonneg fun x hx => ?_) (Nat.cast_nonneg _)
    obtain ⟨y, -, rfl⟩ := List.mem_map.mp (List.mem_of_mem_take hx)
    exact hf y
  have hstrength : ∀ gain loss : K, 0 ≤ gain → 0 ≤ loss → (strength gain loss).isSome := by
    intro gain loss hgain hloss
    rw [strength]
    split_ifs with hzero
    · rfl
    · have hden : 1 + gain / loss ≠ 0 := by
        have := div_nonneg hgain hloss
        positivity
      simp [subN, divN, hden]
  unfold rsi
  simp only [if_neg (show ¬ values.length < period + 1 by omega), if_neg hperiod.ne']
  rw [Series.at, List.getElem?_append_right (by simp [nans, hlength]), nans, List.length_replicate,
    List.drop_eq_nil_of_le (by simp [hlength])]
  simp only [hlength, Nat.add_sub_cancel, Nat.sub_self, List.zip_nil_left, List.foldl_nil]
  refine hstrength _ _ (hnonneg _ _ fun x => ?_) (hnonneg _ _ fun x => ?_)
  · split_ifs with h
    · exact h.le
    · exact le_rfl
  · split_ifs with h
    · exact (neg_pos.mpr h).le
    · exact le_rfl

theorem bollingerBands_defined (num : Numerics K) (values : List K) {period : ℕ} (mult : K)
    (hperiod : 0 < period) (hlength : values.length = period) :
    ∀ series ∈ [(bollingerBands num values period mult).1,
        (bollingerBands num values period mult).2.1, (bollingerBands num values period mult).2.2],
      (series.at (values.length - 1)).isSome := by
  have hmiddle : DefinedFrom (period - 1) (sma (values.map some) period) :=
    ((definedFrom_map_some values).sma hperiod).mono (by omega)
  have hdeviation : DefinedFrom (period - 1) (scaleS mult (rolling period (std num) values)) :=
    (definedFrom_rolling_of_ne_nil hperiod fun _ h => isSome_std num h).scaleS mult
  have hupper := hmiddle.addS hdeviation
  have hlower := hmiddle.subS hdeviation
  have hlen : (sma (values.map some) period).length = values.length := by
    rw [length_sma, List.length_map]
  have hlen' : (scaleS mult (rolling period (std num) values)).length = values.length := by
    rw [scaleS, List.length_map, rolling, length_tabulate]
  simp only [bollingerBands, List.mem_cons, List.not_mem_nil, or_false, forall_eq_or_imp, forall_eq]
  refine ⟨hupper _ (by omega) ?_, hmiddle _ (by omega) (by omega), hlower _ (by omega) ?_⟩
  · rw [addS, List.length_zipWith, hlen, hlen', Nat.min_self]
    omega
  · rw [subS, List.length_zipWith, hlen, hlen', Nat.min_self]
    omega

theorem keltner_defined {bars : List (Bar T K)} {period : ℕ} (mult : K) (hperiod : 0 < period)
    (hlength : bars.length = period + 1) :
    ∀ series ∈ [(keltner bars period mult).1, (keltner bars period mult).2.1,
        (keltner bars period mult).2.2], (series.at (bars.length - 1)).isSome := by
  have hcloses : DefinedFrom 0 (bars.map fun bar => some bar.close) := by
    have h := definedFrom_map_some (bars.map (·.close))
    rwa [List.map_map] at h
  have hmiddle := (hcloses.ema hperiod).mono (m := period) (by omega)
  have hrange := (definedFrom_atr bars hperiod).scaleS mult
  have hupper := hmiddle.addS hrange
  have hlower := hmiddle.subS hrange
  have hlen : (ema (bars.map fun bar => some bar.close) period).length = bars.length := by
    rw [length_ema, List.length_map]
  have hlen' : (scaleS mult (atr bars period)).length = bars.length := by
    rw [scaleS, List.length_map, atr, if_neg (by omega), length_wilderSmooth, length_trueRange]
  simp only [keltner, List.mem_cons, List.not_mem_nil, or_false, forall_eq_or_imp, forall_eq]
  refine ⟨hupper _ (by omega) ?_, hmiddle _ (by omega) (by omega), hlower _ (by omega) ?_⟩
  · rw [addS, List.length_zipWith, hlen, hlen', Nat.min_self]
    omega
  · rw [subS, List.length_zipWith, hlen, hlen', Nat.min_self]
    omega

theorem stochastic_defined {bars : List (Bar T K)} {k d smooth : ℕ} (hk : 0 < k) (hd : 0 < d)
    (hsmooth : 0 < smooth) (hlength : bars.length = k + smooth + d - 2) :
    ∀ series ∈ [(stochastic bars k d smooth).1, (stochastic bars k d smooth).2],
      (series.at (bars.length - 1)).isSome := by
  have hraw : DefinedFrom (k - 1) (rolling k (rangePlace (T := T) 50 fun highest lowest close =>
      100 * (close - lowest) / (highest - lowest)) bars) :=
    definedFrom_rolling_of_ne_nil hk fun _ h => isSome_rangePlace _ _ h
  have hfast := hraw.sma hsmooth
  have hslow := hfast.sma hd
  unfold stochastic
  rw [if_neg (by omega)]
  simp only [List.mem_cons, List.not_mem_nil, or_false, forall_eq_or_imp, forall_eq]
  refine ⟨hfast _ (by omega) ?_, hslow _ (by omega) ?_⟩
  · rw [length_sma, rolling, length_tabulate]
    omega
  · rw [length_sma, length_sma, rolling, length_tabulate]
    omega

theorem cci_defined {bars : List (Bar T K)} {period : ℕ} (hperiod : 0 < period)
    (hlength : bars.length = period)
    (hclean : (do
      let average ← (sma ((bars.map typical).map some) period).at (bars.length - 1)
      mean ((windowAt period (bars.length - 1) (bars.map typical)).map fun x => |x - average|)) ≠
        some 0) : ((cci bars period).at (bars.length - 1)).isSome := by
  have hsma := (definedFrom_map_some (bars.map typical)).sma hperiod
  obtain ⟨average, haverage⟩ := Option.isSome_iff_exists.mp
    (hsma (bars.length - 1) (by omega) (by
      rw [length_sma, List.length_map, List.length_map]
      omega))
  have hlast : bars.length - 1 < (bars.map typical).length := by
    rw [List.length_map]
    omega
  have hwindow := windowAt_ne_nil hperiod (by omega) hlast
  obtain ⟨deviation, hdeviation⟩ := Option.isSome_iff_exists.mp (isSome_mean
    (show (windowAt period (bars.length - 1) (bars.map typical)).map (fun x => |x - average|) ≠ []
      by simpa using hwindow))
  rw [haverage] at hclean
  have hne : deviation ≠ 0 := by
    rintro rfl
    exact hclean hdeviation
  unfold cci
  simp only
  rw [Series.at_tabulate (by omega), if_neg (by omega), haverage]
  simp only [Option.bind_eq_bind, Option.bind_some, hdeviation]
  rw [List.getElem?_eq_getElem hlast, Option.bind_some]
  exact isSome_divN (mul_ne_zero (by norm_num) hne)

omit [IsStrictOrderedRing K] in
theorem mfi_defined {bars : List (Bar T K)} {period : ℕ} (hlength : bars.length = period + 1)
    (hclean : ∀ positive negative,
      positive = (windowAt period (bars.length - 1)
        (moneyFlow (fun now prev => now > prev) bars)).sum →
      negative = (windowAt period (bars.length - 1)
        (moneyFlow (fun now prev => now < prev) bars)).sum →
      negative ≠ 0 → 1 + positive / negative ≠ 0) :
    ((mfi bars period).at (bars.length - 1)).isSome := by
  unfold mfi
  simp only
  rw [Series.at_tabulate (by omega), if_neg (by omega), strength]
  split_ifs with hzero
  · rfl
  · simp [subN, divN, hclean _ _ rfl rfl hzero]

omit [IsStrictOrderedRing K] in
theorem williamsR_defined {bars : List (Bar T K)} {period : ℕ} (hperiod : 0 < period)
    (hlength : bars.length = period) : ((williamsR bars period).at (bars.length - 1)).isSome := by
  rw [williamsR, if_neg (by omega)]
  refine definedFrom_rolling_of_ne_nil hperiod (fun _ h => isSome_rangePlace _ _ h) _ (by omega) ?_
  rw [rolling, length_tabulate]
  omega

omit [Field K] [IsStrictOrderedRing K] in
theorem donchian_defined {bars : List (Bar T K)} {period : ℕ} (hperiod : 0 < period)
    (hlength : bars.length = period) :
    ∀ series ∈ [(donchian bars period).1, (donchian bars period).2],
      (series.at (bars.length - 1)).isSome := by
  rw [donchian, if_neg (by omega)]
  simp only [List.mem_cons, List.not_mem_nil, or_false, forall_eq_or_imp, forall_eq]
  refine ⟨definedFrom_rolling_of_ne_nil hperiod (fun _ h => isSome_maxOf h) _ (by omega) ?_,
    definedFrom_rolling_of_ne_nil hperiod (fun _ h => isSome_minOf h) _ (by omega) ?_⟩
  · rw [rolling, length_tabulate, List.length_map]
    omega
  · rw [rolling, length_tabulate, List.length_map]
    omega

theorem stddev_defined (num : Numerics K) {values : List K} {period : ℕ} (hperiod : 0 < period)
    (hlength : values.length = period) :
    ((stddev num values period).at (values.length - 1)).isSome := by
  rw [stddev, if_neg (by omega)]
  refine definedFrom_rolling_of_ne_nil hperiod (fun _ h => isSome_std num h) _ (by omega) ?_
  rw [rolling, length_tabulate]
  omega

omit [LinearOrder K] [IsStrictOrderedRing K] in
theorem momentum_defined {values : List K} {period : ℕ} (hlength : values.length = period + 1) :
    ((momentum values period).at (values.length - 1)).isSome := by
  rw [momentum, if_neg (by omega), Series.at_tabulate (by omega), if_neg (by omega),
    List.getElem?_eq_getElem (by omega), List.getElem?_eq_getElem (by omega)]
  rfl

omit [Field K] [LinearOrder K] [IsStrictOrderedRing K] in
theorem mem_outputs (names : List String) {series : List (Series K)} {i : ℕ}
    (h : ∀ s ∈ series, (s.at i).isSome) : ∀ output ∈ names.zip series, (output.2.at i).isSome :=
  fun _ houtput => h _ (List.of_mem_zip houtput).2

/-- Warm periods define every output on the required bars. -/
theorem outputs_defined (num : Numerics K) {spec : IndicatorSpec} {bars : List (Bar T K)}
    (hwarm : spec.indicatorType.PeriodsWarm spec.params)
    (hlength : bars.length = calculateRequiredBars spec.indicatorType spec.params)
    (hclean : some 0 ∉ spec.denominators bars) : spec.OutputsDefined num bars := by
  obtain ⟨name, symbol, params, key, output, required⟩ := spec
  have hcloses : (bars.map (·.close)).length = bars.length := List.length_map ..
  have hsome : (((bars.map (·.close)).map some) : Series K).length = bars.length := by simp
  unfold IndicatorSpec.OutputsDefined computeIndicator
  cases name <;> simp only [IndicatorName.PeriodsWarm, calculateRequiredBars] at hwarm hlength
  case sma =>
    simp only [if_neg hwarm.ne', Option.some.injEq, exists_eq_left']
    exact single_defined ((definedFrom_map_some _).sma hwarm _ (by omega)
      (by rw [length_sma, hsome]; omega))
  case ema =>
    simp only [Option.some.injEq, exists_eq_left']
    exact single_defined ((definedFrom_map_some _).ema hwarm _ (by omega)
      (by rw [length_ema, hsome]; omega))
  case rsi =>
    simp only [Option.some.injEq, exists_eq_left']
    exact single_defined (hcloses ▸ rsi_defined hwarm (by omega))
  case macd =>
    simp only [Option.some.injEq, exists_eq_left']
    have hall := macd_defined (bars.map (·.close)) hwarm.1 hwarm.2.1 hwarm.2.2 (by omega)
    rw [hcloses] at hall
    exact results_defined (mem_outputs ["line", "signal", "histogram"] hall)
      (hall _ (List.mem_cons_self ..))
  case bbands =>
    simp only [if_neg hwarm.ne', Option.some.injEq, exists_eq_left']
    have hall := bollingerBands_defined num (bars.map (·.close)) (paramAt .bbands params 1) hwarm
      (by omega)
    rw [hcloses] at hall
    exact results_defined (mem_outputs ["upper", "middle", "lower"] hall)
      (hall _ (List.mem_cons_of_mem _ (List.mem_cons_self ..)))
  case atr =>
    simp only [Option.some.injEq, exists_eq_left']
    refine single_defined (definedFrom_atr bars hwarm _ (by omega) ?_)
    rw [atr, if_neg (by omega), length_wilderSmooth, length_trueRange]
    omega
  case adx =>
    simp only [Option.some.injEq, exists_eq_left']
    have hall := adx_defined hwarm hlength hclean
    exact results_defined (mem_outputs ["value", "plus_di", "minus_di"] hall)
      (hall _ (List.mem_cons_self ..))
  case stoch =>
    simp only [if_neg hwarm.1.ne', if_neg hwarm.2.1.ne', if_neg hwarm.2.2.ne', ite_self,
      Option.some.injEq, exists_eq_left']
    have hall := stochastic_defined hwarm.1 hwarm.2.1 hwarm.2.2 hlength
    exact results_defined (mem_outputs ["k", "d"] hall) (hall _ (List.mem_cons_self ..))
  case cci =>
    simp only [if_neg hwarm.ne', Option.some.injEq, exists_eq_left']
    refine single_defined (cci_defined hwarm hlength fun hzero => hclean ?_)
    exact List.mem_singleton.mpr hzero.symm
  case williamsR =>
    simp only [if_neg hwarm.ne', Option.some.injEq, exists_eq_left']
    exact single_defined (williamsR_defined hwarm hlength)
  case obv =>
    simp only [Option.some.injEq, exists_eq_left']
    obtain ⟨bar, rfl⟩ := List.length_eq_one_iff.mp hlength
    exact single_defined rfl
  case mfi =>
    simp only [Option.some.injEq, exists_eq_left']
    refine single_defined (mfi_defined hlength ?_)
    rintro positive negative rfl rfl hne hzero
    refine hclean ?_
    simp only [IndicatorSpec.denominators, if_neg hne]
    exact List.mem_singleton.mpr (congrArg some hzero.symm)
  case vwap =>
    simp only [Option.some.injEq, exists_eq_left']
    refine single_defined ?_
    unfold vwap
    simp only
    rw [Series.at_tabulate (by omega)]
    refine isSome_divN fun hzero => hclean ?_
    exact List.mem_singleton.mpr (congrArg some hzero.symm)
  case keltner =>
    simp only [Option.some.injEq, exists_eq_left']
    have hall := keltner_defined (paramAt .keltner params 1) hwarm hlength
    exact results_defined (mem_outputs ["upper", "middle", "lower"] hall)
      (hall _ (List.mem_cons_of_mem _ (List.mem_cons_self ..)))
  case donchian =>
    simp only [if_neg hwarm.ne', Option.some.injEq, exists_eq_left']
    have hall := donchian_defined hwarm hlength
    exact results_defined (mem_outputs ["upper", "lower"] hall) (hall _ (List.mem_cons_self ..))
  case stddev =>
    simp only [Option.some.injEq, exists_eq_left']
    exact single_defined (hcloses ▸ stddev_defined num hwarm (by omega))
  case momentum =>
    simp only [if_neg hwarm.ne', Option.some.injEq, exists_eq_left']
    exact single_defined (hcloses ▸ momentum_defined (by omega))

/-! ## Strategies -/

theorem PeriodsWarm.periodsDefined {spec : IndicatorSpec}
    (h : spec.indicatorType.PeriodsWarm spec.params) : spec.PeriodsDefined := by
  obtain ⟨name, symbol, params, key, output, required⟩ := spec
  cases name with
  | stoch =>
    intro i hi
    obtain ⟨hk, hd, hsmooth⟩ := h
    interval_cases i
    · exact hk.ne'
    · exact hd.ne'
    · exact hsmooth.ne'
  | sma | bbands | cci | williamsR | donchian | momentum =>
    exact Nat.pos_iff_ne_zero.mp h
  | ema | rsi | macd | atr | adx | obv | mfi | vwap | keltner | stddev => exact trivial

/-- **Warm-up.** The required bars define every output of every indicator reference of a strategy,
where no denominator is zero, and `compute_allocation` returns for all bars, exactly when all
periods that the indicators use are at least 1 and no `macd` has a slow average that is shorter
than the fast one. -/
theorem warm_up_covers_iff [Inhabited T] [DecidableEq T] (num : Numerics K)
    (strategy : Strategy K) :
    ((∀ ind ∈ strategy.references, ∀ bars : List (Bar T K),
        bars.length = calculateRequiredBars ind.name ind.params →
        some 0 ∉ (ind.spec num).denominators bars → (ind.spec num).OutputsDefined num bars) ∧
      ∀ (memory : StrategyMemory T K) (bars : InsertionDict (Bar T K)),
        ((CompiledStrategy.compile num strategy).computeAllocation num memory bars).2 ≠ none) ↔
    ∀ ind ∈ strategy.references, ind.name.PeriodsWarm ind.params := by
  constructor
  · rintro ⟨hdefined, -⟩ ind hind
    by_contra hcold
    obtain ⟨hclean, hundefined⟩ := outputs_undefined num (⟨default, 0, 0, 0, 0, 0⟩ : Bar T K)
      (show ¬ (ind.spec num).indicatorType.PeriodsWarm (ind.spec num).params from hcold)
    exact hundefined (hdefined ind hind _ (List.length_replicate ..) hclean)
  · intro hwarm
    refine ⟨fun ind hind bars hlength hclean => outputs_defined num (hwarm ind hind) hlength hclean,
      fun memory bars hnone => ?_⟩
    have hperiods : ∀ spec ∈ (CompiledStrategy.compile num strategy).indicators,
        spec.PeriodsDefined := by
      intro spec hspec
      obtain ⟨ind, hind, rfl⟩ := exists_reference_of_spec num hspec
      exact PeriodsWarm.periodsDefined (hwarm ind hind)
    obtain ⟨state, hstate, -⟩ := buildState_isSome hperiods bars
      ((CompiledStrategy.compile num strategy).addBars memory.barHistory bars)
    unfold CompiledStrategy.computeAllocation at hnone
    dsimp only at hnone
    rw [hstate] at hnone
    split_ifs at hnone

/-- Relative strengths over two weeks. -/
theorem warm_up_covers_iff_strengths :
    let strategy := Sample.strengthSwitch (Sample.strengthOf "SPY") (Sample.strengthOf "TLT")
    (∀ ind ∈ strategy.references, ∀ bars : List (Bar ℕ ℚ),
        bars.length = calculateRequiredBars ind.name ind.params →
        some 0 ∉ (ind.spec Sample.numerics).denominators bars →
        (ind.spec Sample.numerics).OutputsDefined Sample.numerics bars) ∧
      ∀ (memory : StrategyMemory ℕ ℚ) (bars : InsertionDict (Bar ℕ ℚ)),
        ((CompiledStrategy.compile Sample.numerics strategy).computeAllocation Sample.numerics memory
          bars).2 ≠ none := by
  refine (warm_up_covers_iff Sample.numerics _).mpr ?_
  rw [references_strengthSwitch]
  intro ind hind
  obtain ⟨symbol, rfl⟩ : ∃ symbol, ind = Sample.strengthOf symbol := by
    obtain rfl | hind := List.mem_cons.mp hind
    · exact ⟨_, rfl⟩
    · exact ⟨_, List.mem_singleton.mp hind⟩
  show 0 < periodAt .rsi [.int 14] 0
  decide

namespace Sample

/-- Half a day. -/
def half : ℚ := ⟨1, 2, Nat.succ_ne_zero 1, Nat.coprime_one_left 2⟩

/-- The mean price of half a day. -/
def halfDay : Indicator := ⟨.sma, "SPY", [.float half], none, none⟩

/-- The mean price of two days. -/
def twoDays : Indicator := ⟨.sma, "SPY", [.int 2], none, none⟩

end Sample

/-- A validated strategy raises on every tick that has enough history. -/
theorem period_below_one_raises :
    let strategy := Sample.strengthSwitch Sample.halfDay Sample.twoDays
    validateStrategy Sample.numerics strategy = [] ∧
      ((CompiledStrategy.compile Sample.numerics strategy).computeAllocation Sample.numerics
        ⟨[("SPY", [Sample.flatBar 1 50])], []⟩ [("SPY", Sample.flatBar 2 51)]).2 = none := by
  exact ⟨by decide, by rfl⟩

end LlamaTrade
