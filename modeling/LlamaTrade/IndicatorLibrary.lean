import LlamaTrade.BarFeeds
import LlamaTrade.RollingWindows
import LlamaTrade.StrategyTree
import Mathlib.Algebra.BigOperators.Group.List.Basic

/-!
# Indicator library

The indicators of the runtime over the retained bars of a symbol, with exact arithmetic. A value
that is not a number is `none`, and so is a quotient by zero. Every indicator returns one value
for each bar.
-/

namespace LlamaTrade

/-- The values of an indicator, one for each bar. -/
abbrev Series (K : Type) := List (Option K)

/-- The value at an index. -/
def Series.at {K : Type} (values : Series K) (i : ℕ) : Option K := values[i]?.join

/-- `np.full(n, np.nan)`. -/
def nans (K : Type) (n : ℕ) : Series K := List.replicate n none

section Library

variable {T K : Type} [Field K] [LinearOrder K]

/-- The sum of two numbers. -/
def addN (a b : Option K) : Option K := do return (← a) + (← b)

def subN (a b : Option K) : Option K := do return (← a) - (← b)

def mulN (a b : Option K) : Option K := do return (← a) * (← b)

/-- A quotient by zero is not a number. -/
def divN (a b : Option K) : Option K := do
  let x ← a
  let y ← b
  if y = 0 then none else some (x / y)

/-- `np.mean`. -/
def mean (xs : List K) : Option K := divN (some xs.sum) (some (xs.length : K))

/-- `np.mean` of values that may not be numbers. -/
def meanN (xs : Series K) : Option K := (xs.mapM id).bind mean

/-- `np.std(xs, ddof=0)`. -/
def std (num : Numerics K) (xs : List K) : Option K := do
  let average ← mean xs
  let variance ← mean (xs.map fun x => (x - average) * (x - average))
  return num.sqrt variance

/-- `np.max`. -/
def maxOf : List K → Option K
  | [] => none
  | x :: xs => some (xs.foldl max x)

/-- `np.min`. -/
def minOf : List K → Option K
  | [] => none
  | x :: xs => some (xs.foldl min x)

/-- `np.cumsum(xs)[i]`. -/
def cumsumAt {R : Type} [AddMonoid R] (xs : List R) (i : ℕ) : R := (xs.take (i + 1)).sum

/-- `_sma`. -/
def sma (values : Series K) (period : ℕ) : Series K :=
  let n := values.length
  if n < period then nans K n
  else
    let clean := values.map fun v => v.getD 0
    let missing := values.map fun v => if v.isNone then 1 else 0
    tabulate n fun i =>
      let winSum := if i < period then cumsumAt clean i
        else cumsumAt clean i - cumsumAt clean (i - period)
      let winNan : ℤ := if i < period then cumsumAt missing i
        else cumsumAt missing i - cumsumAt missing (i - period)
      if i + 1 < period then none
      else if winNan = 0 then divN (some winSum) (some (period : K)) else none

/-- The next value of `_ema`. It is seeded, and seeded again after a value that is not a number,
with the mean of the first window of numbers. -/
def emaNext (values : Series K) (period : ℕ) (result : Series K) (i : ℕ) : Option K :=
  match values.at i, result.getLast?.join with
  | none, _ => none
  | some _, none => if i + 1 < period then none else meanN (windowAt period i values)
  | some v, some prev => some ((v - prev) * (2 / (period + 1)) + prev)

/-- `_ema`. -/
def ema (values : Series K) (period : ℕ) : Series K :=
  if values.length < period then nans K values.length
  else (List.range values.length).foldl
    (fun result i => result ++ [emaNext values period result i]) []

/-- The strength of average gains and losses. -/
def strength (gain loss : K) : Option K :=
  if loss = 0 then some 100
  else subN (some 100) (divN (some 100) (some (1 + gain / loss)))

/-- `_rsi`. -/
def rsi (values : List K) (period : ℕ) : Series K :=
  if values.length < period + 1 then nans K values.length
  else if period = 0 then nans K values.length
  else
    let deltas := List.zipWith (fun next prev => next - prev) values.tail values
    let gains := deltas.map fun d => if d > 0 then d else 0
    let losses := deltas.map fun d => if d < 0 then -d else 0
    let gain := (gains.take period).sum / period
    let loss := (losses.take period).sum / period
    let smoothed := ((gains.drop period).zip (losses.drop period)).foldl
      (fun (result : Series K × K × K) (g, l) =>
        let gain := (result.2.1 * (period - 1) + g) / period
        let loss := (result.2.2 * (period - 1) + l) / period
        (result.1 ++ [strength gain loss], gain, loss)) ([strength gain loss], gain, loss)
    nans K period ++ smoothed.1

/-- The difference of two series. -/
def subS (xs ys : Series K) : Series K := List.zipWith subN xs ys

def addS (xs ys : Series K) : Series K := List.zipWith addN xs ys

/-- A series times a number. -/
def scaleS (c : K) (xs : Series K) : Series K := xs.map (mulN (some c))

/-- `_macd`: line, signal, histogram. -/
def macd (values : Series K) (fast slow signal : ℕ) : Series K × Series K × Series K :=
  let line := subS (ema values fast) (ema values slow)
  let signalLine := ema line signal
  (line, signalLine, subS line signalLine)

/-- `_bollinger_bands`: upper, middle, lower. -/
def bollingerBands (num : Numerics K) (values : List K) (period : ℕ) (stdMult : K) :
    Series K × Series K × Series K :=
  let middle := sma (values.map some) period
  let deviation := rolling period (std num) values
  (addS middle (scaleS stdMult deviation), middle, subS middle (scaleS stdMult deviation))

/-- `_true_range`. -/
def trueRange (bars : List (Bar T K)) : Series K :=
  rolling 2 (fun
    | [prev, bar] => some (max (max (bar.high - bar.low) |bar.high - prev.close|)
        |bar.low - prev.close|)
    | _ => none) bars

/-- `_wilder_smooth`. -/
def wilderSmooth (values : Series K) (period start : ℕ) : Series K :=
  if start ≥ values.length then nans K values.length
  else nans K start ++ (values.drop (start + 1)).foldl
    (fun (out : Series K) v =>
      out ++ [divN (addN (mulN out.getLast?.join (some ((period : K) - 1))) v) (some (period : K))])
    [meanN (windowAt period start values)]

/-- `_atr`. -/
def atr (bars : List (Bar T K)) (period : ℕ) : Series K :=
  if bars.length < period + 1 then nans K bars.length
  else wilderSmooth (trueRange bars) period period

/-- The directional movement of each bar, from its up and down moves. -/
def directionalMove (pick : K × K → K × K) (bars : List (Bar T K)) : Series K :=
  tabulate bars.length fun i =>
    match windowAt 2 i bars with
    | [prev, bar] =>
      let (move, other) := pick (bar.high - prev.high, prev.low - bar.low)
      some (if move > other ∧ move > 0 then move else 0)
    | _ => some 0

/-- `_adx`: the average, plus and minus directional indicators. -/
def adx (bars : List (Bar T K)) (period : ℕ) : Series K × Series K × Series K :=
  let n := bars.length
  if n < 2 * period ∨ period = 0 then (nans K n, nans K n, nans K n)
  else
    let plusDm := directionalMove id bars
    let minusDm := directionalMove Prod.swap bars
    let range := (trueRange bars).set 0 (some 0)
    let smoothed := wilderSmooth range period period
    let plus := List.zipWith (fun dm tr => divN (mulN (some 100) dm) tr)
      (wilderSmooth plusDm period period) smoothed
    let minus := List.zipWith (fun dm tr => divN (mulN (some 100) dm) tr)
      (wilderSmooth minusDm period period) smoothed
    let dx := List.zipWith (fun p m =>
      divN (mulN (some 100) ((subN p m).map fun x => |x|)) (addN p m)) plus minus
    (wilderSmooth dx period (2 * period - 1), plus, minus)

/-- The place of the last close between the lowest low and the highest high of a window. -/
def rangePlace (flat : K) (place : K → K → K → K) (window : List (Bar T K)) : Option K := do
  let highest ← maxOf (window.map (·.high))
  let lowest ← minOf (window.map (·.low))
  let bar ← window.getLast?
  return if highest ≠ lowest then place highest lowest bar.close else flat

/-- `_stochastic`: %K, %D. -/
def stochastic (bars : List (Bar T K)) (kPeriod dPeriod smooth : ℕ) : Series K × Series K :=
  if bars.length < kPeriod then (nans K bars.length, nans K bars.length)
  else
    let rawK := rolling kPeriod (rangePlace 50 fun highest lowest close =>
      100 * (close - lowest) / (highest - lowest)) bars
    let k := sma rawK smooth
    (k, sma k dPeriod)

/-- The typical price. -/
def typical (bar : Bar T K) : K := (bar.high + bar.low + bar.close) / 3

/-- `_cci`. -/
def cci (bars : List (Bar T K)) (period : ℕ) : Series K :=
  let tp := bars.map typical
  let tpSma := sma (tp.map some) period
  tabulate bars.length fun i =>
    if i + 1 < period then none
    else do
      let average ← tpSma.at i
      let deviation ← mean ((windowAt period i tp).map fun x => |x - average|)
      let last ← tp[i]?
      divN (some (last - average)) (some (15 / 1000 * deviation))

/-- `_williams_r`. -/
def williamsR (bars : List (Bar T K)) (period : ℕ) : Series K :=
  if bars.length < period then nans K bars.length
  else rolling period (rangePlace (-50) fun highest lowest close =>
    -100 * (highest - close) / (highest - lowest)) bars

/-- `_obv`. -/
def obv (bars : List (Bar T K)) : Series K :=
  (List.range bars.length).foldl (fun result i =>
    match windowAt 2 i bars, result.getLast?.join with
    | [prev, bar], some total =>
      result ++ [some (if bar.close > prev.close then total + bar.volume
        else if bar.close < prev.close then total - bar.volume else total)]
    | window, _ => result ++ [window.getLast?.map fun bar => (bar.volume : K)]) []

/-- The money flow of a bar whose typical price moved in a direction. -/
def moneyFlow (moved : K → K → Bool) (bars : List (Bar T K)) : List K :=
  (List.range bars.length).map fun i =>
    match windowAt 2 i bars with
    | [prev, bar] => if moved (typical bar) (typical prev) then typical bar * bar.volume else 0
    | _ => 0

/-- `_mfi`. -/
def mfi (bars : List (Bar T K)) (period : ℕ) : Series K :=
  let positive := moneyFlow (fun now prev => now > prev) bars
  let negative := moneyFlow (fun now prev => now < prev) bars
  tabulate bars.length fun i =>
    if i < period then none
    else strength (windowAt period i positive).sum (windowAt period i negative).sum

/-- `_vwap`. -/
def vwap (bars : List (Bar T K)) : Series K :=
  let flow := bars.map fun bar => typical bar * (bar.volume : K)
  let volume := bars.map fun bar => (bar.volume : K)
  tabulate bars.length fun i => divN (some (cumsumAt flow i)) (some (cumsumAt volume i))

/-- `_keltner`: upper, middle, lower. -/
def keltner (bars : List (Bar T K)) (period : ℕ) (atrMult : K) : Series K × Series K × Series K :=
  let middle := ema (bars.map fun bar => some bar.close) period
  let range := atr bars period
  (addS middle (scaleS atrMult range), middle, subS middle (scaleS atrMult range))

/-- `_donchian`: upper, lower. -/
def donchian (bars : List (Bar T K)) (period : ℕ) : Series K × Series K :=
  if bars.length < period then (nans K bars.length, nans K bars.length)
  else (rolling period maxOf (bars.map (·.high)), rolling period minOf (bars.map (·.low)))

/-- `_stddev`. -/
def stddev (num : Numerics K) (values : List K) (period : ℕ) : Series K :=
  if values.length < period then nans K values.length
  else rolling period (std num) values

/-- `_momentum`. -/
def momentum (values : List K) (period : ℕ) : Series K :=
  if values.length < period + 1 then nans K values.length
  else tabulate values.length fun i =>
    if i < period then none else subN values[i]? values[i - period]?

/-- A parameter of an indicator as a number. -/
def paramAt (name : IndicatorName) (params : List Param) (index : ℕ) : K :=
  (((paddedParams name params)[index]?.map Param.value).getD 0 : ℚ)

/-- The output that a spec asks for. -/
def IndicatorSpec.picks (spec : IndicatorSpec) (outputs : List (String × Series K))
    (default : Series K) : Series K :=
  (spec.outputField.bind fun field => outputs.lookup field).getD default

/-- The values of an indicator under the keys of `compute_indicator`: all outputs under their base
key, and the one asked for under the key of the spec. -/
def IndicatorSpec.results (spec : IndicatorSpec) (base : List String)
    (outputs : List (String × Series K)) (default : Series K) : List (String × Series K) :=
  outputs.map (fun output => ("_".intercalate (base ++ [output.1]), output.2)) ++
    [(spec.outputKey, spec.picks outputs default)]

/-- `compute_indicator`. A period of 0, which a parameter below 1 gives, makes `numpy` raise where
a window is summed or searched; on too few bars `_stochastic` returns before it sums. -/
def computeIndicator (num : Numerics K) (spec : IndicatorSpec) (bars : List (Bar T K)) :
    Option (List (String × Series K)) :=
  let period := periodAt spec.indicatorType spec.params
  let mult : K := paramAt spec.indicatorType spec.params 1
  let closes := bars.map (·.close)
  let single (value : Series K) := some [(spec.outputKey, value)]
  let base := [spec.indicatorType.text, spec.symbol, "close"]
  let ifPositive (n : ℕ) (results : Option (List (String × Series K))) :=
    if n = 0 then none else results
  match spec.indicatorType with
  | .sma => ifPositive (period 0) (single (sma (closes.map some) (period 0)))
  | .ema => single (ema (closes.map some) (period 0))
  | .rsi => single (rsi closes (period 0))
  | .macd =>
    let (line, signal, histogram) := macd (closes.map some) (period 0) (period 1) (period 2)
    some (spec.results (base ++ [toString (period 0), toString (period 1), toString (period 2)])
      [("line", line), ("signal", signal), ("histogram", histogram)] line)
  | .bbands =>
    let (upper, middle, lower) := bollingerBands num closes (period 0) mult
    ifPositive (period 0) (some (spec.results (base ++ [toString (period 0), num.text mult])
      [("upper", upper), ("middle", middle), ("lower", lower)] middle))
  | .atr => single (atr bars (period 0))
  | .adx =>
    let (value, plus, minus) := adx bars (period 0)
    some (spec.results (base ++ [toString (period 0)])
      [("value", value), ("plus_di", plus), ("minus_di", minus)] value)
  | .stoch =>
    let (k, d) := stochastic bars (period 0) (period 1) (period 2)
    let results := some (spec.results
      (base ++ [toString (period 0), toString (period 1), toString (period 2)])
      [("k", k), ("d", d)] k)
    ifPositive (period 0) (if bars.length < period 0 then results
      else ifPositive (period 1) (ifPositive (period 2) results))
  | .cci => ifPositive (period 0) (single (cci bars (period 0)))
  | .williamsR => ifPositive (period 0) (single (williamsR bars (period 0)))
  | .obv => single (obv bars)
  | .mfi => single (mfi bars (period 0))
  | .vwap => single (vwap bars)
  | .keltner =>
    let (upper, middle, lower) := keltner bars (period 0) mult
    some (spec.results (base ++ [toString (period 0), num.text mult])
      [("upper", upper), ("middle", middle), ("lower", lower)] middle)
  | .donchian =>
    let (upper, lower) := donchian bars (period 0)
    ifPositive (period 0) (some (spec.results (base ++ [toString (period 0)])
      [("upper", upper), ("lower", lower)] upper))
  | .stddev => single (stddev num closes (period 0))
  | .momentum => ifPositive (period 0) (single (momentum closes (period 0)))

end Library

end LlamaTrade
