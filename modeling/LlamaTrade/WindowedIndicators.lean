import LlamaTrade.IndicatorLibrary
import Mathlib.Tactic.Abel

/-!
# Indicators of a window

The indicators that are computed from a window of fixed length forget the bars before it: their
last values do not change when older bars are dropped. The length is the one that
`_calculate_required_bars` gives. The recursive indicators (`ema`, `rsi`, `macd`, `atr`, `adx` and
`keltner`) and the cumulative ones do not forget.
-/

namespace LlamaTrade

variable {T K : Type} [Field K] [LinearOrder K]

/-! ## Averages -/

omit [Field K] [LinearOrder K] in
theorem sum_windowAt {R : Type} [AddCommGroup R] (xs : List R) (n i : ℕ) :
    (if i < n then cumsumAt xs i else cumsumAt xs i - cumsumAt xs (i - n)) =
      (windowAt n i xs).sum := by
  have hsplit : (xs.take (i + 1)).sum =
      (xs.take (i + 1 - n)).sum + (windowAt n i xs).sum := by
    have htake : xs.take (i + 1 - n) = (xs.take (i + 1)).take (i + 1 - n) := by
      rw [List.take_take, Nat.min_eq_left (by omega)]
    rw [htake, windowAt, List.sum_take_add_sum_drop]
  split_ifs with h
  · rw [cumsumAt, hsplit, show i + 1 - n = 0 by omega, List.take_zero, List.sum_nil, zero_add]
  · rw [cumsumAt, cumsumAt, hsplit, show i - n + 1 = i + 1 - n by omega, add_sub_cancel_left]

/-- The average of a window, if all of it are numbers. -/
def windowMean (period : ℕ) (window : Series K) : Option K :=
  if (window.map fun v => if v.isNone then (1 : ℤ) else 0).sum = 0 then
    divN (some (window.map fun v => v.getD 0).sum) (some (period : K))
  else none

omit [Field K] [LinearOrder K] in
theorem nans_eq_rolling {α : Type} (f : List α → Option K) {n : ℕ} {xs : List α}
    (h : xs.length < n) : nans K xs.length = rolling n f xs := by
  refine List.ext_getElem? fun i => ?_
  by_cases hi : i < xs.length
  · rw [rolling, getElem?_tabulate hi, if_pos (by omega), nans, List.getElem?_replicate, if_pos hi]
  · rw [List.getElem?_eq_none (by simpa [nans] using hi),
      List.getElem?_eq_none (by simpa [rolling] using hi)]

theorem sma_eq_rolling (values : Series K) (period : ℕ) :
    sma values period = rolling period (windowMean period) values := by
  by_cases hshort : values.length < period
  · rw [sma, if_pos hshort, nans_eq_rolling (windowMean period) hshort]
  · unfold sma rolling
    simp only [if_neg hshort]
    congr 1
    funext i
    rw [sum_windowAt, sum_windowAt, windowAt_map, windowAt_map]
    rfl

theorem forgets_sma (period : ℕ) : Forgets period fun values : Series K => sma values period :=
  (forgets_rolling period (windowMean period)).congr
    (fun values => by rw [sma_eq_rolling, (forgets_rolling ..).length])
    fun values i _ _ => by rw [sma_eq_rolling]

theorem Forgets.sma {α : Type} {n : ℕ} {f : List α → Series K} (h : Forgets n f) (hn : 0 < n)
    (period : ℕ) : Forgets (n + period - 1) fun xs => sma (f xs) period :=
  (h.comp_rolling hn (windowMean period)).congr
    (fun xs => by rw [sma_eq_rolling, (h.comp_rolling hn (windowMean period)).length])
    fun xs i _ _ => by rw [sma_eq_rolling]

/-! ## Indicators -/

theorem forgets_sma_close (period : ℕ) :
    Forgets period fun bars : List (Bar T K) => sma ((bars.map (·.close)).map some) period :=
  ((forgets_sma period).comp_map some).comp_map Bar.close

theorem forgets_stddev (num : Numerics K) (period : ℕ) :
    Forgets period fun bars : List (Bar T K) => stddev num (bars.map (·.close)) period := by
  have hrolling : ∀ values, stddev num values period = rolling period (std num) values := by
    intro values
    rw [stddev]
    split_ifs with hshort
    · exact nans_eq_rolling (std num) hshort
    · rfl
  simp only [hrolling]
  exact (forgets_rolling period (std num)).comp_map Bar.close

theorem forgets_bollingerBands (num : Numerics K) (period : ℕ) (mult : K) :
    Forgets period (fun bars : List (Bar T K) =>
        (bollingerBands num (bars.map (·.close)) period mult).1) ∧
      Forgets period (fun bars : List (Bar T K) =>
        (bollingerBands num (bars.map (·.close)) period mult).2.1) ∧
      Forgets period fun bars : List (Bar T K) =>
        (bollingerBands num (bars.map (·.close)) period mult).2.2 := by
  have hmiddle := forgets_sma_close (T := T) (K := K) period
  have hdeviation : Forgets period fun bars : List (Bar T K) =>
      scaleS mult (rolling period (std num) (bars.map (·.close))) :=
    ((forgets_rolling period (std num)).comp_map Bar.close).map _
  exact ⟨hmiddle.zipWith _ hdeviation, hmiddle, hmiddle.zipWith _ hdeviation⟩

theorem forgets_williamsR (period : ℕ) :
    Forgets period fun bars : List (Bar T K) => williamsR bars period := by
  have hrolling : ∀ bars : List (Bar T K), williamsR bars period = rolling period
      (rangePlace (-50) fun highest lowest close => -100 * (highest - close) / (highest - lowest))
      bars := by
    intro bars
    rw [williamsR]
    split_ifs with hshort
    · exact nans_eq_rolling _ hshort
    · rfl
  simp only [hrolling]
  exact forgets_rolling ..

omit [Field K] in
theorem forgets_donchian (period : ℕ) :
    Forgets period (fun bars : List (Bar T K) => (donchian bars period).1) ∧
      Forgets period fun bars : List (Bar T K) => (donchian bars period).2 := by
  have hrolling : ∀ bars : List (Bar T K), donchian bars period =
      (rolling period maxOf (bars.map (·.high)), rolling period minOf (bars.map (·.low))) := by
    intro bars
    rw [donchian]
    split_ifs with hshort
    · have hhigh := nans_eq_rolling maxOf
        (show (bars.map (·.high)).length < period by rwa [List.length_map])
      have hlow := nans_eq_rolling minOf
        (show (bars.map (·.low)).length < period by rwa [List.length_map])
      rw [List.length_map] at hhigh hlow
      rw [← hhigh, ← hlow]
    · rfl
  simp only [hrolling]
  exact ⟨(forgets_rolling period maxOf).comp_map Bar.high,
    (forgets_rolling period minOf).comp_map Bar.low⟩

omit [LinearOrder K] in
theorem forgets_momentum (period : ℕ) :
    Forgets (period + 1) fun bars : List (Bar T K) => momentum (bars.map (·.close)) period := by
  have hshift : Forgets (period + 1) fun values : List K =>
      tabulate values.length fun i => if i < period then none
        else subN values[i]? values[i - period]? := by
    refine forgets_tabulate fun values k i hn hi => ?_
    rw [if_neg (by omega), if_neg (by omega), List.getElem?_drop, List.getElem?_drop,
      Nat.add_comm k i, show k + (i - period) = i + k - period by omega]
  refine (hshift.congr (g := fun values => momentum values period) (fun values => ?_)
    fun values i hn hi => ?_).comp_map Bar.close
  · rw [momentum]
    split_ifs
    · simp [nans]
    · rw [length_tabulate]
  · rw [momentum, if_neg (by omega)]

theorem forgets_stochastic {k d smooth : ℕ} (hk : 0 < k) (hd : 0 < d) (hsmooth : 0 < smooth) :
    Forgets (k + smooth - 1) (fun bars : List (Bar T K) => (stochastic bars k d smooth).1) ∧
      Forgets (k + smooth - 1 + d - 1) fun bars : List (Bar T K) =>
        (stochastic bars k d smooth).2 := by
  let raw : List (Bar T K) → Series K := rolling k (rangePlace 50 fun highest lowest close =>
    100 * (close - lowest) / (highest - lowest))
  have hraw : Forgets k raw := forgets_rolling ..
  have hfast := hraw.sma hk smooth
  have hslow := hfast.sma (by omega) d
  have hlong : ∀ bars : List (Bar T K), ¬ bars.length < k →
      stochastic bars k d smooth = (sma (raw bars) smooth, sma (sma (raw bars) smooth) d) := by
    intro bars h
    rw [stochastic, if_neg h]
  constructor
  · refine hfast.congr (fun bars => ?_) fun bars i hn hi => ?_
    · by_cases hshort : bars.length < k
      · simp [stochastic, hshort, nans]
      · rw [hlong bars hshort]
        exact hfast.length bars
    · rw [hlong bars (by omega)]
  · refine hslow.congr (fun bars => ?_) fun bars i hn hi => ?_
    · by_cases hshort : bars.length < k
      · simp [stochastic, hshort, nans]
      · rw [hlong bars hshort]
        exact hslow.length bars
    · rw [hlong bars (by omega)]

theorem forgets_cci (period : ℕ) : Forgets period fun bars : List (Bar T K) => cci bars period := by
  have hsma : Forgets period fun bars : List (Bar T K) =>
      sma ((bars.map typical).map some) period :=
    ((forgets_sma period).comp_map some).comp_map typical
  refine forgets_tabulate fun bars k i hn hi => ?_
  have hat : (sma (((bars.drop k).map typical).map some) period).at i =
      (sma ((bars.map typical).map some) period).at (i + k) := by
    rw [Series.at, Series.at, hsma.drop bars k i hn hi]
  rw [if_neg (by omega), if_neg (by omega), hat, List.map_drop, windowAt_drop k _ hn,
    List.getElem?_drop, Nat.add_comm k i]

omit [LinearOrder K] in
theorem forgets_moneyFlow (moved : K → K → Bool) :
    Forgets 2 fun bars : List (Bar T K) => moneyFlow moved bars := by
  refine forgets_tabulate fun bars k i hn hi => ?_
  rw [windowAt_drop k bars hn]

theorem forgets_mfi (period : ℕ) :
    Forgets (period + 1) fun bars : List (Bar T K) => mfi bars period := by
  refine forgets_tabulate fun bars k i hn hi => ?_
  rw [if_neg (by omega), if_neg (by omega),
    (forgets_moneyFlow _).windowAt_eq (by omega) (by omega) hi,
    (forgets_moneyFlow _).windowAt_eq (by omega) (by omega) hi]

end LlamaTrade
