import LlamaTrade.WindowedIndicators
import Mathlib.Algebra.Order.Field.Basic

/-!
# Where a series is defined

The index from which on the values of a series are numbers, and how the functions of the
indicator library move it.
-/

namespace LlamaTrade

variable {T K : Type}

/-- The values from an index on are numbers. -/
def DefinedFrom (k : ℕ) (values : Series K) : Prop :=
  ∀ i, k ≤ i → i < values.length → (values.at i).isSome

/-- The values below an index are not numbers. -/
def UndefinedBelow (k : ℕ) (values : Series K) : Prop := ∀ i < k, values.at i = none

theorem Series.at_eq_some {values : Series K} {i : ℕ} {x : K} :
    values.at i = some x ↔ values[i]? = some (some x) := by
  rw [Series.at]
  cases values[i]? <;> simp

theorem Series.at_of_le {values : Series K} {i : ℕ} (h : values.length ≤ i) :
    values.at i = none := by
  rw [Series.at, List.getElem?_eq_none h]
  rfl

theorem Series.at_tabulate {n i : ℕ} {f : ℕ → Option K} (h : i < n) :
    Series.at (tabulate n f) i = f i := by
  rw [Series.at, getElem?_tabulate h]
  rfl

theorem Series.at_nans (n i : ℕ) : (nans K n).at i = none := by
  rw [Series.at, nans, List.getElem?_replicate]
  split_ifs <;> rfl

theorem definedFrom_map_some (xs : List K) : DefinedFrom 0 (xs.map some) := by
  intro i _ hi
  rw [Series.at, List.getElem?_map, List.getElem?_eq_getElem (by simpa using hi)]
  rfl

theorem DefinedFrom.mono {k m : ℕ} {values : Series K} (h : DefinedFrom k values) (hkm : k ≤ m) :
    DefinedFrom m values := fun i hi => h i (by omega)

/-- A binary operation is defined where both of its arguments are. -/
theorem DefinedFrom.zipWith (op : Option K → Option K → Option K) {k : ℕ} {xs ys : Series K}
    (hop : ∀ i, k ≤ i → ∀ x y, xs.at i = some x → ys.at i = some y →
      (op (some x) (some y)).isSome) (hxs : DefinedFrom k xs) (hys : DefinedFrom k ys) :
    DefinedFrom k (List.zipWith op xs ys) := by
  intro i hk hi
  rw [List.length_zipWith, Nat.lt_min] at hi
  obtain ⟨x, hx⟩ := Option.isSome_iff_exists.mp (hxs i hk hi.1)
  obtain ⟨y, hy⟩ := Option.isSome_iff_exists.mp (hys i hk hi.2)
  have hop := hop i hk x y hx hy
  rw [Series.at_eq_some] at hx hy
  rw [Series.at, List.getElem?_zipWith, hx, hy]
  simpa using hop

/-- A binary operation is undefined where its first argument is. -/
theorem UndefinedBelow.zipWith_left {op : Option K → Option K → Option K} {k : ℕ}
    {xs ys : Series K} (hop : ∀ y, op none y = none) (h : UndefinedBelow k xs) :
    UndefinedBelow k (List.zipWith op xs ys) := by
  intro i hi
  have hx := h i hi
  rw [Series.at] at hx
  rw [Series.at, List.getElem?_zipWith]
  cases hxs : xs[i]? with
  | none => rfl
  | some x =>
    rw [hxs] at hx
    cases hys : ys[i]? with
    | none => rfl
    | some y =>
      have hnone : x = none := hx
      simp [hnone, hop]

theorem length_windowAt {α : Type} {n i : ℕ} {xs : List α} (hn : n ≤ i + 1) (hi : i < xs.length) :
    (windowAt n i xs).length = n := by
  rw [windowAt, List.length_drop, List.length_take]
  omega

/-- The elements of a window are those of the series from its begin on. -/
theorem mem_windowAt {α : Type} {n i : ℕ} {xs : List α} {x : α} (hn : n ≤ i + 1)
    (h : x ∈ windowAt n i xs) : ∃ j, i + 1 - n ≤ j ∧ j ≤ i ∧ xs[j]? = some x := by
  obtain ⟨j, hj⟩ := List.mem_iff_getElem?.mp h
  by_cases hlt : j < n
  · rw [getElem?_windowAt xs hn hlt] at hj
    exact ⟨i + 1 - n + j, by omega, by omega, hj⟩
  · rw [getElem?_windowAt_ge xs hn (by omega)] at hj
    cases hj

theorem DefinedFrom.window {k n i : ℕ} {values : Series K} (h : DefinedFrom k values)
    (hn : n ≤ i + 1) (hk : k + n ≤ i + 1) (hi : i < values.length) :
    ∀ v ∈ windowAt n i values, v.isSome := by
  intro v hv
  obtain ⟨j, hj, hji, hget⟩ := mem_windowAt hn hv
  have hsome := h j (by omega) (by omega)
  rwa [Series.at, hget] at hsome

theorem definedFrom_rolling {α : Type} {n : ℕ} {f : List α → Option K} {xs : List α}
    (h : ∀ i, n ≤ i + 1 → i < xs.length → (f (windowAt n i xs)).isSome) :
    DefinedFrom (n - 1) (rolling n f xs) := by
  intro i hk hi
  rw [rolling, length_tabulate] at hi
  rw [rolling, Series.at_tabulate hi, if_neg (by omega)]
  exact h i (by omega) hi

section Numbers

variable [Field K] [LinearOrder K]

theorem isSome_divN {x y : K} (hy : y ≠ 0) : (divN (some x) (some y)).isSome := by
  simp [divN, hy]

theorem meanN_eq_none {xs : Series K} (h : none ∈ xs) : meanN xs = none := by
  have hmapM : xs.mapM id = none := by
    induction xs with
    | nil => cases h
    | cons v xs ih =>
      rw [List.mapM_cons]
      cases v with
      | none => rfl
      | some v =>
        rw [ih ((List.mem_cons.mp h).resolve_left (by simp))]
        rfl
  rw [meanN, hmapM]
  rfl

theorem length_sma (values : Series K) (period : ℕ) : (sma values period).length = values.length := by
  rw [sma_eq_rolling, rolling, length_tabulate]

/-- The first values of `_ema`. -/
def emaPrefix (values : Series K) (period i : ℕ) : Series K :=
  (List.range i).foldl (fun result i => result ++ [emaNext values period result i]) []

theorem emaPrefix_succ (values : Series K) (period i : ℕ) :
    emaPrefix values period (i + 1) =
      emaPrefix values period i ++ [emaNext values period (emaPrefix values period i) i] := by
  rw [emaPrefix, List.range_succ, List.foldl_append]
  rfl

theorem length_emaPrefix (values : Series K) (period i : ℕ) :
    (emaPrefix values period i).length = i := by
  induction i with
  | zero => rfl
  | succ i ih => rw [emaPrefix_succ, List.length_append, ih, List.length_singleton]

theorem at_emaPrefix (values : Series K) (period : ℕ) {i n : ℕ} (h : i < n) :
    (emaPrefix values period n).at i = emaNext values period (emaPrefix values period i) i := by
  induction n with
  | zero => omega
  | succ n ih =>
    rw [emaPrefix_succ, Series.at]
    by_cases hi : i < n
    · rw [List.getElem?_append_left (by rwa [length_emaPrefix]), ← Series.at, ih hi]
    · obtain rfl : i = n := by omega
      rw [List.getElem?_append_right (by rw [length_emaPrefix]), length_emaPrefix, Nat.sub_self]
      rfl

theorem length_ema (values : Series K) (period : ℕ) : (ema values period).length = values.length := by
  rw [ema]
  split_ifs
  · exact List.length_replicate ..
  · exact length_emaPrefix ..

/-- The value of `_ema` before an index. -/
def emaBefore (values : Series K) (period : ℕ) : ℕ → Option K
  | 0 => none
  | i + 1 => (ema values period).at i

/-- The recursion of `_ema`. -/
theorem at_ema {values : Series K} {period i : ℕ} (hi : i < values.length)
    (hperiod : period ≤ values.length) : (ema values period).at i =
      match values.at i, emaBefore values period i with
      | none, _ => none
      | some _, none => if i + 1 < period then none else meanN (windowAt period i values)
      | some v, some prev => some ((v - prev) * (2 / (period + 1)) + prev) := by
  have hema : ema values period = emaPrefix values period values.length := by
    rw [ema, if_neg (by omega)]
    rfl
  have hbefore : (emaPrefix values period i).getLast?.join = emaBefore values period i := by
    cases i with
    | zero => rfl
    | succ i =>
      rw [emaBefore, hema, at_emaPrefix values period (by omega), emaPrefix_succ]
      simp
  have hnext := at_emaPrefix values period hi
  rw [emaNext, hbefore, ← hema] at hnext
  exact hnext

theorem at_ema_of_length_lt {values : Series K} {period : ℕ} (h : values.length < period) (i : ℕ) :
    (ema values period).at i = none := by
  rw [ema, if_pos h, Series.at_nans]

theorem emaBefore_eq_none {values : Series K} {period i : ℕ}
    (h : ∀ j < i, (ema values period).at j = none) : emaBefore values period i = none := by
  cases i with
  | zero => rfl
  | succ i => exact h i (Nat.lt_succ_self i)

theorem UndefinedBelow.ema {k period : ℕ} {values : Series K} (h : UndefinedBelow k values)
    (hperiod : 0 < period) : UndefinedBelow (k + period - 1) (ema values period) := by
  intro i
  induction i using Nat.strong_induction_on with
  | _ i ih =>
    intro hi
    by_cases hshort : values.length < period
    · exact at_ema_of_length_lt hshort i
    · by_cases hout : values.length ≤ i
      · exact Series.at_of_le (by rwa [length_ema])
      · rw [at_ema (by omega) (by omega), emaBefore_eq_none fun j hj => ih j hj (by omega)]
        cases values.at i with
        | none => rfl
        | some v =>
          simp only
          by_cases hwarm : i + 1 < period
          · rw [if_pos hwarm]
          · rw [if_neg hwarm]
            -- the window begins with a value that is not a number
            refine meanN_eq_none ?_
            have hfirst := h (i + 1 - period) (by omega)
            rw [Series.at, List.getElem?_eq_getElem (by omega)] at hfirst
            have hget : (windowAt period i values)[0]? = some none := by
              rw [getElem?_windowAt values (by omega) hperiod,
                List.getElem?_eq_getElem (by omega)]
              exact congrArg some hfirst
            exact List.mem_of_getElem? hget

theorem at_ema_zero (values : Series K) (i : ℕ) : (ema values 0).at i = none := by
  induction i using Nat.strong_induction_on with
  | _ i ih =>
    by_cases hout : values.length ≤ i
    · exact Series.at_of_le (by rwa [length_ema])
    · rw [at_ema (by omega) (by omega), emaBefore_eq_none ih]
      cases values.at i with
      | none => rfl
      | some v =>
        have hempty : windowAt 0 i values = [] := by simp [windowAt]
        simp only
        rw [if_neg (by omega), hempty]
        simp [meanN, mean, divN]

/-! ## Wilder's average -/

/-- The steps of `_wilder_smooth` after its seed. -/
def wilderSteps (period : ℕ) (out values : Series K) : Series K :=
  values.foldl (fun (out : Series K) v =>
    out ++ [divN (addN (mulN out.getLast?.join (some ((period : K) - 1))) v) (some (period : K))]) out

theorem length_wilderSteps (period : ℕ) (values out : Series K) :
    (wilderSteps period out values).length = out.length + values.length := by
  induction values generalizing out with
  | nil => rfl
  | cons v values ih =>
    rw [wilderSteps, List.foldl_cons, ← wilderSteps, ih]
    simp only [List.length_append, List.length_cons, List.length_nil]
    omega

theorem wilderSmooth_eq {values : Series K} {period start : ℕ} (h : start < values.length) :
    wilderSmooth values period start = nans K start ++
      wilderSteps period [meanN (windowAt period start values)] (values.drop (start + 1)) := by
  rw [wilderSmooth, if_neg (by omega)]
  rfl

theorem length_wilderSmooth (values : Series K) (period start : ℕ) :
    (wilderSmooth values period start).length = values.length := by
  by_cases h : start < values.length
  · rw [wilderSmooth_eq h, List.length_append, length_wilderSteps, nans, List.length_replicate,
      List.length_drop, List.length_singleton]
    omega
  · rw [wilderSmooth, if_pos (by omega), nans, List.length_replicate]

/-! ## Defined values -/

variable [IsStrictOrderedRing K]

theorem isSome_mean {xs : List K} (h : xs ≠ []) : (mean xs).isSome := by
  refine isSome_divN ?_
  rw [Nat.cast_ne_zero]
  simpa using h

theorem isSome_meanN {xs : Series K} (hne : xs ≠ []) (h : ∀ v ∈ xs, v.isSome) :
    (meanN xs).isSome := by
  have hall : ∀ xs : Series K, (∀ v ∈ xs, v.isSome) →
      ∃ ys : List K, xs.mapM id = some ys ∧ ys.length = xs.length := by
    intro xs h
    induction xs with
    | nil => exact ⟨[], rfl, rfl⟩
    | cons v xs ih =>
      obtain ⟨x, hx⟩ := Option.isSome_iff_exists.mp (h v (List.mem_cons_self ..))
      obtain ⟨ys, hys, hlength⟩ := ih fun v hv => h v (List.mem_cons_of_mem _ hv)
      refine ⟨x :: ys, ?_, by simp [hlength]⟩
      rw [List.mapM_cons, hys, hx]
      rfl
  obtain ⟨ys, hys, hlength⟩ := hall xs h
  rw [meanN, hys]
  refine isSome_mean fun hnil => hne ?_
  rw [hnil] at hlength
  exact List.length_eq_zero_iff.mp hlength.symm

theorem isSome_std (num : Numerics K) {xs : List K} (h : xs ≠ []) : (std num xs).isSome := by
  obtain ⟨average, haverage⟩ := Option.isSome_iff_exists.mp (isSome_mean h)
  obtain ⟨variance, hvariance⟩ := Option.isSome_iff_exists.mp
    (isSome_mean (show (xs.map fun x => (x - average) * (x - average)) ≠ [] by simpa using h))
  simp [std, haverage, hvariance]

theorem DefinedFrom.sma {k period : ℕ} {values : Series K} (h : DefinedFrom k values)
    (hperiod : 0 < period) : DefinedFrom (k + period - 1) (sma values period) := by
  intro i hk hi
  rw [sma_eq_rolling, rolling, length_tabulate] at hi
  rw [sma_eq_rolling, rolling, Series.at_tabulate hi, if_neg (by omega), windowMean]
  have hwindow : ∀ v ∈ windowAt period i values, v.isSome :=
    h.window (by omega) (by omega) hi
  have hnone : ((windowAt period i values).map fun v => if v.isNone then (1 : ℤ) else 0).sum = 0 := by
    refine List.sum_eq_zero fun x hx => ?_
    obtain ⟨v, hv, rfl⟩ := List.mem_map.mp hx
    have hsome := hwindow v hv
    cases v with
    | none => cases hsome
    | some v => rfl
  rw [if_pos hnone]
  exact isSome_divN (Nat.cast_ne_zero.mpr (by omega))

theorem DefinedFrom.ema {k period : ℕ} {values : Series K} (h : DefinedFrom k values)
    (hperiod : 0 < period) : DefinedFrom (k + period - 1) (ema values period) := by
  intro i hk hi
  rw [length_ema] at hi
  obtain ⟨v, hv⟩ := Option.isSome_iff_exists.mp (h i (by omega) hi)
  rw [at_ema hi (by omega), hv]
  cases emaBefore values period i with
  | none =>
    simp only
    rw [if_neg (by omega)]
    refine isSome_meanN (fun hnil => ?_) (h.window (by omega) (by omega) hi)
    have hlength := congrArg List.length hnil
    rw [length_windowAt (by omega) hi, List.length_nil] at hlength
    omega
  | some prev => rfl

theorem wilderSteps_isSome {period : ℕ} (hperiod : 0 < period) {values out : Series K}
    (hvalues : ∀ v ∈ values, v.isSome) (hne : out ≠ []) (hout : ∀ v ∈ out, v.isSome) :
    ∀ v ∈ wilderSteps period out values, v.isSome := by
  induction values generalizing out with
  | nil => exact hout
  | cons v values ih =>
    obtain ⟨x, hx⟩ := Option.isSome_iff_exists.mp (hvalues v (List.mem_cons_self ..))
    obtain ⟨last, hlast⟩ := Option.isSome_iff_exists.mp
      (hout (out.getLast hne) (List.getLast_mem hne))
    have hnext : (divN (addN (mulN out.getLast?.join (some ((period : K) - 1))) v)
        (some (period : K))).isSome := by
      rw [List.getLast?_eq_some_getLast hne, hlast, hx]
      exact isSome_divN (Nat.cast_ne_zero.mpr (by omega))
    exact ih (fun w hw => hvalues w (List.mem_cons_of_mem _ hw))
      (List.append_ne_nil_of_right_ne_nil out (List.cons_ne_nil _ []))
      fun w hw => (List.mem_append.mp hw).elim (hout w) fun hw => List.mem_singleton.mp hw ▸ hnext

theorem DefinedFrom.wilderSmooth {k period start : ℕ} {values : Series K} (h : DefinedFrom k values)
    (hperiod : 0 < period) (hstart : k + period ≤ start + 1) :
    DefinedFrom start (wilderSmooth values period start) := by
  intro i hk hi
  rw [length_wilderSmooth] at hi
  have hseed : (meanN (windowAt period start values)).isSome := by
    refine isSome_meanN (fun hnil => ?_) (h.window (by omega) hstart (by omega))
    have hlength := congrArg List.length hnil
    rw [length_windowAt (by omega) (by omega), List.length_nil] at hlength
    omega
  have hlater : ∀ v ∈ values.drop (start + 1), v.isSome := by
    intro v hv
    obtain ⟨j, hj⟩ := List.mem_iff_getElem?.mp hv
    rw [List.getElem?_drop] at hj
    have hlt : start + 1 + j < values.length := by
      by_contra hge
      rw [List.getElem?_eq_none (by omega)] at hj
      cases hj
    have hsome := h (start + 1 + j) (by omega) hlt
    rwa [Series.at, hj] at hsome
  have hsteps := wilderSteps_isSome hperiod hlater (List.cons_ne_nil _ _)
    fun v hv => List.mem_singleton.mp hv ▸ hseed
  have hlt : i - start < (wilderSteps period [meanN (LlamaTrade.windowAt period start values)]
      (values.drop (start + 1))).length := by
    rw [length_wilderSteps, List.length_singleton, List.length_drop]
    omega
  rw [wilderSmooth_eq (by omega), Series.at, List.getElem?_append_right (by simpa [nans] using hk),
    nans, List.length_replicate, List.getElem?_eq_getElem hlt]
  exact hsteps _ (List.getElem_mem hlt)

end Numbers

/-! ## Windows -/

section Windows

variable [LinearOrder K]

theorem isSome_maxOf {xs : List K} (h : xs ≠ []) : (maxOf xs).isSome := by
  cases xs with
  | nil => exact absurd rfl h
  | cons x xs => rfl

theorem isSome_minOf {xs : List K} (h : xs ≠ []) : (minOf xs).isSome := by
  cases xs with
  | nil => exact absurd rfl h
  | cons x xs => rfl

theorem isSome_rangePlace (flat : K) (place : K → K → K → K) {window : List (Bar T K)}
    (h : window ≠ []) : (rangePlace flat place window).isSome := by
  obtain ⟨highest, hhighest⟩ := Option.isSome_iff_exists.mp
    (isSome_maxOf (show window.map (·.high) ≠ [] by simpa using h))
  obtain ⟨lowest, hlowest⟩ := Option.isSome_iff_exists.mp
    (isSome_minOf (show window.map (·.low) ≠ [] by simpa using h))
  simp [rangePlace, hhighest, hlowest, List.getLast?_eq_some_getLast h]

omit [LinearOrder K] in
theorem windowAt_ne_nil {α : Type} {n i : ℕ} {xs : List α} (hpos : 0 < n) (hn : n ≤ i + 1)
    (hi : i < xs.length) : windowAt n i xs ≠ [] := by
  intro hnil
  have hlength := length_windowAt hn hi
  rw [hnil, List.length_nil] at hlength
  omega

omit [LinearOrder K] in
/-- A rolling function of windows that are not empty. -/
theorem definedFrom_rolling_of_ne_nil {α : Type} {n : ℕ} {f : List α → Option K} {xs : List α}
    (hpos : 0 < n) (h : ∀ window, window ≠ [] → (f window).isSome) :
    DefinedFrom (n - 1) (rolling n f xs) :=
  definedFrom_rolling fun _ hn hi => h _ (windowAt_ne_nil hpos hn hi)

variable [Field K]

omit [LinearOrder K] in
theorem DefinedFrom.scaleS {k : ℕ} {values : Series K} (c : K) (h : DefinedFrom k values) :
    DefinedFrom k (scaleS c values) := by
  intro i hk hi
  rw [LlamaTrade.scaleS, List.length_map] at hi
  obtain ⟨x, hx⟩ := Option.isSome_iff_exists.mp (h i hk hi)
  rw [Series.at_eq_some] at hx
  rw [Series.at, LlamaTrade.scaleS, List.getElem?_map, hx]
  rfl

omit [LinearOrder K] in
theorem DefinedFrom.addS {k : ℕ} {xs ys : Series K} (hxs : DefinedFrom k xs)
    (hys : DefinedFrom k ys) : DefinedFrom k (addS xs ys) :=
  DefinedFrom.zipWith _ (fun _ _ _ _ _ _ => rfl) hxs hys

omit [LinearOrder K] in
theorem DefinedFrom.subS {k : ℕ} {xs ys : Series K} (hxs : DefinedFrom k xs)
    (hys : DefinedFrom k ys) : DefinedFrom k (subS xs ys) :=
  DefinedFrom.zipWith _ (fun _ _ _ _ _ _ => rfl) hxs hys

theorem length_trueRange (bars : List (Bar T K)) : (trueRange bars).length = bars.length := by
  rw [trueRange, rolling, length_tabulate]

theorem definedFrom_trueRange (bars : List (Bar T K)) : DefinedFrom 1 (trueRange bars) := by
  refine definedFrom_rolling (n := 2) fun i hn hi => ?_
  have hlength := length_windowAt hn hi
  match windowAt 2 i bars, hlength with
  | [prev, bar], _ => rfl

variable [IsStrictOrderedRing K]

theorem definedFrom_atr (bars : List (Bar T K)) {period : ℕ} (hperiod : 0 < period) :
    DefinedFrom period (atr bars period) := by
  rw [atr]
  split_ifs with hshort
  · intro i hk hi
    rw [nans, List.length_replicate] at hi
    omega
  · exact (definedFrom_trueRange bars).wilderSmooth hperiod (by omega)

/-! ### The moving average -/

omit [Field K] [LinearOrder K] [IsStrictOrderedRing K] in
theorem sum_isNone (window : Series K) :
    (window.map fun v => if v.isNone then (1 : ℤ) else 0).sum = (window.countP (·.isNone) : ℕ) := by
  induction window with
  | nil => rfl
  | cons v window ih =>
    rw [List.map_cons, List.sum_cons, ih, List.countP_cons]
    cases v with
    | none => simp [add_comm]
    | some x => simp

omit [LinearOrder K] [IsStrictOrderedRing K] in
theorem sum_getD_zero (window : Series K) :
    (window.map fun v => v.getD 0).sum = (window.filterMap id).sum := by
  induction window with
  | nil => rfl
  | cons v window ih => cases v <;> simp [ih]

/-- The average from differences of cumulative sums is the mean of the last values, where there are
enough of them and all are numbers. -/
theorem sma_eq_plain_average (values : Series K) {period : ℕ} (hperiod : 1 ≤ period) :
    (sma values period).length = values.length ∧ ∀ i < values.length, (sma values period).at i =
      if i + 1 < period ∨ none ∈ windowAt period i values then none
      else some (((windowAt period i values).filterMap id).sum / period) := by
  refine ⟨length_sma values period, fun i hi => ?_⟩
  rw [sma_eq_rolling, rolling, Series.at_tabulate hi]
  by_cases hshort : i + 1 < period
  · rw [if_pos hshort, if_pos (.inl hshort)]
  · have hmissing : (windowAt period i values).countP (·.isNone) = 0 ↔
        none ∉ windowAt period i values := by
      rw [List.countP_eq_zero]
      refine ⟨fun h hmem => h none hmem rfl, fun h v hv hnone => h ?_⟩
      rwa [Option.isNone_iff_eq_none.mp hnone] at hv
    have hne : (period : K) ≠ 0 := Nat.cast_ne_zero.mpr (by omega)
    rw [if_neg hshort, windowMean, sum_isNone, sum_getD_zero]
    simp only [hshort, false_or, Nat.cast_eq_zero, hmissing, ite_not]
    split_ifs with hnone
    · rfl
    · simp [divN, hne]

theorem sma_eq_plain_average_pair :
    (sma [none, some (1 : ℚ), some 3] 2).length = [none, some (1 : ℚ), some 3].length ∧
      ∀ i < [none, some (1 : ℚ), some 3].length, (sma [none, some (1 : ℚ), some 3] 2).at i =
        if i + 1 < 2 ∨ none ∈ windowAt 2 i [none, some (1 : ℚ), some 3] then none
        else some (((windowAt 2 i [none, some (1 : ℚ), some 3]).filterMap id).sum / (2 : ℕ)) :=
  sma_eq_plain_average _ (by norm_num)

end Windows

end LlamaTrade
