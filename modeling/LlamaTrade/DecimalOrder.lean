import LlamaTrade.DecimalRounding

/-!
# Rounded sums in order

Rounding to nearest is monotone, so a rounded sum of larger numbers is not smaller, and
adding what is not negative does not take a number of the format down.
-/

namespace LlamaTrade

theorem divHalfEven_mono {c c' : ℕ} (d : ℕ) (h : c ≤ c') : divHalfEven c d ≤ divHalfEven c' d := by
  have hdiv : c / d ≤ c' / d := Nat.div_le_div_right h
  have hc := Nat.div_add_mod c d
  have hc' := Nat.div_add_mod c' d
  have hup : divHalfEven c d ≤ c / d + 1 := by
    unfold divHalfEven
    split_ifs <;> omega
  rcases Nat.lt_or_ge (c / d) (c' / d) with hlt | hge
  · exact le_trans hup (le_trans hlt (div_le_divHalfEven c' d))
  · have hquot : c / d = c' / d := le_antisymm hdiv hge
    have hmod : c % d ≤ c' % d := by
      rw [← hquot] at hc'
      omega
    unfold divHalfEven
    rw [hquot]
    split_ifs <;> omega

namespace Context

variable {ctx : Context}

/-- The magnitude to which `±c · 10^e` is rounded. -/
def magnitude (ctx : Context) (c : ℕ) (e : ℤ) : ℚ :=
  if e < ctx.expMin c e then
    divHalfEven c (10 ^ (ctx.expMin c e - e).toNat) * (10 : ℚ) ^ ctx.expMin c e
  else c * (10 : ℚ) ^ e

theorem magnitude_nonneg (c : ℕ) (e : ℤ) : 0 ≤ ctx.magnitude c e := by
  unfold magnitude
  split_ifs <;> positivity

theorem fix_magnitude (hprec : 0 < ctx.prec) {sign : Bool} {c : ℕ} {e : ℤ} {z : Decimal} (hc : c ≠ 0)
    (h : ctx.fix sign c e = .ok z) :
    z.toRat = if sign then -ctx.magnitude c e else ctx.magnitude c e := by
  have hsigned : ∀ (q : ℕ) (f : ℤ), (Decimal.finite sign q f).toRat =
      if sign then -(q * (10 : ℚ) ^ f) else q * (10 : ℚ) ^ f := by
    intro q f
    cases sign <;> simp [Decimal.toRat, PyText.signed]
  unfold magnitude
  obtain ⟨hzero, -⟩ | ⟨-, -, hexp, rfl⟩ | ⟨-, -, hexp, -, rfl⟩ | ⟨-, hexp, -, hlen, rfl⟩ := fix_cases h
  · exact absurd hzero hc
  · rw [if_neg (not_lt.mpr hexp), hsigned]
  · rw [if_pos hexp, hsigned]
  · have hq : divHalfEven c (10 ^ (ctx.expMin c e - e).toNat) = 10 ^ (ctx.prec - 1) * 10 := by
      rw [← pow_succ, Nat.sub_add_cancel hprec]
      refine le_antisymm (divHalfEven_le_pow hc hexp) (not_lt.mp fun hlt => ?_)
      have hne : divHalfEven c (10 ^ (ctx.expMin c e - e).toNat) ≠ 0 := by
        intro hzero
        rw [hzero, numDigits, Nat.log_zero_right] at hlen
        omega
      exact absurd ((numDigits_le_iff hne).mpr hlt) (not_le.mpr hlen)
    have hshift : ((10 ^ (ctx.prec - 1) : ℕ) : ℚ) * (10 : ℚ) ^ (ctx.expMin c e + 1) =
        ((10 ^ (ctx.prec - 1) * 10 : ℕ) : ℚ) * (10 : ℚ) ^ ctx.expMin c e := by
      rw [zpow_add_one₀ (by norm_num)]
      push_cast
      ring
    rw [if_pos hexp, hsigned, hq, Nat.mul_div_cancel _ (by norm_num), hshift]

theorem magnitude_le {c : ℕ} (hc : c ≠ 0) (e : ℤ) :
    ctx.magnitude c e ≤ (10 : ℚ) ^ (ctx.prec + ctx.expMin c e) := by
  have hle : numDigits c + e - ctx.prec ≤ ctx.expMin c e := le_max_left _ _
  unfold magnitude
  split_ifs with hround
  · rw [zpow_add₀ (by norm_num), zpow_natCast]
    have hq := divHalfEven_le_pow hc hround
    exact mul_le_mul_of_nonneg_right (by exact_mod_cast hq) (by positivity)
  · have hlt : (c : ℚ) ≤ (10 : ℚ) ^ (numDigits c : ℤ) := by
      rw [zpow_natCast]
      exact_mod_cast ((numDigits_le_iff hc).mp le_rfl).le
    calc (c : ℚ) * (10 : ℚ) ^ e ≤ (10 : ℚ) ^ (numDigits c : ℤ) * (10 : ℚ) ^ e :=
          mul_le_mul_of_nonneg_right hlt (by positivity)
      _ = (10 : ℚ) ^ (numDigits c + e) := (zpow_add₀ (by norm_num) _ _).symm
      _ ≤ (10 : ℚ) ^ (ctx.prec + ctx.expMin c e) := zpow_le_zpow_right₀ (by norm_num) (by omega)

theorem le_magnitude (hprec : 0 < ctx.prec) {c : ℕ} (hc : c ≠ 0) {e : ℤ}
    (h : ctx.expMin c e = numDigits c + e - ctx.prec) :
    (10 : ℚ) ^ (ctx.prec - 1 + ctx.expMin c e) ≤ ctx.magnitude c e := by
  have hpow : 10 ^ Nat.log 10 c ≤ c := Nat.pow_log_le_self 10 hc
  have hdigits : numDigits c = Nat.log 10 c + 1 := rfl
  unfold magnitude
  split_ifs with hround
  · have hq : 10 ^ (ctx.prec - 1) ≤ divHalfEven c (10 ^ (ctx.expMin c e - e).toNat) := by
      refine le_trans ?_ (div_le_divHalfEven _ _)
      rw [Nat.le_div_iff_mul_le (by positivity), ← pow_add]
      refine le_trans (Nat.pow_le_pow_right (by norm_num) ?_) hpow
      omega
    have hexp : (ctx.prec : ℤ) - 1 = ((ctx.prec - 1 : ℕ) : ℤ) := by omega
    rw [zpow_add₀ (by norm_num), hexp, zpow_natCast]
    exact mul_le_mul_of_nonneg_right (by exact_mod_cast hq) (by positivity)
  · have hexp : (ctx.prec : ℤ) - 1 + ctx.expMin c e = (Nat.log 10 c : ℤ) + e := by omega
    rw [hexp, zpow_add₀ (by norm_num), zpow_natCast]
    exact mul_le_mul_of_nonneg_right (by exact_mod_cast hpow) (by positivity)

/-- The magnitudes of numbers written with the same exponent are in their order. -/
theorem magnitude_mono (hprec : 0 < ctx.prec) {c c' : ℕ} (hc : c ≠ 0) (e : ℤ) (h : c ≤ c') :
    ctx.magnitude c e ≤ ctx.magnitude c' e := by
  have hc' : c' ≠ 0 := by omega
  have hdigits : numDigits c ≤ numDigits c' := Nat.succ_le_succ (Nat.log_mono_right h)
  rcases lt_or_eq_of_le (max_le_max_right ctx.etiny
    (by omega : (numDigits c + e - ctx.prec : ℤ) ≤ numDigits c' + e - ctx.prec)) with hlt | heq
  · have hlt' : ctx.expMin c e < ctx.expMin c' e := hlt
    have hmin : ctx.expMin c' e = numDigits c' + e - ctx.prec := by
      have htiny : ctx.etiny ≤ ctx.expMin c e := le_max_right _ _
      unfold expMin at hlt' htiny ⊢
      omega
    calc ctx.magnitude c e ≤ (10 : ℚ) ^ (ctx.prec + ctx.expMin c e) := magnitude_le hc e
      _ ≤ (10 : ℚ) ^ (ctx.prec - 1 + ctx.expMin c' e) :=
        zpow_le_zpow_right₀ (by norm_num) (by omega)
      _ ≤ ctx.magnitude c' e := le_magnitude hprec hc' hmin
  · have hmin : ctx.expMin c e = ctx.expMin c' e := heq
    unfold magnitude
    rw [hmin]
    split_ifs
    · have hround := divHalfEven_mono (10 ^ (ctx.expMin c' e - e).toNat) h
      exact mul_le_mul_of_nonneg_right (by exact_mod_cast hround) (by positivity)
    · exact mul_le_mul_of_nonneg_right (by exact_mod_cast h) (by positivity)

/-- `fix` is monotone on numbers written with the same exponent. -/
theorem fix_mono_same (hprec : 0 < ctx.prec) {s s' : Bool} {c c' : ℕ} {e : ℤ} {z z' : Decimal}
    (h : (PyText.signed s c : ℤ) ≤ PyText.signed s' c') (hz : ctx.fix s c e = .ok z)
    (hz' : ctx.fix s' c' e = .ok z') : z.toRat ≤ z'.toRat := by
  have hzero : ∀ {s : Bool} {c : ℕ} {z : Decimal}, c = 0 → ctx.fix s c e = .ok z → z.toRat = 0 := by
    intro s c z hc hz
    obtain ⟨-, rfl⟩ | ⟨hne, -⟩ | ⟨hne, -⟩ | ⟨hne, -⟩ := fix_cases hz
    · exact Decimal.toRat_eq_zero.mpr rfl
    · exact absurd hc hne
    · exact absurd hc hne
    · exact absurd hc hne
  have hsign : ∀ {s : Bool} {c : ℕ} {z : Decimal}, ctx.fix s c e = .ok z →
      (s = true → z.toRat ≤ 0) ∧ (s = false → 0 ≤ z.toRat) := by
    intro s c z hz
    have hmag := @magnitude_nonneg ctx c e
    by_cases hc : c = 0
    · rw [hzero hc hz]
      exact ⟨fun _ => le_rfl, fun _ => le_rfl⟩
    · rw [fix_magnitude hprec hc hz]
      constructor
      · rintro rfl
        simpa using hmag
      · rintro rfl
        simpa using hmag
  by_cases hc : c = 0
  · rw [hzero hc hz]
    cases s' with
    | false => exact (hsign hz').2 rfl
    | true =>
      have hc' : c' = 0 := by
        cases s <;> simp [PyText.signed, hc] at h <;> omega
      rw [hzero hc' hz']
  by_cases hc' : c' = 0
  · rw [hzero hc' hz']
    cases s with
    | true => exact (hsign hz).1 rfl
    | false => cases s' <;> simp [PyText.signed, hc'] at h <;> omega
  cases s with
  | true =>
    cases s' with
    | false => exact le_trans ((hsign hz).1 rfl) ((hsign hz').2 rfl)
    | true =>
      have hle : c' ≤ c := by simpa [PyText.signed] using h
      have hmono := magnitude_mono hprec hc' e hle
      rw [fix_magnitude hprec hc hz, fix_magnitude hprec hc' hz']
      simpa using hmono
  | false =>
    cases s' with
    | true =>
      simp only [PyText.signed, Bool.false_eq_true, if_false, if_true] at h
      omega
    | false =>
      have hle : c ≤ c' := by simpa [PyText.signed] using h
      have hmono := magnitude_mono hprec hc e hle
      rw [fix_magnitude hprec hc hz, fix_magnitude hprec hc' hz']
      simpa using hmono

end Context

namespace Decimal

variable {ctx : Context}

/-- A number can be brought into the format from a smaller exponent. -/
theorem fix_scaled {s : Bool} {c : ℕ} {m e : ℤ} {z : Decimal} (hle : m ≤ e)
    (h : ctx.fix s c e = .ok z) : ∃ z₁,
      ctx.fix (decide (scaled m s c e < 0)) (scaled m s c e).natAbs m = .ok z₁ ∧
        z₁.toRat = z.toRat := by
  have hsame : (finite (decide (scaled m s c e < 0)) (scaled m s c e).natAbs m).toRat =
      (finite s c e).toRat := by
    rw [toRat, toRat, PyText.signed_natAbs, scaled_mul_pow s c hle]
  have hcongr := @Context.fix_congr ctx _ _ _ _ _ _ hsame
  rw [h] at hcongr
  cases hz : ctx.fix (decide (scaled m s c e < 0)) (scaled m s c e).natAbs m with
  | error err =>
    rw [hz] at hcongr
    cases hcongr
  | ok z₁ =>
    rw [hz] at hcongr
    exact ⟨z₁, rfl, Except.ok.inj hcongr⟩

/-- A rounded sum of a larger exact value is not smaller. -/
theorem add_mono (hprec : 0 < ctx.prec) {x y z x' y' z' : Decimal} (hx : x.isFinite) (hy : y.isFinite)
    (hx' : x'.isFinite) (hy' : y'.isFinite) (h : x.toRat + y.toRat ≤ x'.toRat + y'.toRat)
    (hz : add ctx x y = .ok z) (hz' : add ctx x' y' = .ok z') : z.toRat ≤ z'.toRat := by
  obtain ⟨s, c, e, hfix, hval⟩ := @add_finite ctx x y hx hy
  obtain ⟨s', c', e', hfix', hval'⟩ := @add_finite ctx x' y' hx' hy'
  rw [hfix] at hz
  rw [hfix'] at hz'
  obtain ⟨z₁, hz₁, hz₁Val⟩ := fix_scaled (min_le_left e e') hz
  obtain ⟨z₁', hz₁', hz₁Val'⟩ := fix_scaled (min_le_right e e') hz'
  rw [← hz₁Val, ← hz₁Val']
  refine Context.fix_mono_same hprec ?_ hz₁ hz₁'
  rw [PyText.signed_natAbs, PyText.signed_natAbs]
  rw [← hval, ← hval', toRat, toRat, ← scaled_mul_pow s c (min_le_left e e'),
    ← scaled_mul_pow s' c' (min_le_right e e')] at h
  have hpow : (0 : ℚ) < (10 : ℚ) ^ min e e' := by positivity
  exact_mod_cast le_of_mul_le_mul_right h hpow

/-- Adding what is not negative does not take a number of the format down. -/
theorem le_add_of_nonneg (hprec : 0 < ctx.prec) {x y z : Decimal} (hx : x.isFinite)
    (hy : y.isFinite) (hfits : ctx.Fits x.toRat) (hpos : 0 ≤ y.toRat) (h : add ctx x y = .ok z) :
    x.toRat ≤ z.toRat := by
  have hzero : (finite false 0 0).toRat = 0 := toRat_eq_zero.mpr rfl
  obtain ⟨x₁, hx₁, -, hval⟩ := @add_of_fits ctx x (finite false 0 0) hx rfl
    (by rw [hzero, add_zero]; exact hfits)
  rw [hzero, add_zero] at hval
  rw [← hval]
  exact add_mono hprec hx rfl hx hy (by rw [hzero]; linarith) hx₁ h

end Decimal

end LlamaTrade
