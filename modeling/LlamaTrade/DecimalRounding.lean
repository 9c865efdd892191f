import LlamaTrade.DecimalNumber

/-!
# When decimal arithmetic is exact

A rational number fits a context when it can be written with at most `prec` digits and an
exponent of the format. A sum, and a negation, whose exact value fits is returned exactly.
-/

namespace LlamaTrade

theorem numDigits_mul_pow {c : ℕ} (hc : c ≠ 0) (k : ℕ) :
    numDigits (c * 10 ^ k) = numDigits c + k := by
  unfold numDigits
  induction k with
  | zero => simp
  | succ k ih =>
    have hpos : c * 10 ^ k ≠ 0 := by positivity
    rw [pow_succ, ← mul_assoc, Nat.log_mul_base (by norm_num) hpos]
    omega

theorem numDigits_le_iff {c p : ℕ} (hc : c ≠ 0) : numDigits c ≤ p ↔ c < 10 ^ p := by
  unfold numDigits
  rw [Nat.add_one_le_iff]
  exact Nat.log_lt_iff_lt_pow (by norm_num) hc

theorem divHalfEven_mul {d : ℕ} (hd : 0 < d) (q : ℕ) : divHalfEven (q * d) d = q := by
  unfold divHalfEven
  rw [Nat.mul_mod_left, Nat.mul_div_cancel _ hd]
  simp [hd]

theorem PyText.signed_natAbs (t : ℤ) : signed (decide (t < 0)) t.natAbs = t := by
  by_cases h : t < 0
  · rw [decide_eq_true h, signed, if_pos rfl]
    omega
  · rw [decide_eq_false h, signed, if_neg Bool.false_ne_true]
    omega

/-- Scaling a coefficient down to a smaller exponent keeps the value. -/
theorem Decimal.scaled_mul_pow (sign : Bool) (c : ℕ) {m e : ℤ} (h : m ≤ e) :
    (scaled m sign c e : ℚ) * (10 : ℚ) ^ m = PyText.signed sign c * (10 : ℚ) ^ e := by
  have hexp : (10 : ℚ) ^ e = (10 : ℚ) ^ (e - m).toNat * (10 : ℚ) ^ m := by
    rw [← zpow_natCast, ← zpow_add₀ (by norm_num : (10 : ℚ) ≠ 0), Int.toNat_of_nonneg (by omega)]
    congr 1
    omega
  cases sign <;> simp [scaled, PyText.signed, hexp, mul_assoc]

theorem Decimal.toRat_rescale (sign : Bool) (c : ℕ) {m e : ℤ} (h : m ≤ e) :
    toRat (finite sign (c * 10 ^ (e - m).toNat) m) = toRat (finite sign c e) :=
  scaled_mul_pow sign c h

theorem Decimal.abs_toRat (sign : Bool) (c : ℕ) (e : ℤ) :
    |toRat (finite sign c e)| = c * (10 : ℚ) ^ e := by
  have hsigned : |((PyText.signed sign c : ℤ) : ℚ)| = c := by
    cases sign <;> simp [PyText.signed]
  rw [toRat, abs_mul, hsigned, abs_of_pos (by positivity : (0 : ℚ) < (10 : ℚ) ^ e)]

theorem Decimal.toRat_eq_zero {sign : Bool} {c : ℕ} {e : ℤ} :
    toRat (finite sign c e) = 0 ↔ c = 0 := by
  have hpow : (10 : ℚ) ^ e ≠ 0 := by positivity
  rw [← abs_eq_zero, abs_toRat, mul_eq_zero, or_iff_left hpow, Nat.cast_eq_zero]

theorem Decimal.toRat_neg_iff {sign : Bool} {c : ℕ} {e : ℤ} (hc : c ≠ 0) :
    toRat (finite sign c e) < 0 ↔ sign = true := by
  have hpos : (0 : ℚ) < c * (10 : ℚ) ^ e := by positivity
  cases sign with
  | false => simpa [toRat, PyText.signed] using hpos.le
  | true => simpa [toRat, PyText.signed] using hpos

theorem div_le_divHalfEven (c d : ℕ) : c / d ≤ divHalfEven c d := by
  unfold divHalfEven
  split_ifs
  · exact le_rfl
  · exact Nat.le_succ _
  · exact le_rfl
  · exact Nat.le_succ _

theorem divHalfEven_mul_mul {c d k : ℕ} (hk : 0 < k) :
    divHalfEven (c * k) (d * k) = divHalfEven c d := by
  unfold divHalfEven
  rw [Nat.mul_mod_mul_right, Nat.mul_div_mul_right _ _ hk, ← mul_assoc]
  simp only [Nat.mul_lt_mul_right hk]

namespace Context

variable (ctx : Context)

/-- The number can be written in the format. -/
def Fits (q : ℚ) : Prop :=
  ∃ (n : ℤ) (e : ℤ), n.natAbs < 10 ^ ctx.prec ∧ ctx.etiny ≤ e ∧ e ≤ ctx.etop ∧
    q = n * (10 : ℚ) ^ e

variable {ctx}

/-- Two ways to write one nonzero number differ by a power of ten. -/
theorem coeff_eq_mul_pow {c d : ℕ} {e f : ℤ} (hef : e ≤ f)
    (h : (c : ℚ) * (10 : ℚ) ^ e = d * (10 : ℚ) ^ f) : c = d * 10 ^ (f - e).toNat := by
  have hscaled := Decimal.scaled_mul_pow false d hef
  simp only [Decimal.scaled, PyText.signed, Bool.false_eq_true, if_false] at hscaled
  rw [Int.cast_natCast d, ← h] at hscaled
  have hpow : (10 : ℚ) ^ e ≠ 0 := by positivity
  have hcast := mul_right_cancel₀ hpow hscaled
  exact_mod_cast hcast.symm

/-- The position of the leading digit does not depend on how a number is written. -/
theorem numDigits_add_exp {c d : ℕ} {e f : ℤ} (hc : c ≠ 0) (hd : d ≠ 0)
    (h : (c : ℚ) * (10 : ℚ) ^ e = d * (10 : ℚ) ^ f) :
    (numDigits c : ℤ) + e = numDigits d + f := by
  rcases le_total e f with hle | hle
  · rw [coeff_eq_mul_pow hle h, numDigits_mul_pow hd]
    omega
  · rw [coeff_eq_mul_pow hle h.symm, numDigits_mul_pow hc]
    omega

/-- Bringing a number into the format does not depend on the exponent it is written with. -/
theorem fix_rescale {c : ℕ} (hc : c ≠ 0) (sign : Bool) {d e : ℤ} (hde : d ≤ e) :
    (ctx.fix sign (c * 10 ^ (e - d).toNat) d).map Decimal.toRat =
      (ctx.fix sign c e).map Decimal.toRat := by
  have hck : c * 10 ^ (e - d).toNat ≠ 0 := by positivity
  have hlead : (numDigits (c * 10 ^ (e - d).toNat) : ℤ) + d = numDigits c + e := by
    rw [numDigits_mul_pow hc]
    omega
  have hmin : ctx.expMin (c * 10 ^ (e - d).toNat) d = ctx.expMin c e := by
    unfold expMin
    rw [hlead]
  have hle : numDigits c + e - ctx.prec ≤ ctx.expMin c e := le_max_left _ _
  unfold fix
  rw [if_neg hc, if_neg hck, hlead, hmin]
  generalize ctx.expMin c e = m at hle ⊢
  by_cases hover : ctx.etop < numDigits c + e - ctx.prec
  · rw [if_pos hover, if_pos hover]
  rw [if_neg hover, if_neg hover]
  by_cases hround : e < m
  · have hpow : 10 ^ (m - d).toNat = 10 ^ (m - e).toNat * 10 ^ (e - d).toNat := by
      rw [← pow_add]
      congr 1
      omega
    rw [if_pos (by omega : d < m), if_pos hround, hpow, divHalfEven_mul_mul (by positivity)]
  · rw [if_neg hround]
    by_cases hshift : d < m
    · have hexact : c * 10 ^ (e - d).toNat = c * 10 ^ (e - m).toNat * 10 ^ (m - d).toNat := by
        rw [mul_assoc, ← pow_add]
        congr 2
        omega
      have hfit : ¬ ctx.prec < numDigits (c * 10 ^ (e - m).toNat) := by
        rw [numDigits_mul_pow hc]
        omega
      rw [if_pos hshift, hexact, divHalfEven_mul (by positivity)]
      dsimp only
      rw [if_neg hfit]
      exact congrArg Except.ok (Decimal.toRat_rescale sign c (by omega))
    · rw [if_neg hshift]
      exact congrArg Except.ok (Decimal.toRat_rescale sign c hde)

/-- Nor on the way a number is written at all. -/
theorem fix_congr {s₁ s₂ : Bool} {c₁ c₂ : ℕ} {e₁ e₂ : ℤ}
    (h : (Decimal.finite s₁ c₁ e₁).toRat = (Decimal.finite s₂ c₂ e₂).toRat) :
    (ctx.fix s₁ c₁ e₁).map Decimal.toRat = (ctx.fix s₂ c₂ e₂).map Decimal.toRat := by
  by_cases h₁ : c₁ = 0
  · have h₂ : c₂ = 0 := Decimal.toRat_eq_zero.mp (h ▸ Decimal.toRat_eq_zero.mpr h₁)
    simp only [fix, h₁, h₂, if_true, Except.map, Decimal.toRat_eq_zero.mpr rfl]
  have h₂ : c₂ ≠ 0 := fun h₂ => h₁ (Decimal.toRat_eq_zero.mp (h.trans (Decimal.toRat_eq_zero.mpr h₂)))
  have hsign : s₁ = s₂ := by
    rw [Bool.eq_iff_iff, ← Decimal.toRat_neg_iff h₁, h, Decimal.toRat_neg_iff h₂]
  have habs := congrArg abs h
  rw [Decimal.abs_toRat, Decimal.abs_toRat] at habs
  subst hsign
  rcases le_total e₁ e₂ with hle | hle
  · rw [coeff_eq_mul_pow hle habs]
    exact fix_rescale h₂ s₁ hle
  · rw [coeff_eq_mul_pow hle habs.symm]
    exact (fix_rescale h₁ s₁ hle).symm

/-- A number that fits is brought into the format unchanged. -/
theorem fix_of_fits {sign : Bool} {c : ℕ} {e : ℤ}
    (h : ctx.Fits (PyText.signed sign c * (10 : ℚ) ^ e)) :
    ∃ z, ctx.fix sign c e = .ok z ∧ z.isFinite ∧ z.toRat = PyText.signed sign c * (10 : ℚ) ^ e := by
  by_cases hc : c = 0
  · refine ⟨_, if_pos hc, rfl, ?_⟩
    simp [Decimal.toRat, hc, PyText.signed]
  obtain ⟨n, f, hn, htiny, htop, hval⟩ := h
  have hval : (c : ℚ) * (10 : ℚ) ^ e = n.natAbs * (10 : ℚ) ^ f := by
    have habs := Decimal.abs_toRat sign c e
    rw [Decimal.toRat, hval, abs_mul, abs_of_pos (by positivity : (0 : ℚ) < (10 : ℚ) ^ f)] at habs
    rw [← habs, Nat.cast_natAbs, Int.cast_abs]
  have hd : n.natAbs ≠ 0 := by
    intro hzero
    rw [hzero] at hval
    have hpow : (10 : ℚ) ^ e ≠ 0 := by positivity
    exact hpow (by simpa [hc] using hval)
  have hdigits := numDigits_add_exp hc hd hval
  have hlen : numDigits n.natAbs ≤ ctx.prec := (numDigits_le_iff hd).mpr hn
  have hmin : ctx.expMin c e ≤ f := by
    unfold expMin
    omega
  have hrange : ¬ ctx.etop < numDigits c + e - ctx.prec := by omega
  by_cases hshort : e < ctx.expMin c e
  · have hq : c = n.natAbs * 10 ^ (f - ctx.expMin c e).toNat *
        10 ^ (ctx.expMin c e - e).toNat := by
      rw [mul_assoc, ← pow_add, ← Int.toNat_add (by omega) (by omega)]
      have hexp : f - ctx.expMin c e + (ctx.expMin c e - e) = f - e := by omega
      rw [hexp]
      exact coeff_eq_mul_pow (by omega) hval
    have hround : divHalfEven c (10 ^ (ctx.expMin c e - e).toNat) =
        n.natAbs * 10 ^ (f - ctx.expMin c e).toNat := by
      generalize ctx.expMin c e = m at hq ⊢
      rw [hq]
      exact divHalfEven_mul (by positivity) _
    have hfit : ¬ ctx.prec < numDigits (n.natAbs * 10 ^ (f - ctx.expMin c e).toNat) := by
      rw [numDigits_mul_pow hd]
      have hle : numDigits c + e - ctx.prec ≤ ctx.expMin c e := le_max_left _ _
      omega
    refine ⟨.finite sign (n.natAbs * 10 ^ (f - ctx.expMin c e).toNat) (ctx.expMin c e), ?_, rfl, ?_⟩
    · unfold fix
      rw [if_neg hc, if_neg hrange, if_pos hshort]
      dsimp only
      rw [hround, if_neg hfit]
    · rw [Decimal.toRat, ← Decimal.scaled_mul_pow sign _ hshort.le, Decimal.scaled, ← hq]
  · refine ⟨.finite sign c e, ?_, rfl, rfl⟩
    unfold fix
    rw [if_neg hc, if_neg hrange, if_neg hshort]

theorem fits_of_lt {sign : Bool} {c : ℕ} {e : ℤ} (hc : c < 10 ^ ctx.prec) (htiny : ctx.etiny ≤ e)
    (htop : e ≤ ctx.etop) : ctx.Fits (Decimal.finite sign c e).toRat := by
  refine ⟨PyText.signed sign c, e, ?_, htiny, htop, rfl⟩
  cases sign <;> simpa [PyText.signed] using hc

theorem Fits.neg {q : ℚ} (h : ctx.Fits q) : ctx.Fits (-q) := by
  obtain ⟨n, f, hn, htiny, htop, hval⟩ := h
  refine ⟨-n, f, by rwa [Int.natAbs_neg], htiny, htop, ?_⟩
  rw [hval, Int.cast_neg, neg_mul]

/-- The numbers of the format are multiples of its smallest positive one. -/
theorem Fits.exists_int {q : ℚ} (h : ctx.Fits q) : ∃ n : ℤ, q = n * (10 : ℚ) ^ ctx.etiny := by
  obtain ⟨n, f, -, htiny, -, hval⟩ := h
  refine ⟨Decimal.scaled ctx.etiny (decide (n < 0)) n.natAbs f, ?_⟩
  rw [hval, Decimal.scaled_mul_pow _ _ htiny, PyText.signed_natAbs]

theorem fits_zero (hrange : ctx.etiny ≤ ctx.etop) : ctx.Fits 0 :=
  ⟨0, ctx.etiny, by positivity, le_refl _, hrange, by simp⟩

/-- The quotient that rounding keeps has at most one digit too many. -/
theorem divHalfEven_le_pow {c : ℕ} {e : ℤ} (hc : c ≠ 0) (h : e < ctx.expMin c e) :
    divHalfEven c (10 ^ (ctx.expMin c e - e).toNat) ≤ 10 ^ ctx.prec := by
  have hle : numDigits c + e - ctx.prec ≤ ctx.expMin c e := le_max_left _ _
  generalize ctx.expMin c e = m at h hle ⊢
  have hlt : c < 10 ^ ctx.prec * 10 ^ (m - e).toNat := by
    rw [← pow_add]
    refine lt_of_lt_of_le ((numDigits_le_iff hc).mp le_rfl) (Nat.pow_le_pow_right (by norm_num) ?_)
    omega
  have hdiv : c / 10 ^ (m - e).toNat < 10 ^ ctx.prec := by
    rw [Nat.div_lt_iff_lt_mul (by positivity)]
    exact hlt
  unfold divHalfEven
  split_ifs <;> omega

/-- The four ways in which `fix` returns: a zero, a coefficient that is short enough, a
rounded one, and one that rounding made a digit longer. -/
theorem fix_cases {sign : Bool} {c : ℕ} {e : ℤ} {z : Decimal} (h : ctx.fix sign c e = .ok z) :
    (c = 0 ∧ z = .finite sign 0 (min (max e ctx.etiny) ctx.emax)) ∨
    (c ≠ 0 ∧ numDigits c + e - ctx.prec ≤ ctx.etop ∧ ctx.expMin c e ≤ e ∧ z = .finite sign c e) ∨
    (c ≠ 0 ∧ numDigits c + e - ctx.prec ≤ ctx.etop ∧ e < ctx.expMin c e ∧
      numDigits (divHalfEven c (10 ^ (ctx.expMin c e - e).toNat)) ≤ ctx.prec ∧
      z = .finite sign (divHalfEven c (10 ^ (ctx.expMin c e - e).toNat)) (ctx.expMin c e)) ∨
    (c ≠ 0 ∧ e < ctx.expMin c e ∧ ctx.expMin c e + 1 ≤ ctx.etop ∧
      ctx.prec < numDigits (divHalfEven c (10 ^ (ctx.expMin c e - e).toNat)) ∧
      z = .finite sign (divHalfEven c (10 ^ (ctx.expMin c e - e).toNat) / 10)
        (ctx.expMin c e + 1)) := by
  unfold fix at h
  dsimp only at h
  by_cases hc : c = 0
  · rw [if_pos hc] at h
    exact .inl ⟨hc, (Except.ok.inj h).symm⟩
  rw [if_neg hc] at h
  by_cases hover : ctx.etop < numDigits c + e - ctx.prec
  · rw [if_pos hover] at h
    cases h
  rw [if_neg hover] at h
  by_cases hround : e < ctx.expMin c e
  · rw [if_pos hround] at h
    by_cases hlong : ctx.prec < numDigits (divHalfEven c (10 ^ (ctx.expMin c e - e).toNat))
    · rw [if_pos hlong] at h
      by_cases htop : ctx.etop < ctx.expMin c e + 1
      · rw [if_pos htop] at h
        cases h
      · rw [if_neg htop] at h
        exact .inr (.inr (.inr ⟨hc, hround, not_lt.mp htop, hlong, (Except.ok.inj h).symm⟩))
    · rw [if_neg hlong] at h
      exact .inr (.inr (.inl ⟨hc, not_lt.mp hover, hround, not_lt.mp hlong,
        (Except.ok.inj h).symm⟩))
  · rw [if_neg hround] at h
    exact .inr (.inl ⟨hc, not_lt.mp hover, not_lt.mp hround, (Except.ok.inj h).symm⟩)

theorem lt_pow_of_numDigits_le {c p : ℕ} (h : numDigits c ≤ p) : c < 10 ^ p := by
  by_cases hc : c = 0
  · rw [hc]
    positivity
  · exact (numDigits_le_iff hc).mp h

/-- What `fix` returns has the given sign and is a number of the format. -/
theorem fix_fits (hrange : ctx.etiny ≤ ctx.etop) {sign : Bool} {c : ℕ} {e : ℤ} {z : Decimal}
    (h : ctx.fix sign c e = .ok z) : (∃ q f, z = .finite sign q f) ∧ ctx.Fits z.toRat := by
  have hle : numDigits c + e - ctx.prec ≤ ctx.expMin c e := le_max_left _ _
  have htiny : ctx.etiny ≤ ctx.expMin c e := le_max_right _ _
  obtain ⟨-, rfl⟩ | ⟨hc, htop, hexp, rfl⟩ | ⟨-, htop, -, hlen, rfl⟩ | ⟨hc, hexp, htop, -, rfl⟩ :=
    fix_cases h
  · refine ⟨⟨_, _, rfl⟩, ?_⟩
    rw [Decimal.toRat_eq_zero.mpr rfl]
    exact fits_zero hrange
  · refine ⟨⟨_, _, rfl⟩, ?_⟩
    rcases le_total e ctx.etop with hetop | hetop
    · exact fits_of_lt (lt_pow_of_numDigits_le (by omega)) (by omega) hetop
    · rw [← Decimal.toRat_rescale sign c hetop]
      refine fits_of_lt (lt_pow_of_numDigits_le ?_) hrange le_rfl
      rw [numDigits_mul_pow hc]
      omega
  · exact ⟨⟨_, _, rfl⟩, fits_of_lt (lt_pow_of_numDigits_le hlen) htiny (max_le htop hrange)⟩
  · refine ⟨⟨_, _, rfl⟩, fits_of_lt ?_ (by omega) htop⟩
    have hq := divHalfEven_le_pow hc hexp
    have hpos : 0 < 10 ^ ctx.prec := by positivity
    omega

/-- A nonzero number whose last digit is in range does not vanish. -/
theorem fix_ne_zero (hprec : 0 < ctx.prec) {sign : Bool} {c : ℕ} {e : ℤ} {z : Decimal}
    (hc : c ≠ 0) (he : ctx.etiny ≤ e) (h : ctx.fix sign c e = .ok z) : z.toRat ≠ 0 := by
  obtain ⟨hzero, -⟩ | ⟨-, -, -, rfl⟩ | ⟨-, -, hexp, -, rfl⟩ | ⟨-, -, -, hlen, rfl⟩ := fix_cases h
  · exact absurd hzero hc
  · exact Decimal.toRat_eq_zero.not.mpr hc
  · have hmin : ctx.expMin c e = numDigits c + e - ctx.prec := by
      unfold expMin at hexp ⊢
      omega
    have hpow : 10 ^ (ctx.expMin c e - e).toNat ≤ c := by
      refine le_trans (Nat.pow_le_pow_right (by norm_num) ?_) (Nat.pow_log_le_self 10 hc)
      unfold numDigits at hmin
      omega
    have hdiv : 0 < c / 10 ^ (ctx.expMin c e - e).toNat := Nat.div_pos hpow (by positivity)
    exact Decimal.toRat_eq_zero.not.mpr (lt_of_lt_of_le hdiv (div_le_divHalfEven _ _)).ne'
  · refine Decimal.toRat_eq_zero.not.mpr ?_
    intro hzero
    have hlt : divHalfEven c (10 ^ (ctx.expMin c e - e).toNat) < 10 ^ 1 := by omega
    have hle : numDigits (divHalfEven c (10 ^ (ctx.expMin c e - e).toNat)) ≤ 1 := by
      unfold numDigits
      rw [Nat.log_of_lt (by simpa using hlt)]
    omega

end Context

namespace Decimal

variable {ctx : Context}

theorem addFinite_value (s₁ : Bool) (c₁ : ℕ) (e₁ : ℤ) (s₂ : Bool) (c₂ : ℕ) (e₂ : ℤ) :
    ∃ (sign : Bool) (c : ℕ) (e : ℤ), addFinite ctx s₁ c₁ e₁ s₂ c₂ e₂ = ctx.fix sign c e ∧
      (PyText.signed sign c : ℚ) * (10 : ℚ) ^ e =
        (finite s₁ c₁ e₁).toRat + (finite s₂ c₂ e₂).toRat := by
  refine ⟨_, _, _, rfl, ?_⟩
  rw [toRat, toRat, ← scaled_mul_pow s₁ c₁ (min_le_left e₁ e₂),
    ← scaled_mul_pow s₂ c₂ (min_le_right e₁ e₂), ← add_mul, ← Int.cast_add]
  generalize scaled (min e₁ e₂) s₁ c₁ e₁ + scaled (min e₁ e₂) s₂ c₂ e₂ = t
  have hsigned : PyText.signed (if t = 0 then s₁ && s₂ else decide (t < 0)) t.natAbs = t := by
    by_cases hzero : t = 0
    · subst hzero
      cases s₁ <;> cases s₂ <;> rfl
    · rw [if_neg hzero, PyText.signed_natAbs]
  rw [hsigned]

/-- The sum of two finite numbers is their exact sum, brought into the format. -/
theorem add_finite {x y : Decimal} (hx : x.isFinite) (hy : y.isFinite) :
    ∃ s c e, add ctx x y = ctx.fix s c e ∧ (finite s c e).toRat = x.toRat + y.toRat := by
  cases x with
  | infinity s => cases hx
  | nan s g d => cases hx
  | finite s₁ c₁ e₁ =>
    cases y with
    | infinity s => cases hy
    | nan s g d => cases hy
    | finite s₂ c₂ e₂ => exact addFinite_value s₁ c₁ e₁ s₂ c₂ e₂

/-- A sum that fits is exact. -/
theorem add_of_fits {x y : Decimal} (hx : x.isFinite) (hy : y.isFinite)
    (h : ctx.Fits (x.toRat + y.toRat)) :
    ∃ z, add ctx x y = .ok z ∧ z.isFinite ∧ z.toRat = x.toRat + y.toRat := by
  obtain ⟨s, c, e, hadd, hval⟩ := @add_finite ctx x y hx hy
  rw [← hval] at h ⊢
  rw [hadd]
  exact Context.fix_of_fits h

/-- Sums of the same exact value round alike. -/
theorem add_congr {x y x' y' z : Decimal} (hx : x.isFinite) (hy : y.isFinite) (hx' : x'.isFinite)
    (hy' : y'.isFinite) (h : x.toRat + y.toRat = x'.toRat + y'.toRat)
    (hadd : add ctx x y = .ok z) : ∃ z', add ctx x' y' = .ok z' ∧ z'.toRat = z.toRat := by
  obtain ⟨s, c, e, hfix, hval⟩ := @add_finite ctx x y hx hy
  obtain ⟨s', c', e', hfix', hval'⟩ := @add_finite ctx x' y' hx' hy'
  have hcongr := @Context.fix_congr ctx _ _ _ _ _ _ (hval.trans (h.trans hval'.symm))
  rw [← hfix, ← hfix', hadd] at hcongr
  cases hz : add ctx x' y' with
  | error err =>
    rw [hz] at hcongr
    cases hcongr
  | ok z' =>
    rw [hz] at hcongr
    exact ⟨z', rfl, (Except.ok.inj hcongr).symm⟩

theorem add_fits (hrange : ctx.etiny ≤ ctx.etop) {x y z : Decimal} (hx : x.isFinite)
    (hy : y.isFinite) (h : add ctx x y = .ok z) : z.isFinite ∧ ctx.Fits z.toRat := by
  obtain ⟨s, c, e, hadd, -⟩ := @add_finite ctx x y hx hy
  obtain ⟨⟨q, f, rfl⟩, hfits⟩ := Context.fix_fits hrange (hadd ▸ h)
  exact ⟨rfl, hfits⟩

/-- Only opposite numbers of the format add up to zero. -/
theorem add_toRat_eq_zero (hrange : ctx.etiny ≤ ctx.etop) (hprec : 0 < ctx.prec) {x y z : Decimal}
    (hx : x.isFinite) (hy : y.isFinite) (hfx : ctx.Fits x.toRat) (hfy : ctx.Fits y.toRat)
    (h : add ctx x y = .ok z) : z.toRat = 0 ↔ x.toRat + y.toRat = 0 := by
  constructor
  · intro hzero
    obtain ⟨m, hm⟩ := hfx.exists_int
    obtain ⟨n, hn⟩ := hfy.exists_int
    obtain ⟨s, c, e, hadd, hval⟩ := @add_finite ctx x y hx hy
    have hsum : (finite (decide (m + n < 0)) (m + n).natAbs ctx.etiny).toRat =
        x.toRat + y.toRat := by
      rw [toRat, PyText.signed_natAbs, hm, hn]
      push_cast
      ring
    have hfix := @Context.fix_congr ctx _ _ _ _ _ _ (hsum.trans hval.symm)
    rw [← hadd, h] at hfix
    rw [← hsum, toRat_eq_zero]
    by_contra hne
    cases hz : ctx.fix (decide (m + n < 0)) (m + n).natAbs ctx.etiny with
    | error err =>
      rw [hz] at hfix
      cases hfix
    | ok z' =>
      rw [hz] at hfix
      exact Context.fix_ne_zero hprec hne le_rfl hz ((Except.ok.inj hfix).trans hzero)
  · intro hzero
    have hfits : ctx.Fits (x.toRat + y.toRat) := hzero ▸ Context.fits_zero hrange
    obtain ⟨z', hadd, -, hval⟩ := add_of_fits hx hy hfits
    cases h.symm.trans hadd
    exact hval.trans hzero

theorem copyNegate_isFinite (x : Decimal) : x.copyNegate.isFinite = x.isFinite := by
  cases x <;> rfl

theorem toRat_copyNegate (x : Decimal) : x.copyNegate.toRat = -x.toRat := by
  cases x with
  | finite s c e => cases s <;> simp [copyNegate, toRat, PyText.signed]
  | infinity s => simp [copyNegate, toRat]
  | nan s g d => simp [copyNegate, toRat]

theorem sub_finite {x y : Decimal} (hx : x.isFinite) (hy : y.isFinite) :
    sub ctx x y = add ctx x y.copyNegate := by
  cases x with
  | infinity s => cases hx
  | nan s g d => cases hx
  | finite s₁ c₁ e₁ =>
    cases y with
    | infinity s => cases hy
    | nan s g d => cases hy
    | finite s₂ c₂ e₂ => rfl

theorem mul_fits (hrange : ctx.etiny ≤ ctx.etop) {x y z : Decimal} (hx : x.isFinite)
    (hy : y.isFinite) (h : mul ctx x y = .ok z) : z.isFinite ∧ ctx.Fits z.toRat := by
  cases x with
  | infinity s => cases hx
  | nan s g d => cases hx
  | finite s₁ c₁ e₁ =>
    cases y with
    | infinity s => cases hy
    | nan s g d => cases hy
    | finite s₂ c₂ e₂ =>
      obtain ⟨⟨q, f, rfl⟩, hfits⟩ := Context.fix_fits hrange h
      exact ⟨rfl, hfits⟩

/-- A comparison of finite numbers compares their exact values. -/
theorem compareValue_finite {x y : Decimal} (hx : x.isFinite) (hy : y.isFinite) :
    compareValue x y = compare x.toRat y.toRat := by
  cases x with
  | infinity s => cases hx
  | nan s g d => cases hx
  | finite s₁ c₁ e₁ =>
    cases y with
    | infinity s => cases hy
    | nan s g d => cases hy
    | finite s₂ c₂ e₂ =>
      have hpow : (0 : ℚ) < (10 : ℚ) ^ min e₁ e₂ := by positivity
      rw [compareValue, toRat, toRat, ← scaled_mul_pow s₁ c₁ (min_le_left e₁ e₂),
        ← scaled_mul_pow s₂ c₂ (min_le_right e₁ e₂)]
      generalize scaled (min e₁ e₂) s₁ c₁ e₁ = m
      generalize scaled (min e₁ e₂) s₂ c₂ e₂ = n
      rcases lt_trichotomy m n with h | h | h
      · rw [compare_lt_iff_lt.mpr h, compare_lt_iff_lt.mpr]
        exact mul_lt_mul_of_pos_right (by exact_mod_cast h) hpow
      · rw [h, compare_eq_iff_eq.mpr rfl, compare_eq_iff_eq.mpr rfl]
      · rw [compare_gt_iff_gt.mpr h, compare_gt_iff_gt.mpr]
        exact mul_lt_mul_of_pos_right (by exact_mod_cast h) hpow

theorem not_nan_of_isFinite {x : Decimal} (hx : x.isFinite) : x.isNan = false ∧ x.isSignaling = false := by
  cases x with
  | finite s c e => exact ⟨rfl, rfl⟩
  | infinity s => cases hx
  | nan s g d => cases hx

theorem eq_finite {x y : Decimal} (hx : x.isFinite) (hy : y.isFinite) :
    eq x y = .ok (decide (x.toRat = y.toRat)) := by
  unfold eq
  rw [(not_nan_of_isFinite hx).1, (not_nan_of_isFinite hx).2, (not_nan_of_isFinite hy).1,
    (not_nan_of_isFinite hy).2, compareValue_finite hx hy]
  by_cases h : x.toRat = y.toRat
  · simp [h]
  · simp [h]

theorem lt_finite {x y : Decimal} (hx : x.isFinite) (hy : y.isFinite) :
    lt x y = .ok (decide (x.toRat < y.toRat)) := by
  unfold lt
  rw [(not_nan_of_isFinite hx).1, (not_nan_of_isFinite hy).1, compareValue_finite hx hy]
  by_cases h : x.toRat < y.toRat
  · simp [h, compare_lt_iff_lt]
  · simp [h, compare_lt_iff_lt]

theorem le_finite {x y : Decimal} (hx : x.isFinite) (hy : y.isFinite) :
    le x y = .ok (decide (x.toRat ≤ y.toRat)) := by
  unfold le
  rw [(not_nan_of_isFinite hx).1, (not_nan_of_isFinite hy).1, compareValue_finite hx hy]
  by_cases h : x.toRat ≤ y.toRat
  · simp [h, compare_gt_iff_gt]
  · simp [h, compare_gt_iff_gt, not_le.mp h]

/-- The negation of a number that fits is exact. -/
theorem neg_of_fits {x : Decimal} (hx : x.isFinite) (h : ctx.Fits x.toRat) :
    ∃ z, neg ctx x = .ok z ∧ z.isFinite ∧ z.toRat = -x.toRat := by
  cases x with
  | infinity s => cases hx
  | nan s g d => cases hx
  | finite s c e =>
    have hsigned : (PyText.signed (if c = 0 then false else !s) c : ℚ) * (10 : ℚ) ^ e =
        -(finite s c e).toRat := by
      by_cases hc : c = 0
      · simp [hc, toRat, PyText.signed]
      · cases s <;> simp [hc, toRat, PyText.signed]
    have hneg := h.neg
    rw [← hsigned] at hneg
    obtain ⟨z, hfix, hz, hzval⟩ := Context.fix_of_fits hneg
    exact ⟨z, hfix, hz, hzval.trans hsigned⟩

/-- The negation of a positive number is not positive. -/
theorem neg_of_pos (hrange : ctx.etiny ≤ ctx.etop) {x z : Decimal} (hx : 0 < x.toRat)
    (h : neg ctx x = .ok z) : z.isFinite ∧ z.toRat ≤ 0 := by
  cases x with
  | infinity s => exact absurd hx (lt_irrefl 0)
  | nan s g d => exact absurd hx (lt_irrefl 0)
  | finite s c e =>
    have hc : c ≠ 0 := toRat_eq_zero.not.mp hx.ne'
    have hs : s = false := by
      cases s with
      | false => rfl
      | true => exact absurd ((toRat_neg_iff hc).mpr rfl) (not_lt.mpr hx.le)
    subst hs
    rw [neg, if_neg hc] at h
    obtain ⟨⟨q, f, rfl⟩, -⟩ := Context.fix_fits hrange h
    refine ⟨rfl, ?_⟩
    by_cases hq : q = 0
    · exact (toRat_eq_zero.mpr hq).le
    · exact ((toRat_neg_iff hq).mpr rfl).le

/-- A finite sum has finite terms. -/
theorem isFinite_of_add {x y z : Decimal} (h : add ctx x y = .ok z)
    (hz : z.isFinite) : x.isFinite ∧ y.isFinite := by
  cases x with
  | finite s₁ c₁ e₁ =>
    cases y with
    | finite s₂ c₂ e₂ => exact ⟨rfl, rfl⟩
    | infinity s =>
      cases h
      cases hz
    | nan s g d =>
      cases g with
      | true => cases h
      | false =>
        cases h
        cases hz
  | infinity s =>
    cases y with
    | finite s₂ c₂ e₂ =>
      cases h
      cases hz
    | infinity s₂ =>
      simp only [add, nanOperand] at h
      split_ifs at h
      cases h
      cases hz
    | nan s g d =>
      cases g with
      | true => cases h
      | false =>
        cases h
        cases hz
  | nan s g d =>
    cases g with
    | true => cases y <;> cases h
    | false =>
      cases y with
      | finite s₂ c₂ e₂ =>
        cases h
        cases hz
      | infinity s₂ =>
        cases h
        cases hz
      | nan s₂ g₂ d₂ =>
        cases g₂ with
        | true => cases h
        | false =>
          cases h
          cases hz

theorem isFinite_of_neg {x z : Decimal} (h : neg ctx x = .ok z)
    (hz : z.isFinite) : x.isFinite := by
  cases x with
  | finite s c e => rfl
  | infinity s =>
    cases h
    cases hz
  | nan s g d =>
    cases g with
    | true => cases h
    | false =>
      cases h
      cases hz

/-- Only a finite number equals zero. -/
theorem isFinite_of_eq_zero {x : Decimal} (h : eq x zero = .ok true) : x.isFinite := by
  cases x with
  | finite s c e => rfl
  | infinity s => cases s <;> exact absurd h (by decide)
  | nan s g d => cases g <;> cases h

end Decimal

end LlamaTrade
