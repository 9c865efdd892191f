import LlamaTrade.PrintedTokens
import Mathlib.Data.Nat.Factorization.Basic
import Mathlib.Tactic.FieldSimp
import Mathlib.Tactic.Ring

/-!
# Printed numbers

An exact decimal that is printed without an exponent is one number token, which is read back as the
same number. The exponent of any other number is read as a symbol after the number.
-/

namespace LlamaTrade

open PyText

/-- A number with finitely many decimal places. -/
def ExactDecimal (x : ℚ) : Prop := ∃ k : ℕ, x.den ∣ 10 ^ k

/-! ## Decimal places -/

theorem dvd_pow_of_dvd_pow {d k : ℕ} (hd : d ≠ 0) (h : d ∣ 10 ^ k) : d ∣ 10 ^ d := by
  rw [← Nat.factorization_le_iff_dvd hd (by positivity), Nat.factorization_pow]
  intro p
  rw [Finsupp.smul_apply, smul_eq_mul]
  by_cases hp : d.factorization p = 0
  · omega
  · have hprime : p.Prime := by
      by_contra hprime
      exact hp (Nat.factorization_eq_zero_of_not_prime d hprime)
    have hdvd : p ∣ 10 :=
      hprime.dvd_of_dvd_pow ((Nat.dvd_of_factorization_pos hp).trans h)
    have hten : 1 ≤ (10 : ℕ).factorization p :=
      (hprime.dvd_iff_one_le_factorization (by decide)).mp hdvd
    calc d.factorization p ≤ d := (Nat.factorization_lt p hd).le
      _ ≤ d * (10 : ℕ).factorization p := Nat.le_mul_of_pos_right d hten

theorem dvd_placesFrom {d : ℕ} {fuel k : ℕ} (h : d ∣ 10 ^ (k + fuel)) :
    d ∣ 10 ^ placesFrom d fuel k := by
  induction fuel generalizing k with
  | zero => exact h
  | succ fuel ih =>
    rw [placesFrom]
    split_ifs with hk
    · exact hk
    · exact ih (by rwa [Nat.add_assoc, Nat.add_comm 1])

variable {x : ℚ}

theorem den_dvd_places (h : ExactDecimal x) : x.den ∣ 10 ^ decimalPlaces x := by
  obtain ⟨k, hk⟩ := h
  exact dvd_placesFrom (by simpa using dvd_pow_of_dvd_pow x.den_nz hk)

theorem places_pos (h : ExactDecimal x) (hden : x.den ≠ 1) : 0 < decimalPlaces x := by
  by_contra hzero
  have hdvd := den_dvd_places h
  rw [Nat.eq_zero_of_not_pos hzero, pow_zero, Nat.dvd_one] at hdvd
  exact hden hdvd

/-- The digits of a decimal are its magnitude without the point. -/
theorem decimalDigits_div (h : ExactDecimal x) :
    (decimalDigits x : ℚ) / 10 ^ decimalPlaces x = |x| := by
  obtain ⟨m, hm⟩ := den_dvd_places h
  have hden : (x.den : ℚ) ≠ 0 := by exact_mod_cast x.den_nz
  have hpow : (10 : ℚ) ^ decimalPlaces x = x.den * m := by exact_mod_cast hm
  have hm0 : (m : ℚ) ≠ 0 := by
    intro hzero
    rw [hzero, mul_zero] at hpow
    exact absurd hpow (by positivity)
  have hdigits : decimalDigits x = x.num.natAbs * m := by
    rw [decimalDigits, hm, Nat.mul_div_cancel_left _ x.den_pos]
  rw [hdigits, hpow, Nat.cast_mul, mul_div_mul_right _ _ hm0, Rat.abs_def, Rat.divInt_eq_div]
  norm_cast

/-! ## Reading a number -/

theorem ofDigits_append (ds fs : List ℕ) :
    ofDigits (ds ++ fs) = ofDigits ds * 10 ^ fs.length + ofDigits fs := by
  induction fs using List.reverseRecOn with
  | nil => simp [ofDigits]
  | append_singleton fs f ih =>
    rw [← List.append_assoc, ofDigits_append_singleton, ofDigits_append_singleton, ih,
      List.length_append, List.length_singleton, pow_succ]
    ring

theorem takeDigits_zeroPadded {width n : ℕ} (h : n < 10 ^ width) (hwidth : 0 < width) :
    ∃ fs, takeDigits (zeroPadded width (Nat.toDigits 10 n)) = (fs, []) ∧ fs.length = width ∧
      ofDigits fs = n := by
  have hlen : (Nat.toDigits 10 n).length ≤ width :=
    (Nat.length_toDigits_le_iff (by decide) hwidth).mpr h
  have hzeros : ∀ k : ℕ, takeDigits (List.replicate k '0') = (List.replicate k 0, []) := by
    intro k
    induction k with
    | zero => rfl
    | succ k ih =>
      have hzero : digitValue '0' = some 0 := by decide
      simp [List.replicate_succ, takeDigits, hzero, ih]
  refine ⟨List.replicate (width - (Nat.toDigits 10 n).length) 0 ++ digitValues n, ?_, ?_, ?_⟩
  · rw [zeroPadded, takeDigits_append_of_all, hzeros, takeDigits_toDigits]
    intro c hc
    rw [List.eq_of_mem_replicate hc]
    decide
  · rw [List.length_append, List.length_replicate, length_digitValues]
    omega
  · rw [ofDigits_replicate_zero_append, ofDigits_digitValues]

/-- The number of a text in which the digits are split by a point. -/
theorem readFloat_of_digits {text : String} {negative : Bool} {cs rest : List Char}
    {ds fs : List ℕ} (hsign : takeSign text.toList = (negative, cs))
    (hdigits : takeDigits cs = (ds, rest)) (hdecimals : (takeDigits rest.tail).1 = fs) :
    readFloat text = (if negative then -1 else 1) *
      ((ofDigits ds * 10 ^ fs.length + ofDigits fs : ℕ) / 10 ^ fs.length) := by
  simp only [readFloat, hsign, hdigits, hdecimals, ofDigits_append]
  cases negative <;> simp

theorem takeSign_signed (negative : Bool) (n : ℕ) (rest : List Char) :
    takeSign ((if negative then ['-'] else []) ++ (Nat.toDigits 10 n ++ rest)) =
      (negative, Nat.toDigits 10 n ++ rest) := by
  cases negative with
  | true => rfl
  | false =>
    cases hds : Nat.toDigits 10 n with
    | nil => exact absurd hds Nat.toDigits_ne_nil
    | cons c cs =>
      exact takeSign_digit (cs ++ rest)
        (isSome_digitValue_of_mem_toDigits (n := n) (by simp [hds]))

theorem readFloat_intText (n : ℤ) : readFloat (intText n) = n := by
  have hsign : takeSign (intText n).toList = (decide (n < 0), Nat.toDigits 10 n.natAbs) := by
    rw [intText, String.toList_ofList, intChars]
    have h := takeSign_signed (decide (n < 0)) n.natAbs []
    simpa using h
  have hdecimals : (takeDigits ([] : List Char).tail).1 = [] := rfl
  have hnil : ofDigits [] = 0 := rfl
  rw [readFloat_of_digits hsign (takeDigits_toDigits _) hdecimals, ofDigits_digitValues, hnil,
    List.length_nil, pow_zero, pow_zero, mul_one, add_zero, div_one, Nat.cast_natAbs]
  by_cases hn : n < 0
  · simp [hn, abs_of_neg]
  · simp [hn, abs_of_nonneg (not_lt.mp hn)]

theorem readFloat_plainChars (h : ExactDecimal x) (hden : x.den ≠ 1) :
    readFloat (String.ofList (plainChars x)) = x := by
  obtain ⟨fs, htake, hlen, hfs⟩ := takeDigits_zeroPadded
    (Nat.mod_lt (decimalDigits x) (Nat.pow_pos (n := decimalPlaces x) (by decide : 0 < 10)))
    (places_pos h hden)
  have hsign : takeSign (String.ofList (plainChars x)).toList =
      (decide (x < 0), wholeChars x ++ '.' :: fractionChars x) := by
    have hsigned := takeSign_signed (decide (x < 0)) (decimalDigits x / 10 ^ decimalPlaces x)
      ('.' :: fractionChars x)
    simpa [plainChars, signChars, wholeChars] using hsigned
  have hdecimals : (takeDigits ('.' :: fractionChars x).tail).1 = fs := by
    rw [List.tail_cons, fractionChars, htake]
  rw [readFloat_of_digits hsign (takeDigits_toDigits_append _ rfl) hdecimals, hlen, hfs,
    ofDigits_digitValues, Nat.div_add_mod', decimalDigits_div h]
  by_cases hx : x < 0
  · simp [hx, abs_of_neg]
  · simp [hx, abs_of_nonneg (not_lt.mp hx)]

/-! ## Tokens of a number -/

theorem isDigit_of_mem_toDigits {c : Char} {n : ℕ} (h : c ∈ Nat.toDigits 10 n) : c.isDigit :=
  Nat.isDigit_of_mem_toDigits (by decide) (by decide) h

theorem isDigit_of_mem_zeroPadded {c : Char} {width n : ℕ}
    (h : c ∈ zeroPadded width (Nat.toDigits 10 n)) : c.isDigit := by
  rcases List.mem_append.mp h with h | h
  · rw [List.eq_of_mem_replicate h]
    decide
  · exact isDigit_of_mem_toDigits h

theorem takeWhile_of_head {p : Char → Bool} {cs : List Char} (h : ∀ c ∈ cs.head?, p c = false) :
    cs.takeWhile p = [] ∧ cs.dropWhile p = cs := by
  cases cs with
  | nil => exact ⟨rfl, rfl⟩
  | cons c cs => simp [h c rfl]

theorem matchUnsigned_digits {ds : List Char} (hne : ds ≠ []) (hds : ∀ c ∈ ds, c.isDigit)
    {rest : List Char} (hrest : ∀ c ∈ rest.head?, c.isDigit = false) :
    matchUnsigned (ds ++ rest) = some (ds ++ (matchFraction rest).1, (matchFraction rest).2) := by
  cases ds with
  | nil => exact absurd rfl hne
  | cons d ds =>
    have htail : ∀ c ∈ ds, c.isDigit := fun c hc => hds c (List.mem_cons_of_mem _ hc)
    obtain ⟨htake, hdrop⟩ := takeWhile_of_head hrest
    rw [List.cons_append, matchUnsigned, if_pos (hds d (List.mem_cons_self ..)),
      List.takeWhile_append_of_pos htail, List.dropWhile_append_of_pos htail, htake, hdrop]
    simp

/-- A number token at the front of a text. -/
theorem lexOne_number (negative : Bool) {ds : List Char} (hne : ds ≠ [])
    (hds : ∀ c ∈ ds, c.isDigit) {rest : List Char} (hrest : ∀ c ∈ rest.head?, c.isDigit = false) :
    lexOne ((if negative then ['-'] else []) ++ (ds ++ rest)) =
      some (.token (.number (String.ofList
        ((if negative then ['-'] else []) ++ (ds ++ (matchFraction rest).1)))),
        (matchFraction rest).2) := by
  have hunsigned := matchUnsigned_digits hne hds hrest
  cases negative with
  | true =>
    simp [lexOne, matchChar, matchString, matchKeyword, matchNumber, hunsigned, Matched.to, tokenOf]
  | false =>
    cases ds with
    | nil => exact absurd rfl hne
    | cons d ds =>
      have hd := hds d (List.mem_cons_self ..)
      have hdne : ∀ x : Char, x.isDigit = false → d ≠ x := by
        rintro x hx rfl
        rw [hx] at hd
        cases hd
      rw [List.cons_append] at hunsigned
      simp [lexOne, matchChar, hdne '(' (by decide), hdne ')' (by decide), matchString,
        hdne '"' (by decide), matchKeyword, hdne ':' (by decide), matchNumber, hdne '-' (by decide),
        hunsigned, Matched.to, tokenOf]

theorem matchFraction_digits {ds : List Char} (hds : ∀ c ∈ ds, c.isDigit) {rest : List Char}
    (hrest : ∀ c ∈ rest.head?, c.isDigit = false) :
    matchFraction ('.' :: (ds ++ rest)) = ('.' :: ds, rest) := by
  obtain ⟨htake, hdrop⟩ := takeWhile_of_head hrest
  rw [matchFraction, if_pos rfl, List.takeWhile_append_of_pos hds,
    List.dropWhile_append_of_pos hds, htake, hdrop, List.append_nil]

theorem tokenize_intText (n : ℤ) : tokenize (intText n).toList = [.number (intText n)] := by
  have htext : (intText n).toList =
      (if decide (n < 0) then ['-'] else []) ++ (Nat.toDigits 10 n.natAbs ++ []) := by
    simp [intText, intChars]
  have hone : lexOne (intText n).toList = some (.token (.number (intText n)), []) := by
    rw [htext, lexOne_number _ Nat.toDigits_ne_nil (fun c hc => isDigit_of_mem_toDigits hc)
      (by simp)]
    simp [matchFraction, intText, intChars]
  exact tokenize_of_lexOne hone

theorem isDigit_of_mem_wholeChars (x : ℚ) : ∀ c ∈ wholeChars x, c.isDigit :=
  fun _ hc => isDigit_of_mem_toDigits hc

theorem isDigit_of_mem_fractionChars (x : ℚ) : ∀ c ∈ fractionChars x, c.isDigit :=
  fun _ hc => isDigit_of_mem_zeroPadded hc

theorem wholeChars_ne_nil (x : ℚ) : wholeChars x ≠ [] := Nat.toDigits_ne_nil

theorem signChars_eq (x : ℚ) : signChars x = if decide (x < 0) then ['-'] else [] := by
  simp [signChars]

theorem not_isDigit_head {c : Char} (hc : c.isDigit = false) (cs : List Char) :
    ∀ d ∈ (c :: cs).head?, d.isDigit = false := by
  rintro _ ⟨⟩
  exact hc

theorem tokenize_plainChars (x : ℚ) :
    tokenize (plainChars x) = [.number (String.ofList (plainChars x))] := by
  have hfraction : matchFraction ('.' :: fractionChars x) = ('.' :: fractionChars x, []) := by
    have h := matchFraction_digits (isDigit_of_mem_fractionChars x)
      (show ∀ c ∈ ([] : List Char).head?, c.isDigit = false by simp)
    rwa [List.append_nil] at h
  have hone := lexOne_number (decide (x < 0)) (wholeChars_ne_nil x) (isDigit_of_mem_wholeChars x)
    (not_isDigit_head (by decide) (fractionChars x) : ∀ c ∈ ('.' :: fractionChars x).head?, _)
  rw [hfraction, ← signChars_eq, ← plainChars] at hone
  exact tokenize_of_lexOne hone

theorem tokenize_e (cs : List Char) : ∃ symbol ts, tokenize ('e' :: cs) = .symbol symbol :: ts := by
  have hone : lexOne ('e' :: cs) = some (tokenOf .symbol ('e' :: cs.takeWhile isNameChar),
      cs.dropWhile isNameChar) := by
    rfl
  exact ⟨_, _, tokenize_of_lexOne hone⟩

/-- The exponent of a number is read as a symbol. -/
theorem tokenize_exponentChars (x : ℚ) :
    ∃ number symbol ts, tokenize (exponentChars x) = .number number :: .symbol symbol :: ts := by
  have hds : ∀ c ∈ Nat.toDigits 10 (decimalDigits x), c.isDigit :=
    fun c hc => isDigit_of_mem_toDigits hc
  have hne : (Nat.toDigits 10 (decimalDigits x)).take 1 ≠ [] := by simp [Nat.toDigits_ne_nil]
  have htake : ∀ c ∈ (Nat.toDigits 10 (decimalDigits x)).take 1, c.isDigit :=
    fun c hc => hds c (List.mem_of_mem_take hc)
  simp only [exponentChars, signChars_eq]
  generalize ((Nat.toDigits 10 (decimalDigits x)).length - 1 - decimalPlaces x : ℤ) = exponent
  obtain ⟨symbol, ts, hsymbol⟩ : ∃ symbol ts,
      tokenize (exponentPart exponent) = .symbol symbol :: ts := tokenize_e _
  have hhead : ∀ c ∈ (exponentPart exponent).head?, c.isDigit = false :=
    not_isDigit_head (by decide) _
  by_cases hlen : (Nat.toDigits 10 (decimalDigits x)).length = 1
  · rw [if_pos hlen, List.nil_append,
      tokenize_of_lexOne (lexOne_number _ hne htake hhead)]
    exact ⟨_, symbol, ts, congrArg _ hsymbol⟩
  · rw [if_neg hlen, List.cons_append,
      tokenize_of_lexOne (lexOne_number _ hne htake (not_isDigit_head (by decide) _)),
      matchFraction_digits (fun c hc => hds c (List.mem_of_mem_drop hc)) hhead]
    exact ⟨_, symbol, ts, congrArg _ hsymbol⟩

/-! ## Printed numbers -/

/-- The tokens of a printed number. -/
def numberTokens (x : ℚ) : List Token := tokenize (formatWeight x).toList

/-- The characters of numbers. -/
def isNumeral (c : Char) : Bool := c.isDigit || c ∈ ['-', '+', '.', 'e']

theorem isNumeral_formatWeight (x : ℚ) : ∀ c ∈ (formatWeight x).toList, isNumeral c := by
  have hdigit : ∀ c : Char, c.isDigit → isNumeral c := fun c hc => by simp [isNumeral, hc]
  have hsign : ∀ c ∈ signChars x, isNumeral c := by
    intro c hc
    unfold signChars at hc
    split_ifs at hc
    · rw [List.mem_singleton.mp hc]
      decide
    · simp at hc
  intro c hc
  unfold formatWeight at hc
  split_ifs at hc
  · rw [intText, String.toList_ofList] at hc
    rcases mem_intChars hc with rfl | hc
    · decide
    · exact hdigit c (isDigit_of_mem_toDigits hc)
  · rw [floatText, String.toList_ofList] at hc
    split_ifs at hc
    · simp only [plainChars, List.mem_append, List.mem_cons] at hc
      obtain hc | hc | rfl | hc := hc
      · exact hsign c hc
      · exact hdigit c (isDigit_of_mem_wholeChars x c hc)
      · decide
      · exact hdigit c (isDigit_of_mem_fractionChars x c hc)
    · simp only [exponentChars, exponentPart, List.mem_append, List.mem_cons] at hc
      obtain hc | hc | hc | rfl | hc | hc := hc
      · exact hsign c hc
      · exact hdigit c (isDigit_of_mem_toDigits (List.mem_of_mem_take hc))
      · split_ifs at hc
        · simp at hc
        · rcases List.mem_cons.mp hc with rfl | hc
          · decide
          · exact hdigit c (isDigit_of_mem_toDigits (List.mem_of_mem_drop hc))
      · decide
      · rw [hc]
        split_ifs <;> decide
      · exact hdigit c (isDigit_of_mem_zeroPadded hc)

theorem clean_formatWeight (x : ℚ) : Clean (formatWeight x).toList := by
  intro c hc
  have hnumeral := isNumeral_formatWeight x c hc
  have hne : ∀ d, isNumeral d = false → c ≠ d := by
    rintro d hd rfl
    rw [hd] at hnumeral
    cases hnumeral
  refine ⟨hne _ (by decide), hne _ (by decide), fun hspace => ?_⟩
  simp only [isNumeral, Bool.or_eq_true, decide_eq_true_eq, List.mem_cons, List.not_mem_nil,
    or_false] at hnumeral
  rcases hnumeral with hdigit | rfl | rfl | rfl | rfl
  · have halphanum := not_isAlphanum_of_isSpace hspace
    simp [Char.isAlphanum, hdigit] at halphanum
  all_goals exact absurd hspace (by decide)

theorem prints_formatWeight (x : ℚ) : Prints (formatWeight x) (numberTokens x) :=
  prints_of_clean (clean_formatWeight x)

theorem formatWeight_intCast (n : ℤ) : formatWeight n = intText n := by simp [formatWeight]

theorem prints_intText (n : ℤ) : Prints (intText n) [.number (intText n)] := by
  have h := prints_formatWeight n
  rwa [numberTokens, formatWeight_intCast, tokenize_intText] at h

/-- The number is printed without an exponent. -/
def NoExponent (x : ℚ) : Prop := x.den = 1 ∨ WrittenOut x

theorem numberTokens_of_noExponent (h : NoExponent x) :
    numberTokens x = [.number (formatWeight x)] := by
  unfold numberTokens formatWeight
  split_ifs with hden
  · exact tokenize_intText x.num
  · rw [floatText, if_pos (h.resolve_left hden), String.toList_ofList, tokenize_plainChars]

theorem numberTokens_of_exponent (h : ¬NoExponent x) :
    ∃ number symbol ts, numberTokens x = .number number :: .symbol symbol :: ts := by
  rw [NoExponent, not_or] at h
  rw [numberTokens, formatWeight, if_neg h.1, floatText, if_neg h.2, String.toList_ofList]
  exact tokenize_exponentChars x

theorem readFloat_formatWeight (hdecimal : ExactDecimal x) (h : NoExponent x) :
    readFloat (formatWeight x) = x := by
  unfold formatWeight
  split_ifs with hden
  · rw [readFloat_intText, Rat.coe_int_num_of_den_eq_one hden]
  · rw [floatText, if_pos (h.resolve_left hden), readFloat_plainChars hdecimal hden]

theorem readInt_intText (n : ℤ) : readInt (intText n) = .ok n := by simp [readInt]

end LlamaTrade
