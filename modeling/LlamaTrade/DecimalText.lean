import LlamaTrade.DecimalNumber
import Mathlib.Tactic.FinCases

/-!
# The text of a decimal number

`Decimal.text` is `str(d)`: plain notation when the exponent is at most zero and
the number is not too small, scientific notation otherwise. `Decimal.ofText` is
the constructor `Decimal(text)`, which keeps every digit: white space around the
number and underscores are dropped, letters are read in either case. The bounds
that a 64-bit build puts on the exponent of a literal are not modelled. The main
result is that every number, special values included, is read back exactly.
-/

namespace LlamaTrade.Decimal

open PyText

def exponentText (x : ℤ) : List Char :=
  'E' :: (if x < 0 then '-' else '+') :: Nat.toDigits 10 x.natAbs

def numberText (int frac : List Char) (exponent : Option ℤ) : List Char :=
  int ++ (if frac = [] then [] else '.' :: frac) ++ (exponent.elim [] exponentText)

/-- Where the point of the printed mantissa stands, counted in digits of the
coefficient: in front of the exponent's units, or after the first digit. -/
def dotPlace (c : ℕ) (e : ℤ) : ℤ :=
  let left := e + (Nat.toDigits 10 c).length
  if e ≤ 0 ∧ -6 < left then left else 1

def intPart (c : ℕ) (e : ℤ) : List Char :=
  let ds := Nat.toDigits 10 c
  if dotPlace c e ≤ 0 then ['0']
  else if (ds.length : ℤ) ≤ dotPlace c e then
    ds ++ List.replicate (dotPlace c e - ds.length).toNat '0'
  else ds.take (dotPlace c e).toNat

def fracPart (c : ℕ) (e : ℤ) : List Char :=
  let ds := Nat.toDigits 10 c
  if dotPlace c e ≤ 0 then List.replicate (-dotPlace c e).toNat '0' ++ ds
  else if (ds.length : ℤ) ≤ dotPlace c e then []
  else ds.drop (dotPlace c e).toNat

def exponentPart (c : ℕ) (e : ℤ) : Option ℤ :=
  let left := e + (Nat.toDigits 10 c).length
  if left = dotPlace c e then none else some (left - dotPlace c e)

def signText (s : Bool) : List Char := if s then ['-'] else []

def textChars : Decimal → List Char
  | finite s c e => signText s ++ numberText (intPart c e) (fracPart c e) (exponentPart c e)
  | infinity s => signText s ++ "Infinity".toList
  | nan s g d =>
    signText s ++ (if g then "sNaN".toList else "NaN".toList) ++
      (if d = 0 then [] else Nat.toDigits 10 d)

def text (d : Decimal) : String := String.ofList d.textChars

def diagnostic (s g : Bool) (cs : List Char) : Option Decimal :=
  match takeDigits cs with
  | (ds, []) => some (nan s g (ofDigits ds))
  | (_, _ :: _) => none

def special (s : Bool) (cs : List Char) : Option Decimal :=
  let low := cs.map Char.toLower
  if low = "inf".toList ∨ low = "infinity".toList then some (infinity s)
  else if low.take 3 = "nan".toList then diagnostic s false (cs.drop 3)
  else if low.take 4 = "snan".toList then diagnostic s true (cs.drop 4)
  else none

/-- The digits after an optional point, and what follows them. -/
def takeFraction : List Char → List ℕ × List Char
  | '.' :: cs => takeDigits cs
  | cs => ([], cs)

def takeExponent : List Char → Option ℤ
  | [] => some 0
  | c :: cs => if c = 'E' ∨ c = 'e' then plainInt cs else none

def parseUnsigned (s : Bool) (cs : List Char) : Option Decimal :=
  let int := takeDigits cs
  let frac := takeFraction int.2
  if int.1 = [] ∧ frac.1 = [] then special s cs
  else (takeExponent frac.2).map fun x =>
    finite s (ofDigits (int.1 ++ frac.1)) (x - frac.1.length)

def parseChars (cs : List Char) : Option Decimal :=
  parseUnsigned (takeSign cs).1 (takeSign cs).2

def ofText (s : String) : Option Decimal :=
  parseChars ((strip s.toList).filter (· != '_'))

/-- `Decimal(n)` of an integer. -/
def ofInt (n : ℤ) : Decimal := finite (decide (n < 0)) n.natAbs 0

/-! ## Printed numbers read back -/

private def Digits (cs : List Char) : Prop := ∀ c ∈ cs, (digitValue c).isSome

private theorem digits_toDigits (n : ℕ) : Digits (Nat.toDigits 10 n) :=
  fun _ hc => isSome_digitValue_of_mem_toDigits hc

private theorem digits_zeros (n : ℕ) : Digits (List.replicate n '0') := by
  intro c hc
  rw [List.eq_of_mem_replicate hc]
  decide

private theorem takeDigits_zeros (n : ℕ) :
    (takeDigits (List.replicate n '0')).1 = List.replicate n 0 := by
  have hzero : digitValue '0' = some 0 := by decide
  induction n with
  | zero => rfl
  | succ n ih => simp [List.replicate_succ, takeDigits, hzero, ih]

private theorem digits_intPart (c : ℕ) (e : ℤ) : Digits (intPart c e) := by
  intro x hx
  simp only [intPart] at hx
  split_ifs at hx
  · exact digits_zeros 1 x (by simpa using hx)
  · rcases List.mem_append.mp hx with hx | hx
    · exact digits_toDigits c x hx
    · exact digits_zeros _ x hx
  · exact digits_toDigits c x (List.mem_of_mem_take hx)

private theorem digits_fracPart (c : ℕ) (e : ℤ) : Digits (fracPart c e) := by
  intro x hx
  simp only [fracPart] at hx
  split_ifs at hx
  · rcases List.mem_append.mp hx with hx | hx
    · exact digits_zeros _ x hx
    · exact digits_toDigits c x hx
  · simp at hx
  · exact digits_toDigits c x (List.mem_of_mem_drop hx)

private theorem takeExponent_exponentText (x : ℤ) : takeExponent (exponentText x) = some x := by
  have hval : plainInt ((if x < 0 then '-' else '+') :: Nat.toDigits 10 x.natAbs) = some x := by
    by_cases hx : x < 0
    · rw [if_pos hx, plainInt_of_takeSign (b := true) rfl]
      simp only [signed, if_true, Option.some.injEq]
      omega
    · rw [if_neg hx, plainInt_of_takeSign (b := false) rfl]
      simp only [signed, Bool.false_eq_true, if_false, Option.some.injEq]
      omega
  simpa [takeExponent, exponentText] using hval

private theorem takeExponent_elim (x : Option ℤ) :
    takeExponent (x.elim [] exponentText) = some (x.getD 0) := by
  cases x with
  | none => rfl
  | some x => exact takeExponent_exponentText x

private theorem head_elim (x : Option ℤ) :
    (x.elim [] exponentText).head?.all fun c => (digitValue c).isNone := by
  cases x with
  | none => rfl
  | some x => exact (by decide : (digitValue 'E').isNone)

private theorem takeFraction_elim (x : Option ℤ) :
    takeFraction (x.elim [] exponentText) = ([], x.elim [] exponentText) := by
  cases x <;> rfl

private theorem parseUnsigned_numberText (s : Bool) {int frac : List Char} (x : Option ℤ)
    (hint : Digits int) (hfrac : Digits frac) (hne : int ≠ []) :
    parseUnsigned s (numberText int frac x) =
      some (finite s (ofDigits ((takeDigits int).1 ++ (takeDigits frac).1))
        (x.getD 0 - frac.length)) := by
  have hvals : (takeDigits int).1 ≠ [] := by
    intro hnil
    have hlen := takeDigits_length_of_all hint
    rw [hnil] at hlen
    exact hne (List.eq_nil_of_length_eq_zero hlen.symm)
  have hlen := takeDigits_length_of_all hfrac
  by_cases hf : frac = []
  · subst hf
    have htake : takeDigits (int ++ x.elim [] exponentText) =
        ((takeDigits int).1, x.elim [] exponentText) := by
      rw [takeDigits_append_of_all _ hint, takeDigits_stop (head_elim x), List.append_nil]
    simp [numberText, parseUnsigned, htake, takeFraction_elim, takeExponent_elim, hvals, takeDigits]
  · have hdot : (digitValue '.').isNone := by decide
    have htake : takeDigits (int ++ '.' :: (frac ++ x.elim [] exponentText)) =
        ((takeDigits int).1, '.' :: (frac ++ x.elim [] exponentText)) := by
      have hstop : takeDigits ('.' :: (frac ++ x.elim [] exponentText)) =
          ([], '.' :: (frac ++ x.elim [] exponentText)) := takeDigits_stop hdot
      rw [takeDigits_append_of_all _ hint, hstop, List.append_nil]
    have hfractake : takeFraction ('.' :: (frac ++ x.elim [] exponentText)) =
        ((takeDigits frac).1, x.elim [] exponentText) := by
      change takeDigits (frac ++ x.elim [] exponentText) = _
      rw [takeDigits_append_of_all _ hfrac, takeDigits_stop (head_elim x), List.append_nil]
    simp [numberText, hf, parseUnsigned, htake, hfractake, takeExponent_elim, hvals, hlen]

/-- The printed digits are those of the coefficient behind some zeros, and the
printed exponent makes up for the digits after the point. -/
private theorem layout_spec (c : ℕ) (e : ℤ) :
    ofDigits ((takeDigits (intPart c e)).1 ++ (takeDigits (fracPart c e)).1) = c ∧
      (exponentPart c e).getD 0 - (fracPart c e).length = e ∧ intPart c e ≠ [] := by
  set ds := Nat.toDigits 10 c with hds
  have hpos : 0 < ds.length := Nat.length_toDigits_pos
  have hvalues : (takeDigits ds).1 = digitValues c := rfl
  have hdot : dotPlace c e = if e ≤ 0 ∧ -6 < e + ds.length then e + (ds.length : ℤ) else 1 := rfl
  by_cases hneg : dotPlace c e ≤ 0
  · have hplain : e ≤ 0 ∧ -6 < e + (ds.length : ℤ) := by
      by_contra h
      rw [hdot, if_neg h] at hneg
      omega
    rw [if_pos hplain] at hdot
    have hzeros : (takeDigits (List.replicate (-dotPlace c e).toNat '0' ++ ds)).1 =
        List.replicate (-dotPlace c e).toNat 0 ++ digitValues c := by
      rw [takeDigits_append_of_all _ (digits_zeros _), takeDigits_zeros, hvalues]
    have hint : (takeDigits ['0']).1 = [0] := by decide
    simp only [intPart, fracPart, exponentPart, if_pos hneg, ← hds, hzeros, hint]
    refine ⟨?_, ?_, by simp⟩
    · have h := ofDigits_replicate_zero_append ((-dotPlace c e).toNat + 1) (digitValues c)
      rw [List.replicate_succ, List.cons_append, ofDigits_digitValues] at h
      simpa using h
    · rw [if_pos hdot.symm]
      simp only [Option.getD_none, List.length_append, List.length_replicate]
      push_cast
      omega
  · by_cases hall : (ds.length : ℤ) ≤ dotPlace c e
    · have hpad : (dotPlace c e - ds.length).toNat = 0 := by
        rw [hdot] at hall ⊢
        split_ifs at hall ⊢ <;> omega
      simp only [intPart, fracPart, exponentPart, if_neg hneg, if_pos hall, ← hds, hpad]
      refine ⟨by simp [takeDigits, hvalues], ?_, by simpa using List.ne_nil_of_length_pos hpos⟩
      rw [hdot] at hall ⊢
      split_ifs at hall ⊢ <;> simp <;> omega
    · simp only [intPart, fracPart, exponentPart, if_neg hneg, if_neg hall, ← hds]
      have hsplit : (takeDigits (ds.take (dotPlace c e).toNat)).1 ++
          (takeDigits (ds.drop (dotPlace c e).toNat)).1 = digitValues c := by
        have htake : Digits (ds.take (dotPlace c e).toNat) :=
          fun x hx => digits_toDigits c x (List.mem_of_mem_take hx)
        have h := takeDigits_append_of_all (ds.drop (dotPlace c e).toNat) htake
        rw [List.take_append_drop] at h
        exact (congrArg Prod.fst h).symm.trans hvalues
      refine ⟨by rw [hsplit, ofDigits_digitValues], ?_, ?_⟩
      · simp only [List.length_drop]
        rw [hdot] at hall hneg ⊢
        split_ifs at hall hneg ⊢ <;> simp <;> omega
      · apply List.ne_nil_of_length_pos
        rw [List.length_take]
        omega

/-- Characters that `ofText` leaves alone. -/
private def Plain (c : Char) : Prop := isSpace c = false ∧ (c != '_') = true

private theorem plain_of_digit {c : Char} {n : ℕ} (h : c ∈ Nat.toDigits 10 n) : Plain c :=
  ⟨not_isSpace_of_mem_toDigits h, by simpa using ne_of_mem_toDigits h (by decide : _)⟩

private theorem plain_signText (s : Bool) : ∀ c ∈ signText s, Plain c := by
  intro c hc
  cases s
  · simp [signText] at hc
  · have : c = '-' := by simpa [signText] using hc
    subst this
    exact ⟨by decide, by decide⟩

private theorem plain_zeros (n : ℕ) : ∀ c ∈ List.replicate n '0', Plain c := by
  intro c hc
  rw [List.eq_of_mem_replicate hc]
  exact ⟨by decide, by decide⟩

private theorem plain_intPart (c : ℕ) (e : ℤ) : ∀ x ∈ intPart c e, Plain x := by
  intro x hx
  simp only [intPart] at hx
  split_ifs at hx
  · exact plain_zeros 1 x (by simpa using hx)
  · rcases List.mem_append.mp hx with hx | hx
    · exact plain_of_digit hx
    · exact plain_zeros _ x hx
  · exact plain_of_digit (List.mem_of_mem_take hx)

private theorem plain_fracPart (c : ℕ) (e : ℤ) : ∀ x ∈ fracPart c e, Plain x := by
  intro x hx
  simp only [fracPart] at hx
  split_ifs at hx
  · rcases List.mem_append.mp hx with hx | hx
    · exact plain_zeros _ x hx
    · exact plain_of_digit hx
  · simp at hx
  · exact plain_of_digit (List.mem_of_mem_drop hx)

private theorem plain_exponent (x : Option ℤ) : ∀ c ∈ x.elim [] exponentText, Plain c := by
  intro c hc
  cases x with
  | none => simp at hc
  | some x =>
    simp only [Option.elim_some, exponentText, List.mem_cons] at hc
    rcases hc with rfl | hc | hc
    · exact ⟨by decide, by decide⟩
    · split_ifs at hc <;> subst hc <;> exact ⟨by decide, by decide⟩
    · exact plain_of_digit hc

private theorem plain_textChars (d : Decimal) : ∀ c ∈ d.textChars, Plain c := by
  intro x hx
  cases d with
  | finite s c e =>
    simp only [textChars, numberText, List.mem_append] at hx
    rcases hx with hx | (hx | hx) | hx
    · exact plain_signText s x hx
    · exact plain_intPart c e x hx
    · split_ifs at hx
      · simp at hx
      · rcases List.mem_cons.mp hx with rfl | hx
        · exact ⟨by decide, by decide⟩
        · exact plain_fracPart c e x hx
    · exact plain_exponent _ x hx
  | infinity s =>
    rcases List.mem_append.mp hx with hx | hx
    · exact plain_signText s x hx
    · fin_cases hx <;> exact ⟨by decide, by decide⟩
  | nan s g d =>
    simp only [textChars, List.mem_append] at hx
    rcases hx with (hx | hx) | hx
    · exact plain_signText s x hx
    · cases g <;> fin_cases hx <;> exact ⟨by decide, by decide⟩
    · split_ifs at hx
      · simp at hx
      · exact plain_of_digit hx

private theorem takeSign_signText (s : Bool) {cs : List Char} (h : takeSign cs = (false, cs)) :
    takeSign (signText s ++ cs) = (s, cs) := by
  cases s
  · simpa [signText] using h
  · rfl

private theorem parseChars_textChars (d : Decimal) : parseChars d.textChars = some d := by
  cases d with
  | finite s c e =>
    obtain ⟨hvalue, hexp, hne⟩ := layout_spec c e
    have hsign : takeSign (numberText (intPart c e) (fracPart c e) (exponentPart c e)) =
        (false, numberText (intPart c e) (fracPart c e) (exponentPart c e)) := by
      cases hint : intPart c e with
      | nil => exact absurd hint hne
      | cons x xs =>
        simp only [numberText, List.cons_append]
        exact takeSign_digit _ (digits_intPart c e x (by simp [hint]))
    simp only [parseChars, textChars, takeSign_signText s hsign]
    rw [parseUnsigned_numberText s _ (digits_intPart c e) (digits_fracPart c e) hne, hvalue, hexp]
  | infinity s => cases s <;> decide
  | nan s g d =>
    by_cases hd : d = 0
    · subst hd
      cases s <;> cases g <;> decide
    · have hdiag : ∀ s g, diagnostic s g (Nat.toDigits 10 d) = some (nan s g d) := by
        intro s g
        simp [diagnostic, takeDigits_toDigits]
      have hlow : ∃ x xs, (Nat.toDigits 10 d).map Char.toLower = x :: xs := by
        cases hx : Nat.toDigits 10 d with
        | nil => exact absurd hx Nat.toDigits_ne_nil
        | cons x xs => exact ⟨_, _, rfl⟩
      obtain ⟨x, xs, hx⟩ := hlow
      simp only [parseChars, textChars, hd, if_false, List.append_assoc]
      rw [takeSign_signText s (by cases g <;> rfl)]
      cases g
      · have hchars : (if false = true then "sNaN".toList else "NaN".toList) = ['N', 'a', 'N'] := by
          decide
        have hnone : (digitValue 'N') = none := by decide
        have hlower : Char.toLower 'N' = 'n' ∧ Char.toLower 'a' = 'a' := by decide
        rw [hchars]
        simp [parseUnsigned, takeDigits, hnone, takeFraction, special, hx, hlower, hdiag]
      · have hchars : (if true = true then "sNaN".toList else "NaN".toList) =
            ['s', 'N', 'a', 'N'] := by decide
        have hnone : (digitValue 's') = none := by decide
        have hlower : Char.toLower 's' = 's' ∧ Char.toLower 'N' = 'n' ∧ Char.toLower 'a' = 'a' := by
          decide
        rw [hchars]
        simp [parseUnsigned, takeDigits, hnone, takeFraction, special, hx, hlower, hdiag]

/-- `Decimal(str(d))` is `d`, exponent, sign of zero and special values included. -/
@[simp] theorem ofText_text (d : Decimal) : ofText d.text = some d := by
  have hstrip : strip d.textChars = d.textChars :=
    strip_eq_self fun c hc => (plain_textChars d c hc).1
  have hfilter : d.textChars.filter (· != '_') = d.textChars :=
    List.filter_eq_self.mpr fun c hc => (plain_textChars d c hc).2
  simp [ofText, text, hstrip, hfilter, parseChars_textChars]

example : (ofText " 12_3.40e+2 ").map text = some "12340" := by decide

end LlamaTrade.Decimal
