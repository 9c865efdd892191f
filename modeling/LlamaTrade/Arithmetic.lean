import LlamaTrade.DecimalText

/-!
# The arithmetic of the ledger

The ledger's code is written against the operations of `decimal.Decimal`. They
are collected in a class with two instances: `Decimal` in Python's default
context, where results are rounded and operations can raise, and the rational
numbers, where every result is exact. The text of a number is part of the class,
since numbers travel through event payloads as text, and every instance reads
back what it prints.
-/

namespace LlamaTrade

class Arithmetic (D : Type) where
  zero : D
  ofText : String → Option D
  ofInt : ℤ → D
  text : D → String
  isFinite : D → Bool
  add : D → D → Except PyError D
  sub : D → D → Except PyError D
  mul : D → D → Except PyError D
  div : D → D → Except PyError D
  neg : D → Except PyError D
  eq : D → D → Except PyError Bool
  lt : D → D → Except PyError Bool
  le : D → D → Except PyError Bool
  ofText_text (d : D) : ofText (text d) = some d

attribute [simp] Arithmetic.ofText_text

namespace Arithmetic

variable {D : Type} [Arithmetic D]

/-- `Decimal(text)`, raising on text that is no number. -/
def parse (s : String) : Except PyError D :=
  match ofText s with
  | some d => .ok d
  | none => .error (.arithmeticError .invalidOperation)

@[simp] theorem parse_text (d : D) : parse (text d) = .ok d := by simp [parse]

/-- `sum(xs, ZERO)`. -/
def sum (xs : List D) : Except PyError D := xs.foldlM add zero

end Arithmetic

instance : Arithmetic Decimal where
  zero := Decimal.zero
  ofText := Decimal.ofText
  ofInt := Decimal.ofInt
  text := Decimal.text
  isFinite := Decimal.isFinite
  add := Decimal.add defaultContext
  sub := Decimal.sub defaultContext
  mul := Decimal.mul defaultContext
  div := Decimal.div defaultContext
  neg := Decimal.neg defaultContext
  eq := Decimal.eq
  lt := Decimal.lt
  le := Decimal.le
  ofText_text := Decimal.ofText_text

namespace ExactNumber

open PyText

/-- A rational is printed as a fraction, the notation no decimal text uses. -/
def text (q : ℚ) : String := String.ofList (intChars q.num ++ '/' :: Nat.toDigits 10 q.den)

def ofFraction (num den : List Char) : Option ℚ :=
  (plainInt num).bind fun n => (plainInt den).bind fun d => if 0 < d then some (n / d) else none

/-- A fraction as `text` prints it, or the exact value of a finite decimal text. -/
def ofText (s : String) : Option ℚ :=
  match s.toList.dropWhile (· != '/') with
  | _ :: den => ofFraction (s.toList.takeWhile (· != '/')) den
  | [] => (Decimal.ofText s).bind fun d => if d.isFinite then some d.toRat else none

theorem ofText_text (q : ℚ) : ofText (text q) = some q := by
  have hnum : ∀ c ∈ intChars q.num, (c != '/') = true := by
    intro c hc
    rcases mem_intChars hc with rfl | hc
    · decide
    · simpa using ne_of_mem_toDigits hc (by decide : (digitValue '/').isNone)
  have hden : plainInt (Nat.toDigits 10 q.den) = some (q.den : ℤ) :=
    plainInt_of_takeSign (b := false) (takeSign_toDigits q.den)
  have hpos : 0 < (q.den : ℤ) := by exact_mod_cast q.den_pos
  simp only [ofText, text, String.toList_ofList]
  rw [List.dropWhile_append_of_pos hnum, List.takeWhile_append_of_pos hnum]
  simp [ofFraction, plainInt_intChars, hden, q.den_pos, Rat.num_div_den]

end ExactNumber

/-- Exact arithmetic: only a division by zero raises. -/
instance : Arithmetic ℚ where
  zero := 0
  ofText := ExactNumber.ofText
  ofInt n := n
  text := ExactNumber.text
  isFinite _ := true
  add x y := .ok (x + y)
  sub x y := .ok (x - y)
  mul x y := .ok (x * y)
  div x y := if y = 0 then .error (.arithmeticError .divisionByZero) else .ok (x / y)
  neg x := .ok (-x)
  eq x y := .ok (x == y)
  lt x y := .ok (decide (x < y))
  le x y := .ok (decide (x ≤ y))
  ofText_text := ExactNumber.ofText_text

namespace ExactNumber

variable (x y : ℚ)

@[simp] theorem zero_eq : (Arithmetic.zero : ℚ) = 0 := rfl
@[simp] theorem add_eq : Arithmetic.add x y = .ok (x + y) := rfl
@[simp] theorem sub_eq : Arithmetic.sub x y = .ok (x - y) := rfl
@[simp] theorem mul_eq : Arithmetic.mul x y = .ok (x * y) := rfl
@[simp] theorem neg_eq : Arithmetic.neg x = .ok (-x) := rfl
@[simp] theorem eq_eq : Arithmetic.eq x y = .ok (x == y) := rfl
@[simp] theorem lt_eq : Arithmetic.lt x y = .ok (decide (x < y)) := rfl
@[simp] theorem le_eq : Arithmetic.le x y = .ok (decide (x ≤ y)) := rfl

theorem div_eq (h : y ≠ 0) : Arithmetic.div x y = .ok (x / y) := if_neg h

@[simp] theorem foldlM_add (xs : List ℚ) :
    xs.foldlM Arithmetic.add x = (.ok (x + xs.sum) : Except PyError ℚ) := by
  induction xs generalizing x with
  | nil => simp [pure, Except.pure]
  | cons a xs ih => simp [List.foldlM_cons, bind, Except.bind, ih, add_assoc]

@[simp] theorem sum_eq (xs : List ℚ) : Arithmetic.sum xs = .ok xs.sum := by
  simp [Arithmetic.sum]

end ExactNumber

end LlamaTrade
