import LlamaTrade.PythonText
import Mathlib.Data.Nat.Log
import Mathlib.Data.Rat.Defs
import Mathlib.Algebra.Order.Field.Power
import Mathlib.Algebra.Order.Ring.Unbundled.Rat
import Mathlib.Tactic.Ring
import Mathlib.Tactic.Positivity
import Mathlib.Tactic.Linarith
import Mathlib.Tactic.FieldSimp

/-!
# Decimal floating-point numbers

The numbers of Python's `decimal` module and their arithmetic in a context of a
given precision and exponent range, with round-half-even and the traps of the
default context (`InvalidOperation`, `DivisionByZero`, `Overflow`). A result is
computed exactly and then brought into the format by `Context.fix`. The exact
value of a finite number is the rational `toRat`.
-/

namespace LlamaTrade

/-- A decimal number: a finite one with sign, coefficient and exponent, a signed
infinity, or a quiet or signaling NaN with its diagnostic digits. -/
inductive Decimal where
  | finite (sign : Bool) (coeff : ℕ) (exp : ℤ)
  | infinity (sign : Bool)
  | nan (sign signaling : Bool) (diagnostic : ℕ)
  deriving DecidableEq, Repr

/-- Precision and exponent range. Rounding is half-even and `clamp` is off. -/
structure Context where
  prec : ℕ
  emin : ℤ
  emax : ℤ

namespace Context

def etiny (ctx : Context) : ℤ := ctx.emin - ctx.prec + 1

def etop (ctx : Context) : ℤ := ctx.emax - ctx.prec + 1

end Context

/-- Python's default context. -/
def defaultContext : Context := ⟨28, -999999, 999999⟩

/-- The number of decimal digits of a coefficient; zero is written with one. -/
def numDigits (n : ℕ) : ℕ := Nat.log 10 n + 1

/-- The quotient rounded to the nearest integer, ties to the even one. -/
def divHalfEven (c d : ℕ) : ℕ :=
  if 2 * (c % d) < d then c / d
  else if d < 2 * (c % d) then c / d + 1
  else if (c / d) % 2 = 0 then c / d
  else c / d + 1

/-- The exponent to which a nonzero coefficient is rounded: the larger of the
one that leaves `prec` digits and the smallest exponent of the format. -/
def Context.expMin (ctx : Context) (c : ℕ) (e : ℤ) : ℤ :=
  max (numDigits c + e - ctx.prec) ctx.etiny

/-- Bring `±c · 10^e` into the format: zeros keep their exponent within range,
longer coefficients are rounded, and what exceeds the range overflows. -/
def Context.fix (ctx : Context) (sign : Bool) (c : ℕ) (e : ℤ) : Except PyError Decimal :=
  if c = 0 then .ok (.finite sign 0 (min (max e ctx.etiny) ctx.emax))
  else if ctx.etop < numDigits c + e - ctx.prec then .error (.arithmeticError .overflow)
  else if e < ctx.expMin c e then
    let q := divHalfEven c (10 ^ (ctx.expMin c e - e).toNat)
    if ctx.prec < numDigits q then
      if ctx.etop < ctx.expMin c e + 1 then .error (.arithmeticError .overflow)
      else .ok (.finite sign (q / 10) (ctx.expMin c e + 1))
    else .ok (.finite sign q (ctx.expMin c e))
  else .ok (.finite sign c e)

namespace Decimal

/-- The coefficient with its sign, scaled down to the exponent `m`. -/
def scaled (m : ℤ) (sign : Bool) (c : ℕ) (e : ℤ) : ℤ :=
  PyText.signed sign (c * 10 ^ (e - m).toNat)

/-- The exact value of a finite number. -/
def toRat : Decimal → ℚ
  | finite sign c e => PyText.signed sign c * (10 : ℚ) ^ e
  | _ => 0

def isFinite : Decimal → Bool
  | finite .. => true
  | _ => false

def zero : Decimal := finite false 0 0

/-- A signaling NaN operand raises; otherwise the first NaN operand is the result. -/
def nanOperand : Decimal → Decimal → Option (Except PyError Decimal)
  | nan _ true _, _ => some (.error (.arithmeticError .invalidOperation))
  | _, nan _ true _ => some (.error (.arithmeticError .invalidOperation))
  | nan s false d, _ => some (.ok (nan s false d))
  | _, nan s false d => some (.ok (nan s false d))
  | _, _ => none

/-- The sum of two finite numbers, at the smaller exponent and then fixed. -/
def addFinite (ctx : Context) (s₁ : Bool) (c₁ : ℕ) (e₁ : ℤ) (s₂ : Bool) (c₂ : ℕ) (e₂ : ℤ) :
    Except PyError Decimal :=
  let m := min e₁ e₂
  let t := scaled m s₁ c₁ e₁ + scaled m s₂ c₂ e₂
  ctx.fix (if t = 0 then s₁ && s₂ else decide (t < 0)) t.natAbs m

def add (ctx : Context) (x y : Decimal) : Except PyError Decimal :=
  match nanOperand x y with
  | some r => r
  | none =>
    match x, y with
    | infinity s₁, infinity s₂ =>
      if s₁ = s₂ then .ok (infinity s₁) else .error (.arithmeticError .invalidOperation)
    | infinity s, _ => .ok (infinity s)
    | _, infinity s => .ok (infinity s)
    | finite s₁ c₁ e₁, finite s₂ c₂ e₂ => addFinite ctx s₁ c₁ e₁ s₂ c₂ e₂
    | _, _ => .error (.arithmeticError .invalidOperation)

/-- `copy_negate`: the sign is flipped and nothing is rounded. -/
def copyNegate : Decimal → Decimal
  | finite s c e => finite (!s) c e
  | infinity s => infinity (!s)
  | nan s g d => nan (!s) g d

def sub (ctx : Context) (x y : Decimal) : Except PyError Decimal :=
  match nanOperand x y with
  | some r => r
  | none => add ctx x (copyNegate y)

/-- Unary minus rounds to the context, and the negative of a zero is positive. -/
def neg (ctx : Context) : Decimal → Except PyError Decimal
  | nan _ true _ => .error (.arithmeticError .invalidOperation)
  | nan s false d => .ok (nan s false d)
  | infinity s => .ok (infinity (!s))
  | finite s c e => ctx.fix (if c = 0 then false else !s) c e

def mul (ctx : Context) (x y : Decimal) : Except PyError Decimal :=
  match nanOperand x y with
  | some r => r
  | none =>
    match x, y with
    | infinity s₁, infinity s₂ => .ok (infinity (s₁ != s₂))
    | infinity s₁, finite s₂ c _ =>
      if c = 0 then .error (.arithmeticError .invalidOperation) else .ok (infinity (s₁ != s₂))
    | finite s₁ c _, infinity s₂ =>
      if c = 0 then .error (.arithmeticError .invalidOperation) else .ok (infinity (s₁ != s₂))
    | finite s₁ c₁ e₁, finite s₂ c₂ e₂ => ctx.fix (s₁ != s₂) (c₁ * c₂) (e₁ + e₂)
    | _, _ => .error (.arithmeticError .invalidOperation)

/-- Drop trailing zeros of an exact quotient until its exponent is the ideal one. -/
def dropZeros : ℕ → ℕ → ℤ → ℤ → ℕ × ℤ
  | 0, c, e, _ => (c, e)
  | fuel + 1, c, e, ideal =>
    if e < ideal ∧ c % 10 = 0 then dropZeros fuel (c / 10) (e + 1) ideal else (c, e)

/-- The quotient of two nonzero finite numbers: one digit more than the precision
is computed, made sticky when the division leaves a remainder. -/
def divFinite (ctx : Context) (sign : Bool) (c₁ : ℕ) (e₁ : ℤ) (c₂ : ℕ) (e₂ : ℤ) :
    Except PyError Decimal :=
  let shift : ℤ := numDigits c₂ - numDigits c₁ + ctx.prec + 1
  let n := c₁ * 10 ^ shift.toNat
  let d := c₂ * 10 ^ (-shift).toNat
  let e := e₁ - e₂ - shift
  if n % d = 0 then
    let r := dropZeros (numDigits (n / d)) (n / d) e (e₁ - e₂)
    ctx.fix sign r.1 r.2
  else ctx.fix sign (if (n / d) % 5 = 0 then n / d + 1 else n / d) e

def div (ctx : Context) (x y : Decimal) : Except PyError Decimal :=
  match nanOperand x y with
  | some r => r
  | none =>
    match x, y with
    | infinity _, infinity _ => .error (.arithmeticError .invalidOperation)
    | infinity s₁, finite s₂ _ _ => .ok (infinity (s₁ != s₂))
    | finite s₁ _ _, infinity s₂ => .ok (finite (s₁ != s₂) 0 ctx.etiny)
    | finite s₁ c₁ e₁, finite s₂ c₂ e₂ =>
      if c₂ = 0 then
        if c₁ = 0 then .error (.arithmeticError .invalidOperation)
        else .error (.arithmeticError .divisionByZero)
      else if c₁ = 0 then ctx.fix (s₁ != s₂) 0 (e₁ - e₂)
      else divFinite ctx (s₁ != s₂) c₁ e₁ c₂ e₂
    | _, _ => .error (.arithmeticError .invalidOperation)

/-- The sign of `x - y` for operands that are not NaN. -/
def compareValue : Decimal → Decimal → Ordering
  | infinity s₁, infinity s₂ => compare s₂ s₁
  | infinity s, _ => if s then .lt else .gt
  | _, infinity s => if s then .gt else .lt
  | finite s₁ c₁ e₁, finite s₂ c₂ e₂ =>
    compare (scaled (min e₁ e₂) s₁ c₁ e₁) (scaled (min e₁ e₂) s₂ c₂ e₂)
  | _, _ => .eq

def isNan : Decimal → Bool
  | nan .. => true
  | _ => false

def isSignaling : Decimal → Bool
  | nan _ g _ => g
  | _ => false

/-- `x == y`: a quiet NaN equals nothing, a signaling one raises. -/
def eq (x y : Decimal) : Except PyError Bool :=
  if x.isSignaling || y.isSignaling then .error (.arithmeticError .invalidOperation)
  else if x.isNan || y.isNan then .ok false
  else .ok (compareValue x y == .eq)

/-- `x < y`: every NaN raises. -/
def lt (x y : Decimal) : Except PyError Bool :=
  if x.isNan || y.isNan then .error (.arithmeticError .invalidOperation)
  else .ok (compareValue x y == .lt)

/-- `x <= y`: every NaN raises. -/
def le (x y : Decimal) : Except PyError Bool :=
  if x.isNan || y.isNan then .error (.arithmeticError .invalidOperation)
  else .ok (compareValue x y != .gt)

end Decimal

end LlamaTrade
