import LlamaTrade.DecimalNumber

/-!
# Rounding to a fixed exponent

`Decimal.quantize`, with the rounding modes that the services name.
-/

namespace LlamaTrade

/-- `ROUND_HALF_EVEN`, `ROUND_HALF_UP` and `ROUND_UP`. -/
inductive Rounding where
  | halfEven | halfUp | up
  deriving DecidableEq, Repr

/-- The quotient of two coefficients, rounded to an integer. -/
def Rounding.div : Rounding → ℕ → ℕ → ℕ
  | halfEven, c, d => divHalfEven c d
  | halfUp, c, d => if d ≤ 2 * (c % d) then c / d + 1 else c / d
  | up, c, d => if c % d = 0 then c / d else c / d + 1

namespace Decimal

/-- The coefficient of `c · 10^e` at the exponent `m`. -/
def rescale (rounding : Rounding) (c : ℕ) (e m : ℤ) : ℕ :=
  if m ≤ e then c * 10 ^ (e - m).toNat else rounding.div c (10 ^ (m - e).toNat)

/-- `x.quantize(Decimal(10) ** m, rounding)` for an exponent of the format: a result with
more digits than the precision is invalid. -/
def quantize (ctx : Context) (rounding : Rounding) (m : ℤ) : Decimal → Except PyError Decimal
  | nan _ true _ => .error (.arithmeticError .invalidOperation)
  | nan s false d => .ok (nan s false d)
  | infinity _ => .error (.arithmeticError .invalidOperation)
  | finite s c e =>
    if m < ctx.etiny ∨ ctx.emax < m then .error (.arithmeticError .invalidOperation)
    else if c = 0 then ctx.fix s 0 m
    else if ctx.emax < numDigits c + e - 1 ∨ ctx.prec < numDigits c + e - m then
      .error (.arithmeticError .invalidOperation)
    else if ctx.emax < numDigits (rescale rounding c e m) + m - 1 ∨
        ctx.prec < numDigits (rescale rounding c e m) then
      .error (.arithmeticError .invalidOperation)
    else ctx.fix s (rescale rounding c e m) m

end Decimal

example : Decimal.quantize defaultContext .halfUp (-2) (.finite false 12345 (-3)) =
    .ok (.finite false 1235 (-2)) := by decide

end LlamaTrade
