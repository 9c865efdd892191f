import LlamaTrade.WriterSpec

/-!
# Errors of the pure functions

The arithmetic, the payload readers, the legs and the lot selection raise exceptions of the
language only, never one of the service layer. In particular none of them raises the
`FillQuarantineError` that the entry handler looks for.
-/

namespace LlamaTrade

/-- The computation raises no exception of the service layer. -/
def Ordinary {α : Type} (x : Except PyError α) : Prop :=
  ∀ cls message, x ≠ .error (.service cls message)

section Rules

variable {α β : Type}

theorem ordinary_ok (a : α) : Ordinary (.ok a) := fun _ _ h => nomatch h

theorem ordinary_pure (a : α) : Ordinary (pure a : Except PyError α) := ordinary_ok a

theorem ordinary_arithmeticError (s : ArithmeticSignal) :
    Ordinary (.error (.arithmeticError s) : Except PyError α) := fun _ _ h => nomatch h

theorem ordinary_keyError (key : String) : Ordinary (.error (.keyError key) : Except PyError α) :=
  fun _ _ h => nomatch h

theorem ordinary_typeError (message : String) :
    Ordinary (.error (.typeError message) : Except PyError α) := fun _ _ h => nomatch h

theorem ordinary_valueError (cls message : String) :
    Ordinary (.error (.valueError cls message) : Except PyError α) := fun _ _ h => nomatch h

theorem Ordinary.bind {x : Except PyError α} {f : α → Except PyError β} (hx : Ordinary x)
    (hf : ∀ a, Ordinary (f a)) : Ordinary (x >>= f) := by
  cases x with
  | error e => exact fun cls message h => hx cls message (congrArg Except.error (Except.error.inj h))
  | ok a => exact hf a

theorem Ordinary.ite {c : Prop} [Decidable c] {x y : Except PyError α} (hx : Ordinary x)
    (hy : Ordinary y) : Ordinary (if c then x else y) := by
  split_ifs
  · exact hx
  · exact hy

end Rules

/-! ## Arithmetic -/

section Arithmetic

variable (x y : Decimal)

theorem ordinary_fix (ctx : Context) (sign : Bool) (c : ℕ) (e : ℤ) :
    Ordinary (ctx.fix sign c e) := by
  unfold Context.fix
  dsimp only
  split_ifs <;> first | exact ordinary_ok _ | exact ordinary_arithmeticError _

theorem ordinary_nanOperand {r : Except PyError Decimal} (h : Decimal.nanOperand x y = some r) :
    Ordinary r := by
  unfold Decimal.nanOperand at h
  split at h <;> first
    | (cases h; exact ordinary_arithmeticError _)
    | (cases h; exact ordinary_ok _)
    | cases h

theorem ordinary_add : Ordinary (Arithmetic.add x y) := by
  change Ordinary (Decimal.add defaultContext x y)
  unfold Decimal.add
  split
  · rename_i h
    exact ordinary_nanOperand x y h
  · split
    · exact (ordinary_ok _).ite (ordinary_arithmeticError _)
    · exact ordinary_ok _
    · exact ordinary_ok _
    · exact ordinary_fix _ _ _ _
    · exact ordinary_arithmeticError _

theorem ordinary_sub : Ordinary (Arithmetic.sub x y) := by
  change Ordinary (Decimal.sub defaultContext x y)
  unfold Decimal.sub
  split
  · rename_i h
    exact ordinary_nanOperand x y h
  · exact ordinary_add x _

theorem ordinary_neg : Ordinary (Arithmetic.neg x) := by
  change Ordinary (Decimal.neg defaultContext x)
  unfold Decimal.neg
  split
  · exact ordinary_arithmeticError _
  · exact ordinary_ok _
  · exact ordinary_ok _
  · exact ordinary_fix _ _ _ _

theorem ordinary_mul : Ordinary (Arithmetic.mul x y) := by
  change Ordinary (Decimal.mul defaultContext x y)
  unfold Decimal.mul
  split
  · rename_i h
    exact ordinary_nanOperand x y h
  · split
    · exact ordinary_ok _
    · exact (ordinary_arithmeticError _).ite (ordinary_ok _)
    · exact (ordinary_arithmeticError _).ite (ordinary_ok _)
    · exact ordinary_fix _ _ _ _
    · exact ordinary_arithmeticError _

theorem ordinary_divFinite (ctx : Context) (sign : Bool) (c₁ : ℕ) (e₁ : ℤ) (c₂ : ℕ) (e₂ : ℤ) :
    Ordinary (Decimal.divFinite ctx sign c₁ e₁ c₂ e₂) :=
  (ordinary_fix _ _ _ _).ite (ordinary_fix _ _ _ _)

theorem ordinary_div : Ordinary (Arithmetic.div x y) := by
  change Ordinary (Decimal.div defaultContext x y)
  unfold Decimal.div
  split
  · rename_i h
    exact ordinary_nanOperand x y h
  · split
    · exact ordinary_arithmeticError _
    · exact ordinary_ok _
    · exact ordinary_ok _
    · exact ((ordinary_arithmeticError _).ite (ordinary_arithmeticError _)).ite
        ((ordinary_fix _ _ _ _).ite (ordinary_divFinite _ _ _ _ _ _))
    · exact ordinary_arithmeticError _

theorem ordinary_eq : Ordinary (Arithmetic.eq x y) := by
  change Ordinary (Decimal.eq x y)
  exact (ordinary_arithmeticError _).ite ((ordinary_ok _).ite (ordinary_ok _))

theorem ordinary_lt : Ordinary (Arithmetic.lt x y) := by
  change Ordinary (Decimal.lt x y)
  exact (ordinary_arithmeticError _).ite (ordinary_ok _)

theorem ordinary_le : Ordinary (Arithmetic.le x y) := by
  change Ordinary (Decimal.le x y)
  exact (ordinary_arithmeticError _).ite (ordinary_ok _)

theorem ordinary_sum (xs : List Decimal) : Ordinary (Arithmetic.sum xs) := by
  have hfrom : ∀ (xs : List Decimal) (a : Decimal), Ordinary (xs.foldlM Arithmetic.add a) := by
    intro xs
    induction xs with
    | nil => exact fun a => ordinary_pure a
    | cons x xs ih => exact fun a => (ordinary_add a x).bind ih
  exact hfrom xs _

theorem ordinary_parse (s : String) : Ordinary (Arithmetic.parse s : Except PyError Decimal) := by
  unfold Arithmetic.parse
  split
  · exact ordinary_ok _
  · exact ordinary_arithmeticError _

end Arithmetic

/-! ## Payloads and legs -/

section Legs

variable (data : Payload) (key : String)

theorem ordinary_item : Ordinary (data.item key) := by
  unfold Payload.item
  split
  · exact ordinary_ok _
  · exact ordinary_keyError _

theorem ordinary_text : Ordinary (data.text key) := by
  unfold Payload.text
  split
  · exact ordinary_ok _
  · rename_i e he
    exact fun cls message h =>
      ordinary_item data key cls message (he.trans (congrArg Except.error (Except.error.inj h)))

theorem ordinary_toNumber (x : Json) : Ordinary (toNumber key x : Except PyError Decimal) := by
  unfold toNumber
  split
  · exact ordinary_parse _
  · exact ordinary_ok _
  · exact ordinary_ok _
  · exact ordinary_parse _
  · exact ordinary_typeError _

theorem ordinary_number : Ordinary (number data key : Except PyError Decimal) :=
  (ordinary_item data key).bind fun x => ordinary_toNumber key x

theorem ordinary_numberOrZero : Ordinary (numberOrZero data key : Except PyError Decimal) :=
  (ordinary_number data key).ite (ordinary_pure _)

theorem ordinary_subscript (entry : Json) : Ordinary (entry.subscript key) := by
  unfold Json.subscript
  split
  · split
    · exact ordinary_ok _
    · exact ordinary_keyError _
  · exact ordinary_typeError _
  · exact ordinary_typeError _
  · exact ordinary_typeError _

theorem ordinary_iter (x : Json) : Ordinary x.iter := by
  unfold Json.iter
  split <;> first | exact ordinary_ok _ | exact ordinary_typeError _

theorem ordinary_buyPostings (sleeve symbol : String) (qty notional fees : Decimal) :
    Ordinary (buyPostings sleeve symbol qty notional fees) :=
  (ordinary_add _ _).bind fun _ => (ordinary_neg _).bind fun _ => ordinary_pure _

theorem ordinary_sellPostings (sleeve symbol : String) (qty notional fees cost : Decimal) :
    Ordinary (sellPostings sleeve symbol qty notional fees cost) :=
  (ordinary_sub _ _).bind fun _ => (ordinary_sub _ _).bind fun _ => (ordinary_neg _).bind fun _ =>
    (ordinary_neg _).bind fun _ => (ordinary_sub _ _).bind fun _ => (ordinary_neg _).bind fun _ =>
      ordinary_pure _

theorem ordinary_orderFilledPostings :
    Ordinary (orderFilledPostings data : Except PyError (List (Posting Decimal))) := by
  unfold orderFilledPostings
  refine (ordinary_text _ _).bind fun sleeve => (ordinary_text _ _).bind fun symbol =>
    (ordinary_text _ _).bind fun side => (ordinary_number _ _).bind fun qty =>
      (ordinary_number _ _).bind fun price => (ordinary_numberOrZero _ _).bind fun fees =>
        (ordinary_mul _ _).bind fun notional => ?_
  refine (ordinary_buyPostings _ _ _ _ _).ite (Ordinary.ite (Ordinary.ite ?_ ?_) ?_)
  · exact (ordinary_number _ _).bind fun cost => ordinary_sellPostings _ _ _ _ _ _
  · exact ordinary_valueError _ _
  · exact ordinary_valueError _ _

theorem ordinary_rehomePostings (frm dest : String) (entries : List Json) :
    Ordinary (rehomePostings frm dest entries : Except PyError (List (Posting Decimal))) := by
  have hentry : ∀ entry, Ordinary (rehomePosting frm dest entry :
      Except PyError (List (Posting Decimal))) := by
    intro entry
    exact ((ordinary_subscript _ _).bind fun _ => ordinary_pure _).bind fun _ =>
      ((ordinary_subscript _ _).bind fun _ => ordinary_toNumber _ _).bind fun _ =>
        ((ordinary_subscript _ _).bind fun _ => ordinary_toNumber _ _).bind fun _ =>
          (ordinary_neg _).bind fun _ => (ordinary_neg _).bind fun _ => ordinary_pure _
  induction entries with
  | nil => exact ordinary_pure _
  | cons entry entries ih => exact (hentry entry).bind fun _ => ih.bind fun _ => ordinary_pure _

theorem ordinary_sleeveClosedPostings :
    Ordinary (sleeveClosedPostings data : Except PyError (List (Posting Decimal))) := by
  unfold sleeveClosedPostings closedPositionLegs
  refine (ordinary_text _ _).bind fun frm => Ordinary.bind (Ordinary.ite ?_ (ordinary_pure _))
    fun moved => (ordinary_numberOrZero _ _).bind fun cash => (ordinary_eq _ _).bind fun isZero =>
      (ordinary_pure _).ite ?_
  · exact (ordinary_text _ _).bind fun _ => (ordinary_iter _).bind fun _ =>
      ordinary_rehomePostings _ _ _
  · exact (ordinary_text _ _).bind fun _ => (ordinary_neg _).bind fun _ => ordinary_pure _

theorem ordinary_buildPostings (t : LedgerEventType) :
    Ordinary (buildPostings t data : Except PyError (List (Posting Decimal))) := by
  cases t <;> first
    | exact ordinary_pure _
    | exact ordinary_orderFilledPostings data
    | exact ordinary_sleeveClosedPostings data
    | exact (ordinary_number _ _).bind fun _ => (ordinary_text _ _).bind fun _ =>
        (ordinary_neg _).bind fun _ => ordinary_pure _
    | exact (ordinary_number _ _).bind fun _ => (ordinary_text _ _).bind fun _ =>
        (ordinary_text _ _).bind fun _ => (ordinary_neg _).bind fun _ => ordinary_pure _
    | exact (ordinary_text _ _).bind fun _ => (ordinary_text _ _).bind fun _ =>
        (ordinary_number _ _).bind fun _ => ordinary_pure _
    | exact (ordinary_text _ _).bind fun _ => (ordinary_text _ _).bind fun _ =>
        (ordinary_number _ _).bind fun _ => (ordinary_number _ _).bind fun _ =>
          (ordinary_mul _ _).bind fun _ => (ordinary_neg _).bind fun _ => ordinary_pure _
    | exact (ordinary_text _ _).bind fun _ => (ordinary_text _ _).bind fun _ =>
        (ordinary_text _ _).bind fun _ => (ordinary_number _ _).bind fun _ =>
          (ordinary_number _ _).bind fun _ => (ordinary_neg _).bind fun _ =>
            (ordinary_neg _).bind fun _ => ordinary_pure _

theorem ordinary_checkSigns (p : Posting Decimal) : Ordinary (checkSigns p) := by
  unfold checkSigns
  split
  · refine (ordinary_lt _ _).bind fun up => ?_
    dsimp only
    refine Ordinary.ite ((ordinary_lt _ _).bind fun bad => ?_)
      ((ordinary_pure _).bind fun bad => ?_) <;>
    exact Ordinary.ite
      ((ordinary_pure _).bind fun _ => (ordinary_valueError _ _).ite (ordinary_pure _))
      ((ordinary_lt _ _).bind fun _ => Ordinary.ite
        ((ordinary_lt _ _).bind fun _ => (ordinary_valueError _ _).ite (ordinary_pure _))
        ((ordinary_pure _).bind fun _ => (ordinary_valueError _ _).ite (ordinary_pure _)))
  · exact ordinary_pure _

theorem ordinary_assertBalanced (ps : List (Posting Decimal)) : Ordinary (assertBalanced ps) := by
  have hsigns : Ordinary (checkAllSigns ps) := by
    induction ps with
    | nil => exact ordinary_pure _
    | cons p ps ih => exact (ordinary_checkSigns p).bind fun _ => ih
  exact (ordinary_sum _).bind fun _ => (ordinary_eq _ _).bind fun _ =>
    hsigns.ite (ordinary_valueError _ _)

end Legs

/-! ## Lots and invariants -/

theorem ordinary_selectLotsFifo (lots : List (Lot Decimal)) (qty : Decimal) :
    Ordinary (selectLotsFifo lots qty) := by
  have hloop : ∀ (lots : List (Lot Decimal)) (remaining closed : Decimal),
      Ordinary (selectLoop remaining closed lots) := by
    intro lots
    induction lots with
    | nil => exact fun _ _ => ordinary_pure _
    | cons lot lots ih =>
      intro remaining closed
      unfold selectLoop
      refine (ordinary_le _ _).bind fun done => Ordinary.ite ?_ ?_
      · exact (ih _ _).bind fun _ => ordinary_pure _
      · refine (ordinary_le _ _).bind fun whole => Ordinary.ite ?_ ?_
        · exact (ordinary_add _ _).bind fun _ => (ordinary_sub _ _).bind fun _ => ih _ _
        · exact (ordinary_div _ _).bind fun _ => (ordinary_mul _ _).bind fun _ =>
            (ordinary_add _ _).bind fun _ => (ordinary_sub _ _).bind fun _ =>
              (ordinary_mul _ _).bind fun _ => (ordinary_sub _ _).bind fun _ =>
                (ih _ _).bind fun _ => ordinary_pure _
  unfold selectLotsFifo
  refine (ordinary_le _ _).bind fun nonpositive => (ordinary_valueError _ _).ite ?_
  exact (hloop _ _ _).bind fun _ => (ordinary_lt _ _).bind fun _ =>
    (ordinary_valueError _ _).ite (ordinary_pure _)

theorem ordinary_checkSleeveInvariants (s : SleeveProjection Decimal) :
    Ordinary (checkSleeveInvariants s) := by
  have hpositions : ∀ held : List (String × PositionState Decimal),
      Ordinary (negativePositions held) := by
    intro held
    induction held with
    | nil => exact ordinary_pure _
    | cons x held ih => exact (ordinary_lt _ _).bind fun _ => ih.bind fun _ => ordinary_pure _
  exact (ordinary_lt _ _).bind fun _ =>
    Ordinary.bind ((ordinary_lt _ _).bind fun _ => (ordinary_lt _ _).ite (ordinary_pure _)) fun _ =>
      (hpositions _).bind fun _ => ordinary_pure _

end LlamaTrade
