import LlamaTrade.PythonUuid
import Mathlib.Algebra.Order.BigOperators.Group.List
import Mathlib.Data.List.Sort
import Mathlib.Data.Rat.Floor
import Mathlib.Tactic.Linarith

/-!
# The shares of a dividend

In exact numbers the shares of a dividend add up to the dividend whatever the holders are
(`split_dividend`). Every share but that of the largest holder is rounded to cents, half a cent up,
and the largest holder takes what is left, which the roundings may have used up.
-/

namespace LlamaTrade

/-- `quantize(_CENTS, rounding=ROUND_HALF_UP)` of a number that is not negative. -/
def toCents (x : ℚ) : ℚ := ⌊x * 100 + 1 / 2⌋ / 100

/-- The comparison of the sort keys `(qty, str(sleeve_id))`, the larger first. -/
def HoldsMore (a b : UUID × ℚ) : Prop := b.2 < a.2 ∨ b.2 = a.2 ∧ b.1.text ≤ a.1.text

instance : DecidableRel HoldsMore := fun a b =>
  inferInstanceAs (Decidable (b.2 < a.2 ∨ b.2 = a.2 ∧ b.1.text ≤ a.1.text))

/-- The holders with a positive quantity, the largest first. -/
def rankHolders (holders : List (UUID × ℚ)) : List (UUID × ℚ) :=
  (holders.filter fun holder => 0 < holder.2).insertionSort HoldsMore

/-- What a holder of a quantity is due. -/
def dueShare (totalAmount totalQty qty : ℚ) : ℚ := totalAmount * qty / totalQty

/-- The shares once the holders are ranked; what is left is assigned last. -/
def shareAmounts (totalAmount totalQty : ℚ) : List (UUID × ℚ) → List (UUID × ℚ)
  | [] => []
  | largest :: others =>
    let amounts := others.map fun holder =>
      (holder.1, toCents (dueShare totalAmount totalQty holder.2))
    amounts ++ [(largest.1, totalAmount - (amounts.map Prod.snd).sum)]

def positiveHoldings (holders : List (UUID × ℚ)) : ℚ :=
  ((holders.filter fun holder => 0 < holder.2).map Prod.snd).sum

/-- The amounts of `split_dividend`; an amount that is not positive is refused. -/
def dividendAmounts (totalAmount : ℚ) (holders : List (UUID × ℚ)) : Option (List (UUID × ℚ)) :=
  if totalAmount ≤ 0 then none
  else if positiveHoldings holders = 0 then some []
  else some (shareAmounts totalAmount (positiveHoldings holders) (rankHolders holders))

/-- The amounts add up to the dividend, and none is negative. -/
def SplitsFairly (totalAmount : ℚ) (holders : List (UUID × ℚ)) : Prop :=
  ∃ amounts, dividendAmounts totalAmount holders = some amounts ∧
    (amounts.map Prod.snd).sum = totalAmount ∧ ∀ amount ∈ amounts, 0 ≤ amount.2

/-- What rounding to cents adds to the shares of holders. -/
def roundingGain (totalAmount totalQty : ℚ) (holders : List (UUID × ℚ)) : ℚ :=
  (holders.map fun holder => toCents (dueShare totalAmount totalQty holder.2) -
    dueShare totalAmount totalQty holder.2).sum

/-- There is a holder, and what rounding adds to the shares of the others is at most what the
largest is due. -/
def RoundingIsCovered (totalAmount : ℚ) (holders : List (UUID × ℚ)) : Prop :=
  ∃ largest others, rankHolders holders = largest :: others ∧
    roundingGain totalAmount (positiveHoldings holders) others ≤
      dueShare totalAmount (positiveHoldings holders) largest.2

variable {totalAmount totalQty : ℚ} {holders : List (UUID × ℚ)}

theorem toCents_nonneg {x : ℚ} (h : 0 ≤ x) : 0 ≤ toCents x := by
  have hfloor : 0 ≤ ⌊x * 100 + 1 / 2⌋ := Int.floor_nonneg.mpr (by linarith)
  exact div_nonneg (by exact_mod_cast hfloor) (by norm_num)

theorem rankHolders_perm (holders : List (UUID × ℚ)) :
    (rankHolders holders).Perm (holders.filter fun holder => 0 < holder.2) :=
  List.perm_insertionSort _ _

theorem sum_rankHolders (holders : List (UUID × ℚ)) :
    ((rankHolders holders).map Prod.snd).sum = positiveHoldings holders :=
  ((rankHolders_perm holders).map Prod.snd).sum_eq

theorem pos_of_mem_rankHolders {holder : UUID × ℚ} (h : holder ∈ rankHolders holders) :
    0 < holder.2 := by
  simpa using List.of_mem_filter ((rankHolders_perm holders).mem_iff.mp h)

theorem positiveHoldings_pos {largest : UUID × ℚ} {others : List (UUID × ℚ)}
    (h : rankHolders holders = largest :: others) : 0 < positiveHoldings holders := by
  have hpos : ∀ holder ∈ largest :: others, 0 < holder.2 := fun holder hmem =>
    pos_of_mem_rankHolders (h ▸ hmem)
  rw [← sum_rankHolders, h, List.map_cons, List.sum_cons]
  have hrest : 0 ≤ (others.map Prod.snd).sum := by
    apply List.sum_nonneg
    intro x hx
    obtain ⟨holder, hholder, rfl⟩ := List.mem_map.mp hx
    exact (hpos holder (List.mem_cons_of_mem _ hholder)).le
  exact add_pos_of_pos_of_nonneg (hpos largest (List.mem_cons_self ..)) hrest

/-- The shares of ranked holders add up to the dividend. -/
theorem sum_shareAmounts (totalAmount totalQty : ℚ) (largest : UUID × ℚ)
    (others : List (UUID × ℚ)) :
    ((shareAmounts totalAmount totalQty (largest :: others)).map Prod.snd).sum = totalAmount := by
  simp [shareAmounts]

/-- What the holders are due adds up to the dividend. -/
theorem sum_dueShare (h : (holders.map Prod.snd).sum ≠ 0) :
    (holders.map fun holder => dueShare totalAmount (holders.map Prod.snd).sum holder.2).sum =
      totalAmount := by
  have hsum : ∀ l : List (UUID × ℚ),
      (l.map fun holder => dueShare totalAmount (holders.map Prod.snd).sum holder.2).sum =
        totalAmount * (l.map Prod.snd).sum / (holders.map Prod.snd).sum := by
    intro l
    induction l with
    | nil => simp
    | cons holder l ih =>
      rw [List.map_cons, List.sum_cons, ih, List.map_cons, List.sum_cons, dueShare]
      ring
  rw [hsum, mul_div_assoc, div_self h, mul_one]

/-- What is left for the largest holder is what it is due less what rounding added. -/
theorem remainder_eq {largest : UUID × ℚ} {others : List (UUID × ℚ)}
    (h : rankHolders holders = largest :: others) :
    totalAmount - ((others.map fun holder => (holder.1,
        toCents (dueShare totalAmount (positiveHoldings holders) holder.2))).map Prod.snd).sum =
      dueShare totalAmount (positiveHoldings holders) largest.2 -
        roundingGain totalAmount (positiveHoldings holders) others := by
  have hdue := @sum_dueShare totalAmount (rankHolders holders)
    ((sum_rankHolders holders).trans_ne (positiveHoldings_pos h).ne')
  rw [sum_rankHolders, h, List.map_cons, List.sum_cons] at hdue
  have hgain : roundingGain totalAmount (positiveHoldings holders) others =
      ((others.map fun holder => (holder.1,
        toCents (dueShare totalAmount (positiveHoldings holders) holder.2))).map Prod.snd).sum -
      (others.map fun holder => dueShare totalAmount (positiveHoldings holders) holder.2).sum := by
    rw [roundingGain, List.map_map]
    clear hdue h
    induction others with
    | nil => simp
    | cons holder others ih =>
      simp only [List.map_cons, List.sum_cons, ih, Function.comp_apply]
      ring
  rw [hgain]
  linarith

theorem dividendAmounts_of_rank (hpos : 0 < totalAmount) {largest : UUID × ℚ}
    {others : List (UUID × ℚ)} (h : rankHolders holders = largest :: others) :
    dividendAmounts totalAmount holders =
      some (shareAmounts totalAmount (positiveHoldings holders) (largest :: others)) := by
  rw [dividendAmounts, if_neg (not_le.mpr hpos), if_neg (positiveHoldings_pos h).ne', h]

end LlamaTrade
