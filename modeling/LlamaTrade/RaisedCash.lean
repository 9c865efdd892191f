import LlamaTrade.InsertionDict
import Mathlib.Algebra.Order.BigOperators.Group.List
import Mathlib.Data.List.Sort
import Mathlib.Data.Rat.Floor
import Mathlib.Tactic.Linarith

/-!
# Raised cash

A transfer from an illiquid sleeve plans sells until its shortfall is covered, the position of the
largest value first (`_raise_cash`). In exact numbers the sells cover the shortfall, and the planner
fails exactly when the positions are worth less than it. The quantity of the last sell is rounded up
to eight decimals, which may be more than the sleeve holds.
-/

namespace LlamaTrade

/-- The shares and the estimated price of each symbol, as `from_positions` holds them. -/
abbrev PricedPositions := InsertionDict (ℚ × ℚ)

/-- The value of a position or of a planned sell. -/
def worth (entry : String × ℚ × ℚ) : ℚ := entry.2.1 * entry.2.2

def totalWorth (entries : PricedPositions) : ℚ := (entries.map worth).sum

/-- A position with shares to sell at a price. -/
def Sellable (entry : String × ℚ × ℚ) : Prop := 0 < entry.2.1 ∧ 0 < entry.2.2

instance : DecidablePred Sellable := fun entry =>
  inferInstanceAs (Decidable (0 < entry.2.1 ∧ 0 < entry.2.2))

/-- `quantize(Decimal("0.00000001"), rounding=ROUND_UP)` of a number that is not negative. -/
def eightDecimalsUp (x : ℚ) : ℚ := ⌈x * 10 ^ 8⌉ / 10 ^ 8

def eightDecimalsDown (x : ℚ) : ℚ := ⌊x * 10 ^ 8⌋ / 10 ^ 8

/-- `sorted(positions.items(), key=value, reverse=True)`. -/
def byValue (positions : PricedPositions) : PricedPositions :=
  positions.insertionSort fun a b => worth b ≤ worth a

/-- The loop of `_raise_cash`: the sells, and what is left to raise. -/
def sellLoop (remaining : ℚ) : PricedPositions → PricedPositions × ℚ
  | [] => ([], remaining)
  | (symbol, qty, price) :: rest =>
    if remaining ≤ 0 then ([], remaining)
    else if qty ≤ 0 ∨ price ≤ 0 then sellLoop remaining rest
    else if qty * price ≤ remaining then
      let (sells, left) := sellLoop (remaining - qty * price) rest
      ((symbol, qty, price) :: sells, left)
    else
      let (sells, left) := sellLoop 0 rest
      ((symbol, eightDecimalsUp (remaining / price), price) :: sells, left)

/-- `_raise_cash`: the sells, or what is missing after every position is sold. -/
def planSells (positions : PricedPositions) (shortfall : ℚ) : Except ℚ PricedPositions :=
  let (sells, remaining) := sellLoop shortfall (byValue positions)
  if 0 < remaining then .error remaining else .ok sells

/-- The positions the planner may sell, in the order in which it does. -/
def sellSequence (positions : PricedPositions) : PricedPositions := (byValue positions).filter Sellable

/-- Planned sells cover the shortfall with shares that are there. -/
structure Covers (positions : PricedPositions) (shortfall : ℚ) (sells : PricedPositions) : Prop where
  covers : shortfall ≤ totalWorth sells
  pos : ∀ sell ∈ sells, 0 < sell.2.1
  held : ∀ sell ∈ sells, sell.2.1 ≤ (positions.getD sell.1 (0, 0)).1

/-- Raising cash works, or fails for want of value. -/
structure RaisesCash (positions : PricedPositions) (shortfall : ℚ) : Prop where
  sells : ∀ sells, planSells positions shortfall = .ok sells → Covers positions shortfall sells
  fails : (∃ left, planSells positions shortfall = .error left) ↔
    totalWorth (positions.filter Sellable) < shortfall

/-- Where the shortfall ends inside a position, the eight-decimal part of that position is worth
what is left of it. -/
def LastSellFits (positions : PricedPositions) (shortfall : ℚ) : Prop :=
  ∀ before symbol qty price after,
    sellSequence positions = before ++ (symbol, qty, price) :: after →
    totalWorth before < shortfall → shortfall < totalWorth before + qty * price →
    shortfall - totalWorth before ≤ eightDecimalsDown qty * price

section Loop

theorem worth_pos {entry : String × ℚ × ℚ} (h : Sellable entry) : 0 < worth entry :=
  mul_pos h.1 h.2

@[simp] theorem totalWorth_nil : totalWorth [] = 0 := rfl

@[simp] theorem totalWorth_cons (entry : String × ℚ × ℚ) (entries : PricedPositions) :
    totalWorth (entry :: entries) = worth entry + totalWorth entries := by simp [totalWorth]

theorem totalWorth_append (a b : PricedPositions) :
    totalWorth (a ++ b) = totalWorth a + totalWorth b := by simp [totalWorth]

theorem totalWorth_nonneg {entries : PricedPositions} (h : ∀ entry ∈ entries, Sellable entry) :
    0 ≤ totalWorth entries := by
  apply List.sum_nonneg
  intro x hx
  obtain ⟨entry, hentry, rfl⟩ := List.mem_map.mp hx
  exact (worth_pos (h entry hentry)).le

/-- Positions that cannot be sold are passed over. -/
theorem sellLoop_filter (remaining : ℚ) (entries : PricedPositions) :
    sellLoop remaining entries = sellLoop remaining (entries.filter Sellable) := by
  induction entries generalizing remaining with
  | nil => rfl
  | cons entry rest ih =>
    obtain ⟨symbol, qty, price⟩ := entry
    by_cases hs : Sellable (symbol, qty, price)
    · rw [List.filter_cons_of_pos (by simpa using hs)]
      simp only [sellLoop, ← ih]
    · rw [List.filter_cons_of_neg (by simpa using hs), ← ih]
      have hskip : qty ≤ 0 ∨ price ≤ 0 := by
        by_contra hpos
        push Not at hpos
        exact hs hpos
      by_cases hr : remaining ≤ 0
      · cases rest <;> simp [sellLoop, hr]
      · simp [sellLoop, hr, hskip]

theorem sellLoop_of_nonpos {remaining : ℚ} (h : remaining ≤ 0) (entries : PricedPositions) :
    sellLoop remaining entries = ([], remaining) := by
  cases entries <;> simp [sellLoop, h]

/-- The positions before the shortfall is covered are sold whole. -/
theorem sellLoop_append {remaining : ℚ} {before : PricedPositions}
    (hs : ∀ entry ∈ before, Sellable entry) (hle : totalWorth before ≤ remaining)
    (after : PricedPositions) : sellLoop remaining (before ++ after) =
      (before ++ (sellLoop (remaining - totalWorth before) after).1,
        (sellLoop (remaining - totalWorth before) after).2) := by
  induction before generalizing remaining with
  | nil => simp
  | cons entry rest ih =>
    obtain ⟨symbol, qty, price⟩ := entry
    have hsell : Sellable (symbol, qty, price) := hs _ (List.mem_cons_self ..)
    have hrest : ∀ e ∈ rest, Sellable e := fun e he => hs e (List.mem_cons_of_mem _ he)
    have hpos : 0 < qty * price := worth_pos hsell
    have hnonneg := totalWorth_nonneg hrest
    rw [totalWorth_cons] at hle
    have hle' : qty * price + totalWorth rest ≤ remaining := hle
    rw [List.cons_append, sellLoop, if_neg (by linarith),
      if_neg (by simp [hsell.1, hsell.2]), if_pos (by linarith), ih hrest (by linarith),
      totalWorth_cons]
    simp [worth, sub_sub]

/-- The position inside which the shortfall ends is sold in part. -/
theorem sellLoop_part {remaining : ℚ} {symbol : String} {qty price : ℚ}
    (hs : Sellable (symbol, qty, price)) (hpos : 0 < remaining) (hlt : remaining < qty * price)
    (after : PricedPositions) : sellLoop remaining ((symbol, qty, price) :: after) =
      ([(symbol, eightDecimalsUp (remaining / price), price)], 0) := by
  rw [sellLoop, if_neg (not_le.mpr hpos), if_neg (by simp [hs.1, hs.2]), if_neg (not_le.mpr hlt),
    sellLoop_of_nonpos le_rfl]

/-- A shortfall is more than all positions, ends with one of them or ends inside one. -/
theorem exists_end {entries : PricedPositions} (shortfall : ℚ) (hpos : 0 < shortfall) :
    totalWorth entries < shortfall ∨
    (∃ before after, entries = before ++ after ∧ totalWorth before = shortfall) ∨
    ∃ before symbol qty price after, entries = before ++ (symbol, qty, price) :: after ∧
      totalWorth before < shortfall ∧ shortfall < totalWorth before + qty * price := by
  induction entries generalizing shortfall with
  | nil => exact Or.inl hpos
  | cons entry rest ih =>
    obtain ⟨symbol, qty, price⟩ := entry
    rcases lt_trichotomy shortfall (qty * price) with hlt | heq | hgt
    · exact Or.inr (Or.inr ⟨[], symbol, qty, price, rest, rfl, hpos, by simpa using hlt⟩)
    · exact Or.inr (Or.inl ⟨[(symbol, qty, price)], rest, rfl, by simp [worth, heq]⟩)
    · rcases ih (shortfall - qty * price) (by linarith) with h | h | h
      · left
        rw [totalWorth_cons, worth]
        linarith
      · obtain ⟨before, after, rfl, hworth⟩ := h
        refine Or.inr (Or.inl ⟨(symbol, qty, price) :: before, after, rfl, ?_⟩)
        rw [totalWorth_cons, hworth, worth]
        ring
      · obtain ⟨before, s, q, p, after, rfl, hbelow, habove⟩ := h
        refine Or.inr (Or.inr ⟨(symbol, qty, price) :: before, s, q, p, after, rfl, ?_, ?_⟩)
        · rw [totalWorth_cons, worth]
          linarith
        · rw [totalWorth_cons, worth]
          linarith

end Loop

section Plans

variable {positions : PricedPositions} {shortfall : ℚ}

theorem sellable_of_mem_sellSequence {entry : String × ℚ × ℚ} (h : entry ∈ sellSequence positions) :
    Sellable entry := by simpa using List.of_mem_filter h

theorem byValue_perm (positions : PricedPositions) : (byValue positions).Perm positions :=
  List.perm_insertionSort _ _

theorem totalWorth_sellSequence (positions : PricedPositions) :
    totalWorth (sellSequence positions) = totalWorth (positions.filter Sellable) :=
  (((byValue_perm positions).filter _).map worth).sum_eq

theorem planSells_eq (positions : PricedPositions) (shortfall : ℚ) :
    planSells positions shortfall =
      if 0 < (sellLoop shortfall (sellSequence positions)).2 then
        .error (sellLoop shortfall (sellSequence positions)).2
      else .ok (sellLoop shortfall (sellSequence positions)).1 := by
  rw [planSells, sellLoop_filter]
  rfl

theorem planSells_short (h : totalWorth (sellSequence positions) < shortfall) :
    planSells positions shortfall = .error (shortfall - totalWorth (sellSequence positions)) := by
  have hloop : sellLoop shortfall (sellSequence positions) =
      (sellSequence positions, shortfall - totalWorth (sellSequence positions)) := by
    have happ := sellLoop_append (fun _ he => sellable_of_mem_sellSequence he) h.le []
    simpa [sellLoop] using happ
  rw [planSells_eq, hloop, if_pos (sub_pos.mpr h)]

theorem planSells_whole {before after : PricedPositions}
    (heq : sellSequence positions = before ++ after) (hworth : totalWorth before = shortfall) :
    planSells positions shortfall = .ok before := by
  have hs : ∀ entry ∈ before, Sellable entry := fun entry he =>
    sellable_of_mem_sellSequence (heq ▸ List.mem_append_left _ he)
  have hloop : sellLoop shortfall (sellSequence positions) = (before, 0) := by
    rw [heq, sellLoop_append hs hworth.le, hworth, sub_self, sellLoop_of_nonpos le_rfl]
    simp
  rw [planSells_eq, hloop, if_neg (lt_irrefl 0)]

theorem planSells_part {before after : PricedPositions} {symbol : String} {qty price : ℚ}
    (heq : sellSequence positions = before ++ (symbol, qty, price) :: after)
    (hbelow : totalWorth before < shortfall) (habove : shortfall < totalWorth before + qty * price) :
    planSells positions shortfall = .ok (before ++
      [(symbol, eightDecimalsUp ((shortfall - totalWorth before) / price), price)]) := by
  have hs : ∀ entry ∈ before, Sellable entry := fun entry he =>
    sellable_of_mem_sellSequence (heq ▸ List.mem_append_left _ he)
  have hlast : Sellable (symbol, qty, price) := sellable_of_mem_sellSequence
    (heq ▸ List.mem_append_right _ (List.mem_cons_self ..))
  have hloop : sellLoop shortfall (sellSequence positions) = (before ++
      [(symbol, eightDecimalsUp ((shortfall - totalWorth before) / price), price)], 0) := by
    rw [heq, sellLoop_append hs hbelow.le, sellLoop_part hlast (sub_pos.mpr hbelow) (by linarith)]
  rw [planSells_eq, hloop, if_neg (lt_irrefl 0)]

/-- A position of the order is what the sleeve holds of its symbol. -/
theorem getD_of_mem_sellSequence (hkeys : (InsertionDict.keys positions).Nodup)
    {entry : String × ℚ × ℚ} (h : entry ∈ sellSequence positions) :
    positions.getD entry.1 (0, 0) = entry.2 := by
  have hmem : (entry.1, entry.2) ∈ positions :=
    (byValue_perm positions).mem_iff.mp (List.mem_of_mem_filter h)
  rw [InsertionDict.getD, (InsertionDict.lookup_eq_some_iff hkeys).mpr hmem, Option.getD_some]

theorem le_eightDecimalsUp (x : ℚ) : x ≤ eightDecimalsUp x := by
  rw [eightDecimalsUp, le_div_iff₀ (by norm_num)]
  exact Int.le_ceil _

theorem eightDecimalsUp_le_iff (x y : ℚ) : eightDecimalsUp x ≤ y ↔ x ≤ eightDecimalsDown y := by
  rw [eightDecimalsUp, eightDecimalsDown, div_le_iff₀ (by norm_num), le_div_iff₀ (by norm_num),
    ← Int.le_floor, Int.ceil_le]

/-- What a plan that sells whole positions covers. -/
theorem covers_whole (hkeys : (InsertionDict.keys positions).Nodup) {before after : PricedPositions}
    (heq : sellSequence positions = before ++ after) (hle : shortfall ≤ totalWorth before) :
    Covers positions shortfall before where
  covers := hle
  pos sell hsell := (sellable_of_mem_sellSequence (heq ▸ List.mem_append_left _ hsell)).1
  held sell hsell := by
    rw [getD_of_mem_sellSequence hkeys (heq ▸ List.mem_append_left _ hsell)]

/-- A plan that ends inside a position covers the shortfall, with shares that are there when the
rounded quantity is. -/
theorem covers_part_iff (hkeys : (InsertionDict.keys positions).Nodup)
    {before after : PricedPositions} {symbol : String} {qty price : ℚ}
    (heq : sellSequence positions = before ++ (symbol, qty, price) :: after)
    (hbelow : totalWorth before < shortfall) :
    Covers positions shortfall (before ++
        [(symbol, eightDecimalsUp ((shortfall - totalWorth before) / price), price)]) ↔
      shortfall - totalWorth before ≤ eightDecimalsDown qty * price := by
  have hmem : (symbol, qty, price) ∈ sellSequence positions :=
    heq ▸ List.mem_append_right _ (List.mem_cons_self ..)
  have hprice : 0 < price := (sellable_of_mem_sellSequence hmem).2
  have hqty : (positions.getD symbol (0, 0)).1 = qty := by
    rw [getD_of_mem_sellSequence hkeys hmem]
  have hneed : 0 < (shortfall - totalWorth before) / price := div_pos (sub_pos.mpr hbelow) hprice
  have hup := le_eightDecimalsUp ((shortfall - totalWorth before) / price)
  rw [← div_le_iff₀ hprice, ← eightDecimalsUp_le_iff]
  constructor
  · intro h
    have hheld := h.held _ (List.mem_append_right _ (List.mem_singleton_self _))
    rwa [hqty] at hheld
  · intro hle
    have hbefore := covers_whole hkeys heq le_rfl
    refine ⟨?_, fun sell hsell => ?_, fun sell hsell => ?_⟩
    · rw [totalWorth_append, totalWorth_cons, totalWorth_nil, add_zero, worth]
      have := (div_le_iff₀ hprice).mp hup
      linarith
    · rcases List.mem_append.mp hsell with hsell | hsell
      · exact hbefore.pos sell hsell
      · obtain rfl := List.mem_singleton.mp hsell
        exact hneed.trans_le hup
    · rcases List.mem_append.mp hsell with hsell | hsell
      · exact hbefore.held sell hsell
      · obtain rfl := List.mem_singleton.mp hsell
        exact hle.trans_eq hqty.symm

/-- The planner fails exactly when the positions are worth less than the shortfall. -/
theorem planSells_fails_iff (hpos : 0 < shortfall) :
    (∃ left, planSells positions shortfall = .error left) ↔
      totalWorth (positions.filter Sellable) < shortfall := by
  rw [← totalWorth_sellSequence]
  constructor
  · rintro ⟨left, hleft⟩
    rcases @exists_end (sellSequence positions) shortfall hpos with h | h | h
    · exact h
    · obtain ⟨before, after, heq, hworth⟩ := h
      rw [planSells_whole heq hworth] at hleft
      cases hleft
    · obtain ⟨before, symbol, qty, price, after, heq, hbelow, habove⟩ := h
      rw [planSells_part heq hbelow habove] at hleft
      cases hleft
  · intro h
    exact ⟨_, planSells_short h⟩

end Plans

end LlamaTrade
