import LlamaTrade.InsertionDict
import LlamaTrade.TradingOrders
import Mathlib.Algebra.Order.Field.Basic
import Mathlib.Algebra.Order.Floor.Ring
import Mathlib.Data.List.Sort
import Mathlib.Data.Rat.Floor
import Mathlib.Tactic.Linarith
import Mathlib.Tactic.FieldSimp

/-!
# Affordable plans

The desired weights of a sleeve become orders, and each buy is scaled down to the free cash of the
sleeve (`plan_rebalance`). Every buy is fitted to the whole of the free cash, so a plan is
affordable only where the sells pay for what the buys spend beyond it.
-/

namespace LlamaTrade

/-- `round` to an integer, a half to the even one. -/
def roundHalfEven (x : ℚ) : ℤ :=
  if 2 * (x - ⌊x⌋) < 1 then ⌊x⌋
  else if 1 < 2 * (x - ⌊x⌋) then ⌊x⌋ + 1
  else if ⌊x⌋ % 2 = 0 then ⌊x⌋
  else ⌊x⌋ + 1

/-- `quantize(_QTY)`. -/
def toQty (x : ℚ) : ℚ := roundHalfEven (x * 10 ^ 8) / 10 ^ 8

structure SleeveOrder where
  sleeveId : String
  symbol : String
  side : OrderSide
  qty : ℚ
  estPrice : ℚ
  deriving DecidableEq

def SleeveOrder.cost (order : SleeveOrder) : ℚ := order.qty * order.estPrice

/-- `SleeveDesired`, without the default weights that nothing reads. -/
structure SleeveDesired where
  sleeveId : String
  equity : ℚ
  targetWeights : InsertionDict ℚ
  currentPositions : InsertionDict ℚ
  freeCash : ℚ

/-- One round of the loop of `target_orders`. -/
def SleeveDesired.targetOrder (d : SleeveDesired) (prices : InsertionDict ℚ) (driftTolerance : ℚ)
    (symbol : String) : Option SleeveOrder :=
  match prices.lookup symbol with
  | none => none
  | some price =>
    if price ≤ 0 then none
    else
      let weight := d.targetWeights.getD symbol 0
      let curQty := d.currentPositions.getD symbol 0
      if weight ≤ 0 then
        if 0 < curQty then some ⟨d.sleeveId, symbol, .sell, curQty, price⟩ else none
      else
        let targetValue := d.equity * weight / 100
        let deltaQty := targetValue / price - curQty
        if deltaQty = 0 then none
        else if 0 < targetValue ∧ |deltaQty * price| / targetValue < driftTolerance then none
        else some ⟨d.sleeveId, symbol, if 0 < deltaQty then .buy else .sell, toQty |deltaQty|, price⟩

/-- `target_orders`. -/
def SleeveDesired.targetOrders (d : SleeveDesired) (prices : InsertionDict ℚ)
    (driftTolerance : ℚ) : List SleeveOrder :=
  ((d.targetWeights.keys ++ d.currentPositions.keys).dedup.insertionSort (· ≤ ·)).filterMap
    (d.targetOrder prices driftTolerance)

/-- `fit_to_free_cash`. -/
def fitToFreeCash (order : SleeveOrder) (freeCash : ℚ) : Option SleeveOrder :=
  if order.side ≠ .buy then some order
  else if order.cost ≤ freeCash then some order
  else if freeCash ≤ 0 ∨ order.estPrice ≤ 0 then none
  else if toQty (freeCash / order.estPrice) ≤ 0 then none
  else some { order with qty := toQty (freeCash / order.estPrice) }

def ordersOn (side : OrderSide) (orders : List SleeveOrder) : List SleeveOrder :=
  orders.filter (·.side = side)

def orderCost (orders : List SleeveOrder) : ℚ := (orders.map (·.cost)).sum

/-- The orders of one sleeve: its sells, then its fitted buys. -/
def SleeveDesired.plan (d : SleeveDesired) (prices : InsertionDict ℚ) (driftTolerance : ℚ) :
    List SleeveOrder :=
  let orders := d.targetOrders prices driftTolerance
  ordersOn .sell orders ++ (ordersOn .buy orders).filterMap (fitToFreeCash · d.freeCash)

/-- The last desired state of a sleeve. -/
def desiredOf (desired : List SleeveDesired) (sleeve : String) : Option SleeveDesired :=
  desired.reverse.find? (·.sleeveId = sleeve)

/-- `plan_rebalance`, as a dictionary by sleeve: the last desired state of a sleeve stays. -/
def planRebalance (desired : List SleeveDesired) (prices : InsertionDict ℚ) (driftTolerance : ℚ)
    (sleeve : String) : Option (List SleeveOrder) :=
  (desiredOf desired sleeve).map fun d => d.plan prices driftTolerance

/-- The free cash and the sells of a plan pay for its buys. -/
def Affordable (freeCash : ℚ) (orders : List SleeveOrder) : Prop :=
  orderCost (ordersOn .buy orders) ≤ freeCash + orderCost (ordersOn .sell orders)

/-- What one sized buy may spend of the free cash: its cost, or all of the free cash up to the
rounding of the quantity. -/
def spending (freeCash : ℚ) (order : SleeveOrder) : ℚ :=
  if order.cost ≤ freeCash then order.cost
  else if freeCash ≤ 0 then 0
  else freeCash + (toQty (freeCash / order.estPrice) - freeCash / order.estPrice) * order.estPrice

/-- The sells pay for what the sized buys spend beyond the free cash, each one for itself. -/
def SellsPay (d : SleeveDesired) (prices : InsertionDict ℚ) (driftTolerance : ℚ) : Prop :=
  ((ordersOn .buy (d.targetOrders prices driftTolerance)).map (spending d.freeCash)).sum ≤
    d.freeCash + orderCost (ordersOn .sell (d.targetOrders prices driftTolerance))

variable {d : SleeveDesired} {prices : InsertionDict ℚ} {driftTolerance : ℚ}

theorem roundHalfEven_nonneg {x : ℚ} (h : 0 ≤ x) : 0 ≤ roundHalfEven x := by
  have hfloor : 0 ≤ ⌊x⌋ := Int.floor_nonneg.mpr h
  unfold roundHalfEven
  split_ifs <;> omega

theorem toQty_nonneg {x : ℚ} (h : 0 ≤ x) : 0 ≤ toQty x := by
  have hround : 0 ≤ roundHalfEven (x * 10 ^ 8) := roundHalfEven_nonneg (by positivity)
  exact div_nonneg (by exact_mod_cast hround) (by norm_num)

/-- An order is for a price that is positive. -/
theorem estPrice_pos {order : SleeveOrder} (h : order ∈ d.targetOrders prices driftTolerance) :
    0 < order.estPrice := by
  rw [SleeveDesired.targetOrders, List.mem_filterMap] at h
  obtain ⟨symbol, -, h⟩ := h
  unfold SleeveDesired.targetOrder at h
  split at h
  · cases h
  · dsimp only at h
    split_ifs at h with hprice <;> cases h <;> exact not_le.mp hprice

/-- What is left of a buy costs what it may spend. -/
theorem cost_fitToFreeCash {order : SleeveOrder} {freeCash : ℚ} (hside : order.side = .buy)
    (hprice : 0 < order.estPrice) :
    (fitToFreeCash order freeCash).elim 0 SleeveOrder.cost = spending freeCash order := by
  unfold fitToFreeCash spending
  rw [if_neg (not_not.mpr hside)]
  by_cases hcost : order.cost ≤ freeCash
  · rw [if_pos hcost, if_pos hcost, Option.elim_some]
  · rw [if_neg hcost, if_neg hcost]
    by_cases hcash : freeCash ≤ 0
    · rw [if_pos (Or.inl hcash), if_pos hcash, Option.elim_none]
    · have hspent : freeCash + (toQty (freeCash / order.estPrice) - freeCash / order.estPrice) *
          order.estPrice = toQty (freeCash / order.estPrice) * order.estPrice := by
        rw [sub_mul, div_mul_cancel₀ _ hprice.ne']
        ring
      rw [if_neg (not_or.mpr ⟨hcash, not_le.mpr hprice⟩), if_neg hcash, hspent]
      by_cases hqty : toQty (freeCash / order.estPrice) ≤ 0
      · have hzero : toQty (freeCash / order.estPrice) = 0 :=
          le_antisymm hqty (toQty_nonneg (div_nonneg (not_le.mp hcash).le hprice.le))
        rw [if_pos hqty, hzero, zero_mul, Option.elim_none]
      · rw [if_neg hqty, Option.elim_some, SleeveOrder.cost]

theorem side_of_mem_ordersOn {side : OrderSide} {orders : List SleeveOrder} {order : SleeveOrder}
    (h : order ∈ ordersOn side orders) : order.side = side := by
  simpa using List.of_mem_filter h

theorem side_fitToFreeCash {order fitted : SleeveOrder} {freeCash : ℚ}
    (h : fitToFreeCash order freeCash = some fitted) : fitted.side = order.side := by
  unfold fitToFreeCash at h
  split_ifs at h <;> cases h <;> rfl

theorem totalCost_filterMap {buys : List SleeveOrder} {freeCash : ℚ}
    (h : ∀ order ∈ buys, order.side = .buy ∧ 0 < order.estPrice) :
    orderCost (buys.filterMap (fitToFreeCash · freeCash)) = (buys.map (spending freeCash)).sum := by
  induction buys with
  | nil => rfl
  | cons order buys ih =>
    obtain ⟨⟨hside, hprice⟩, hrest⟩ := List.forall_mem_cons.mp h
    have hfirst := @cost_fitToFreeCash order freeCash hside hprice
    rw [List.map_cons, List.sum_cons, ← ih hrest, ← hfirst, List.filterMap_cons]
    cases fitToFreeCash order freeCash with
    | none => rw [Option.elim_none, zero_add]
    | some fitted => simp [orderCost]

/-- The buys of a plan are the fitted buys, and its sells the sized ones. -/
theorem ordersOn_plan (d : SleeveDesired) (prices : InsertionDict ℚ) (driftTolerance : ℚ) :
    ordersOn .buy (d.plan prices driftTolerance) =
        (ordersOn .buy (d.targetOrders prices driftTolerance)).filterMap
          (fitToFreeCash · d.freeCash) ∧
      ordersOn .sell (d.plan prices driftTolerance) =
        ordersOn .sell (d.targetOrders prices driftTolerance) := by
  have hsells : ∀ order ∈ ordersOn .sell (d.targetOrders prices driftTolerance),
      order.side = .sell := fun order h => side_of_mem_ordersOn h
  have hbuys : ∀ order ∈ (ordersOn .buy (d.targetOrders prices driftTolerance)).filterMap
      (fitToFreeCash · d.freeCash), order.side = .buy := by
    intro order h
    obtain ⟨sized, hsized, hfit⟩ := List.mem_filterMap.mp h
    rw [side_fitToFreeCash hfit]
    exact side_of_mem_ordersOn hsized
  constructor
  · unfold SleeveDesired.plan
    rw [ordersOn, List.filter_append, List.filter_eq_nil_iff.mpr, List.nil_append,
      List.filter_eq_self.mpr]
    · intro order h
      simpa using hbuys order h
    · intro order h
      simp [hsells order h]
  · unfold SleeveDesired.plan
    rw [ordersOn, List.filter_append, List.filter_eq_self.mpr, List.filter_eq_nil_iff.mpr,
      List.append_nil]
    · intro order h
      simp [hbuys order h]
    · intro order h
      simpa using hsells order h

/-- A plan is affordable if and only if the sells pay for what each buy may spend. -/
theorem plan_affordable_iff (d : SleeveDesired) (prices : InsertionDict ℚ) (driftTolerance : ℚ) :
    Affordable d.freeCash (d.plan prices driftTolerance) ↔ SellsPay d prices driftTolerance := by
  have hbuys : ∀ order ∈ ordersOn .buy (d.targetOrders prices driftTolerance),
      order.side = .buy ∧ 0 < order.estPrice := fun order h =>
    ⟨side_of_mem_ordersOn h, estPrice_pos (List.mem_of_mem_filter h)⟩
  obtain ⟨hbuy, hsell⟩ := ordersOn_plan d prices driftTolerance
  rw [Affordable, SellsPay, hbuy, hsell, totalCost_filterMap hbuys]

namespace Sample

/-- A sleeve worth 100 with 50 in cash that wants 60 in one symbol and 40 in another. -/
def halfInvested : SleeveDesired :=
  ⟨"momentum", 100, [("SPY", 60), ("TLT", 40)], [("GLD", 0)], 50⟩

end Sample

end LlamaTrade
