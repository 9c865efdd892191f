import LlamaTrade.CompiledStrategy
import LlamaTrade.TradingOrders
import Mathlib.Data.Rat.Floor

/-!
# Sizing of orders

Target weights become orders (`sizing.py`): the wanted orders of each symbol, the floor on their
notional, the fit of the buys to the cash that funds them, and the rounding to tradable shares.
The counter of skipped orders is left out.
-/

namespace LlamaTrade

variable {K : Type}

/-- `IntendedOrder`. -/
structure IntendedOrder (K : Type) where
  symbol : String
  side : OrderSide
  quantity : K
  price : K
  deriving DecidableEq

inductive SizingMode where
  | binary | drift
  deriving DecidableEq

/-- `ShareQuantization`. -/
structure ShareQuantization where
  fractional : Bool
  decimals : ℤ

/-- The arguments of `size_orders`. A holding is its quantity. -/
structure SizeRequest (K : Type) where
  targetWeights : InsertionDict K
  holdings : InsertionDict K
  prices : InsertionDict K
  equity : K
  mode : SizingMode
  driftTolerance : K
  minWeightChange : K
  minOrderNotional : K
  currentWeights : InsertionDict K
  freeCash : Option K
  quantization : Option ShareQuantization

section Definitions

variable [Field K] [LinearOrder K]

/-- `_notional`. -/
def IntendedOrder.notional (order : IntendedOrder K) : K := order.quantity * order.price

def buyOrder (symbol : String) (quantity price : K) : Option (IntendedOrder K) :=
  if quantity ≤ 0 then none else some ⟨symbol, .buy, quantity, price⟩

def sellOrder (symbol : String) (quantity price : K) : Option (IntendedOrder K) :=
  if quantity ≤ 0 then none else some ⟨symbol, .sell, quantity, price⟩

/-- `_size_one`. -/
def sizeOne (symbol : String) (targetWeight heldQty price equity : K) (mode : SizingMode)
    (driftTolerance : K) : Option (IntendedOrder K) :=
  match mode with
  | .binary =>
    if targetWeight > 0 ∧ ¬ heldQty > 0 then
      buyOrder symbol (equity * (targetWeight / 100) / price) price
    else if targetWeight = 0 ∧ heldQty > 0 then sellOrder symbol heldQty price
    else none
  | .drift =>
    let targetValue := equity * (targetWeight / 100)
    let deltaValue := targetValue - heldQty * price
    if targetValue > 0 ∧ |deltaValue| / targetValue ≤ driftTolerance then none
    else if deltaValue > 0 then buyOrder symbol (deltaValue / price) price
    else sellOrder symbol (min (-deltaValue / price) heldQty) price

namespace SizeRequest

variable (r : SizeRequest K)

/-- The quantity held of a symbol. -/
def held (symbol : String) : K := r.holdings.getD symbol 0

/-- The symbols of the targets and of the holdings, sorted. -/
def symbols : List String :=
  (r.targetWeights.keys ++ r.holdings.keys).dedup.insertionSort (· ≤ ·)

/-- The order that one round of the loop of `size_orders` appends. -/
def wanted (symbol : String) : Option (IntendedOrder K) :=
  let price := r.prices.getD symbol 0
  let targetWeight := r.targetWeights.getD symbol 0
  if price ≤ 0 then none
  else if (r.currentWeights.lookup symbol).any fun prev =>
      |targetWeight - prev| < r.minWeightChange ∧ (r.held symbol > 0 ↔ targetWeight > 0) then none
  else sizeOne symbol targetWeight (r.held symbol) price r.equity r.mode r.driftTolerance

end SizeRequest

/-- Sells before buys, and by symbol. -/
def ordersBefore (a b : IntendedOrder K) : Prop :=
  a.side = .sell ∧ b.side = .buy ∨ a.side = b.side ∧ a.symbol ≤ b.symbol

instance (a b : IntendedOrder K) : Decidable (ordersBefore a b) :=
  inferInstanceAs (Decidable (_ ∨ _))

/-- The orders of one side. -/
def ordersOf (side : OrderSide) (orders : List (IntendedOrder K)) : List (IntendedOrder K) :=
  orders.filter (·.side = side)

/-- The total notional of one side. -/
def totalNotional (side : OrderSide) (orders : List (IntendedOrder K)) : K :=
  ((ordersOf side orders).map (·.notional)).sum

/-- One order of `_fit_buys_to_budget`, which may be dropped. -/
def fitOrder (scale floor : K) (order : IntendedOrder K) : Option (IntendedOrder K) :=
  let trimmed := { order with side := .buy, quantity := order.quantity * scale }
  if trimmed.quantity ≤ 0 ∨ trimmed.notional < floor then none else some trimmed

/-- `_fit_buys_to_budget`. -/
def fitBuysToBudget (buys : List (IntendedOrder K)) (budget floor : K) : List (IntendedOrder K) :=
  let total := (buys.map (·.notional)).sum
  if total ≤ 0 then []
  else
    let scale := if budget > 0 then min 1 (budget / total) else 0
    buys.filterMap (fitOrder scale floor)

/-- `_apply_notional_floor`. -/
def applyNotionalFloor (orders : List (IntendedOrder K)) (floor : K) (freeCash : Option K) :
    List (IntendedOrder K) :=
  let kept := orders.filter fun order => ¬ order.notional < floor
  let sells := ordersOf .sell kept
  let buys := ordersOf .buy kept
  match freeCash with
  | some freeCash =>
    sells ++ fitBuysToBudget buys (freeCash + (sells.map (·.notional)).sum) floor
  | none =>
    let shortfall := totalNotional .sell (orders.filter fun order => order.notional < floor)
    if shortfall ≤ 0 then sells ++ buys
    else sells ++ fitBuysToBudget buys ((buys.map (·.notional)).sum - shortfall) floor

/-- The orders are at most one for each symbol, sells before buys, no sell is of more than what is
held and no order is below the floor. -/
structure WellFormedOrders (r : SizeRequest K) (orders : List (IntendedOrder K)) : Prop where
  nodup : (orders.map (·.symbol)).Nodup
  sells_first : orders = ordersOf .sell orders ++ ordersOf .buy orders
  le_held : ∀ order ∈ orders, order.side = .sell → order.quantity ≤ r.held order.symbol
  floor_le : ∀ order ∈ orders, r.minOrderNotional ≤ order.notional

/-- The free cash and the proceeds of the sells pay for the buys. -/
def Fundable (r : SizeRequest K) (orders : List (IntendedOrder K)) : Prop :=
  ∀ freeCash, r.freeCash = some freeCash →
    totalNotional .buy orders ≤ max 0 (freeCash + totalNotional .sell orders)

variable [FloorRing K]

/-- `quantize_quantity`. -/
def quantizeQuantity (quantity : K) (fractional : Bool) (decimals : ℤ) : K :=
  if quantity ≤ 0 then 0
  else if !fractional then (⌊quantity⌋ : K)
  else (⌊quantity * 10 ^ decimals⌋ : K) / 10 ^ decimals

/-- `ShareQuantization.apply`. -/
def ShareQuantization.apply (quantization : ShareQuantization) (quantity : K) : K :=
  quantizeQuantity quantity quantization.fractional quantization.decimals

/-- One order of `_quantize_orders`, which may be dropped. -/
def quantizeOrder (quantization : ShareQuantization) (floor : K) (order : IntendedOrder K) :
    Option (IntendedOrder K) :=
  let rounded := { order with quantity := quantization.apply order.quantity }
  if rounded.quantity ≤ 0 ∨ rounded.notional < floor then none else some rounded

/-- `_quantize_orders`. -/
def quantizeOrders (orders : List (IntendedOrder K)) (quantization : ShareQuantization)
    (floor : K) : List (IntendedOrder K) := orders.filterMap (quantizeOrder quantization floor)

/-- What the rounding takes from the notional of an order, all of it when the order is dropped. -/
def roundingLoss (quantization : ShareQuantization) (floor : K) (order : IntendedOrder K) : K :=
  order.notional - ((quantizeOrder quantization floor order).elim 0 (·.notional))

/-- The orders before they are rounded. -/
def SizeRequest.funded (r : SizeRequest K) : List (IntendedOrder K) :=
  applyNotionalFloor ((r.symbols.filterMap r.wanted).insertionSort ordersBefore)
    r.minOrderNotional r.freeCash

/-- `size_orders`. -/
def sizeOrders (r : SizeRequest K) : List (IntendedOrder K) :=
  match r.quantization with
  | none => r.funded
  | some quantization => quantizeOrders r.funded quantization r.minOrderNotional

/-- With free cash and a rounding: no buy survives the rounding, or the rounding takes from the
sells no more than from the buys and from what the buys leave unspent. -/
def SizeRequest.RoundingCovered (r : SizeRequest K) : Prop :=
  ∀ freeCash quantization, r.freeCash = some freeCash → r.quantization = some quantization →
    (∀ order ∈ ordersOf .buy r.funded,
      quantizeOrder quantization r.minOrderNotional order = none) ∨
    ((ordersOf .sell r.funded).map (roundingLoss quantization r.minOrderNotional)).sum ≤
      ((ordersOf .buy r.funded).map (roundingLoss quantization r.minOrderNotional)).sum +
        (freeCash + totalNotional .sell r.funded - totalNotional .buy r.funded)

end Definitions

/-! ## Quantities -/

section Orders

variable [Field K] [LinearOrder K]

/-- An order that may come out of the sizing of a request. -/
structure IntendedOrder.SizedFor (r : SizeRequest K) (order : IntendedOrder K) : Prop where
  quantity_pos : 0 < order.quantity
  price_pos : 0 < order.price
  le_held : order.side = .sell → order.quantity ≤ r.held order.symbol

theorem IntendedOrder.SizedFor.notional_pos [IsStrictOrderedRing K] {r : SizeRequest K}
    {order : IntendedOrder K} (h : order.SizedFor r) : 0 < order.notional := mul_pos h.quantity_pos h.price_pos

/-- The same order with a smaller quantity. -/
theorem IntendedOrder.SizedFor.shrink {r : SizeRequest K} {order : IntendedOrder K} {quantity : K}
    (h : order.SizedFor r) (hpos : 0 < quantity) (hle : quantity ≤ order.quantity) :
    { order with quantity }.SizedFor r :=
  ⟨hpos, h.price_pos, fun hsell => hle.trans (h.le_held hsell)⟩

theorem sizeOne_sized {r : SizeRequest K} {symbol : String} {targetWeight price equity : K}
    {mode : SizingMode} {driftTolerance : K} {order : IntendedOrder K} (hprice : 0 < price)
    (h : sizeOne symbol targetWeight (r.held symbol) price equity mode driftTolerance =
      some order) : order.SizedFor r ∧ order.symbol = symbol := by
  have hbuy : ∀ quantity, buyOrder symbol quantity price = some order →
      order.SizedFor r ∧ order.symbol = symbol := by
    intro quantity hquantity
    unfold buyOrder at hquantity
    split_ifs at hquantity with hpos
    cases hquantity
    exact ⟨⟨not_le.mp hpos, hprice, fun hsell => by cases hsell⟩, rfl⟩
  have hsell : ∀ quantity ≤ r.held symbol, sellOrder symbol quantity price = some order →
      order.SizedFor r ∧ order.symbol = symbol := by
    intro quantity hle hquantity
    unfold sellOrder at hquantity
    split_ifs at hquantity with hpos
    cases hquantity
    exact ⟨⟨not_le.mp hpos, hprice, fun _ => hle⟩, rfl⟩
  cases mode with
  | binary =>
    simp only [sizeOne] at h
    split_ifs at h
    · exact hbuy _ h
    · exact hsell _ le_rfl h
  | drift =>
    simp only [sizeOne] at h
    split_ifs at h
    · exact hbuy _ h
    · exact hsell _ (min_le_right ..) h

theorem SizeRequest.wanted_sized {r : SizeRequest K} {symbol : String} {order : IntendedOrder K}
    (h : r.wanted symbol = some order) : order.SizedFor r ∧ order.symbol = symbol := by
  unfold wanted at h
  simp only at h
  split_ifs at h with hprice
  exact sizeOne_sized (not_le.mp hprice) h

omit [Field K] [LinearOrder K] in
theorem symbols_nodup (r : SizeRequest K) : r.symbols.Nodup :=
  (List.perm_insertionSort ..).nodup_iff.mpr (List.nodup_dedup _)

/-! ## Batches -/

/-- The orders are sized for the request, at most one for each symbol. -/
structure SizedBatch (r : SizeRequest K) (orders : List (IntendedOrder K)) : Prop where
  sized : ∀ order ∈ orders, order.SizedFor r
  nodup : (orders.map (·.symbol)).Nodup

omit [Field K] [LinearOrder K] in
theorem map_filterMap_sublist {α β γ : Type} {l : List α} {f : α → Option β} {key : β → γ}
    {key' : α → γ} (h : ∀ x ∈ l, ∀ y, f x = some y → key y = key' x) :
    ((l.filterMap f).map key).Sublist (l.map key') := by
  induction l with
  | nil => exact List.Sublist.slnil
  | cons x l ih =>
    have hrest := ih fun z hz => h z (List.mem_cons_of_mem _ hz)
    rw [List.filterMap_cons, List.map_cons]
    cases hx : f x with
    | none => exact hrest.cons _
    | some y =>
      rw [List.map_cons, h x (List.mem_cons_self ..) y hx]
      exact hrest.cons_cons _

variable {r : SizeRequest K} {orders : List (IntendedOrder K)}

theorem SizedBatch.sublist {orders' : List (IntendedOrder K)} (h : SizedBatch r orders)
    (hsub : orders'.Sublist orders) : SizedBatch r orders' :=
  ⟨fun order hmem => h.sized order (hsub.subset hmem), h.nodup.sublist (hsub.map _)⟩

theorem SizedBatch.perm {orders' : List (IntendedOrder K)} (h : SizedBatch r orders)
    (hperm : orders'.Perm orders) : SizedBatch r orders' :=
  ⟨fun order hmem => h.sized order (hperm.mem_iff.mp hmem),
    (hperm.map _).nodup_iff.mpr h.nodup⟩

/-- An order with a smaller quantity whose notional is not below the floor. -/
structure IntendedOrder.ShrunkTo (r : SizeRequest K) (floor : K)
    (order order' : IntendedOrder K) : Prop where
  symbol : order'.symbol = order.symbol
  side : order'.side = order.side
  sized : order'.SizedFor r
  floor_le : floor ≤ order'.notional
  notional_le : order'.notional ≤ order.notional

theorem SizedBatch.filterMap (h : SizedBatch r orders) {floor : K}
    {f : IntendedOrder K → Option (IntendedOrder K)}
    (hf : ∀ order ∈ orders, ∀ order', f order = some order' → order.ShrunkTo r floor order') :
    SizedBatch r (orders.filterMap f) := by
  refine ⟨fun order' hmem => ?_, ?_⟩
  · obtain ⟨order, horder, hsome⟩ := List.mem_filterMap.mp hmem
    exact (hf order horder order' hsome).sized
  · exact h.nodup.sublist
      (map_filterMap_sublist fun order horder order' hsome => (hf order horder order' hsome).symbol)

theorem SizedBatch.wanted (r : SizeRequest K) : SizedBatch r (r.symbols.filterMap r.wanted) := by
  refine ⟨fun order hmem => ?_, ?_⟩
  · obtain ⟨symbol, -, hwanted⟩ := List.mem_filterMap.mp hmem
    exact (SizeRequest.wanted_sized hwanted).1
  · have hsub : ((r.symbols.filterMap r.wanted).map (·.symbol)).Sublist (r.symbols.map id) :=
      map_filterMap_sublist fun symbol _ order h => (SizeRequest.wanted_sized h).2
    rw [List.map_id] at hsub
    exact (symbols_nodup r).sublist hsub

/-! ## Sides -/

omit [Field K] [LinearOrder K] in
theorem ordersOf_sublist (side : OrderSide) (orders : List (IntendedOrder K)) :
    (ordersOf side orders).Sublist orders := List.filter_sublist

omit [Field K] [LinearOrder K] in
theorem side_of_mem_ordersOf {side : OrderSide} {order : IntendedOrder K}
    (h : order ∈ ordersOf side orders) : order.side = side :=
  of_decide_eq_true (List.mem_filter.mp h).2

/-- Sells followed by buys. -/
structure SellsFirst (sells buys : List (IntendedOrder K)) : Prop where
  sells : ∀ order ∈ sells, order.side = .sell
  buys : ∀ order ∈ buys, order.side = .buy

omit [Field K] [LinearOrder K] in
theorem SellsFirst.ordersOf_eq {sells buys : List (IntendedOrder K)} (h : SellsFirst sells buys) :
    ordersOf .sell (sells ++ buys) = sells ∧ ordersOf .buy (sells ++ buys) = buys := by
  have hnone : ∀ (side : OrderSide) (l : List (IntendedOrder K)),
      (∀ order ∈ l, order.side ≠ side) → ordersOf side l = [] := by
    intro side l hl
    exact List.filter_eq_nil_iff.mpr fun order hmem => by simpa using hl order hmem
  have hall : ∀ (side : OrderSide) (l : List (IntendedOrder K)),
      (∀ order ∈ l, order.side = side) → ordersOf side l = l := by
    intro side l hl
    exact List.filter_eq_self.mpr fun order hmem => by simpa using hl order hmem
  refine ⟨?_, ?_⟩
  · rw [ordersOf, List.filter_append, ← ordersOf, ← ordersOf, hall _ _ h.sells,
      hnone _ _ fun order hmem => by rw [h.buys order hmem]; decide, List.append_nil]
  · rw [ordersOf, List.filter_append, ← ordersOf, ← ordersOf, hall _ _ h.buys,
      hnone _ _ fun order hmem => by rw [h.sells order hmem]; decide, List.nil_append]

omit [Field K] [LinearOrder K] in
/-- Each order is a sell or a buy. -/
theorem ordersOf_perm (orders : List (IntendedOrder K)) :
    (ordersOf .sell orders ++ ordersOf .buy orders).Perm orders := by
  have hbuy : ordersOf .buy orders = orders.filter fun order => !decide (order.side = .sell) := by
    refine List.filter_congr fun order _ => ?_
    cases order.side <;> rfl
  rw [hbuy]
  exact List.filter_append_perm _ orders

/-! ## The fit to the budget -/

section Funding

variable [IsStrictOrderedRing K]

theorem fitOrder_shrunk {scale floor : K} {order order' : IntendedOrder K}
    (h : order.SizedFor r) (hbuy : order.side = .buy) (hscale : scale ≤ 1)
    (hsome : fitOrder scale floor order = some order') : order.ShrunkTo r floor order' := by
  have hle : order.quantity * scale ≤ order.quantity :=
    mul_le_of_le_one_right h.quantity_pos.le hscale
  unfold fitOrder at hsome
  simp only at hsome
  split_ifs at hsome with hdrop
  cases hsome
  push Not at hdrop
  refine ⟨rfl, hbuy.symm, ⟨hdrop.1, h.price_pos, fun hsell => by cases hsell⟩, hdrop.2, ?_⟩
  exact mul_le_mul_of_nonneg_right hle h.price_pos.le

/-- The fitted buys cost at most the scaled total. -/
theorem fitted_le {scale floor : K} {buys : List (IntendedOrder K)}
    (h : ∀ order ∈ buys, order.SizedFor r) (hscale : 0 ≤ scale) :
    ((buys.filterMap (fitOrder scale floor)).map (·.notional)).sum ≤
      (buys.map (·.notional)).sum * scale := by
  induction buys with
  | nil => simp
  | cons order buys ih =>
    have hrest := ih fun o ho => h o (List.mem_cons_of_mem _ ho)
    have hpos := (h order (List.mem_cons_self ..)).notional_pos
    rw [List.filterMap_cons, List.map_cons, List.sum_cons, add_mul]
    cases hfit : fitOrder scale floor order with
    | none => exact hrest.trans (le_add_of_nonneg_left (mul_nonneg hpos.le hscale))
    | some order' =>
      unfold fitOrder at hfit
      simp only at hfit
      split_ifs at hfit
      cases hfit
      rw [List.map_cons, List.sum_cons]
      refine add_le_add (le_of_eq ?_) hrest
      rw [IntendedOrder.notional, IntendedOrder.notional, mul_right_comm]

theorem fitBuysToBudget_spec {buys : List (IntendedOrder K)} (h : SizedBatch r buys)
    (hbuys : ∀ order ∈ buys, order.side = .buy) (budget floor : K) :
    (∀ order' ∈ fitBuysToBudget buys budget floor,
        ∃ order ∈ buys, order.ShrunkTo r floor order') ∧
      ((fitBuysToBudget buys budget floor).map (·.symbol)).Sublist (buys.map (·.symbol)) ∧
      ((fitBuysToBudget buys budget floor).map (·.notional)).sum ≤ max 0 budget := by
  unfold fitBuysToBudget
  extract_lets total scale
  split_ifs with htotal
  · exact ⟨fun _ hmem => absurd hmem List.not_mem_nil, List.nil_sublist _, le_max_left ..⟩
  have htotal : 0 < total := not_le.mp htotal
  have hscale : 0 ≤ scale ∧ scale ≤ 1 ∧ total * scale ≤ max 0 budget := by
    unfold scale
    split_ifs with hbudget
    · refine ⟨le_min zero_le_one (div_nonneg hbudget.le htotal.le), min_le_left .., ?_⟩
      refine le_max_of_le_right ?_
      calc total * min 1 (budget / total) ≤ total * (budget / total) :=
            mul_le_mul_of_nonneg_left (min_le_right ..) htotal.le
        _ = budget := mul_div_cancel₀ budget htotal.ne'
    · exact ⟨le_rfl, zero_le_one, by rw [mul_zero]; exact le_max_left ..⟩
  have hshrunk : ∀ order ∈ buys, ∀ order', fitOrder scale floor order = some order' →
      order.ShrunkTo r floor order' := fun order hmem order' hsome =>
    fitOrder_shrunk (h.sized order hmem) (hbuys order hmem) hscale.2.1 hsome
  refine ⟨fun order' hmem => ?_, ?_, (fitted_le h.sized hscale.1).trans hscale.2.2⟩
  · obtain ⟨order, horder, hsome⟩ := List.mem_filterMap.mp hmem
    exact ⟨order, horder, hshrunk order horder order' hsome⟩
  · exact map_filterMap_sublist fun order horder order' hsome =>
      (hshrunk order horder order' hsome).symbol

/-- The batch before the rounding. -/
structure FundedBatch (r : SizeRequest K) (orders : List (IntendedOrder K)) : Prop where
  batch : SizedBatch r orders
  floor_le : ∀ order ∈ orders, r.minOrderNotional ≤ order.notional
  sells_first : orders = ordersOf .sell orders ++ ordersOf .buy orders

omit [Field K] [LinearOrder K] [IsStrictOrderedRing K] in
theorem SellsFirst.eq_append {sells buys : List (IntendedOrder K)} (h : SellsFirst sells buys) :
    sells ++ buys = ordersOf .sell (sells ++ buys) ++ ordersOf .buy (sells ++ buys) := by
  obtain ⟨hsells, hbuys⟩ := h.ordersOf_eq
  rw [hsells, hbuys]

/-- The kept sells with the fitted buys. -/
theorem fundedBatch_fit {sells buys : List (IntendedOrder K)} (h : SizedBatch r (sells ++ buys))
    (hsides : SellsFirst sells buys)
    (hfloor : ∀ order ∈ sells, r.minOrderNotional ≤ order.notional) (budget : K) :
    FundedBatch r (sells ++ fitBuysToBudget buys budget r.minOrderNotional) ∧
      totalNotional .buy (sells ++ fitBuysToBudget buys budget r.minOrderNotional) ≤
        max 0 budget ∧
      totalNotional .sell (sells ++ fitBuysToBudget buys budget r.minOrderNotional) =
        (sells.map (·.notional)).sum := by
  obtain ⟨hshrunk, hsub, hsum⟩ := fitBuysToBudget_spec
    (h.sublist (List.sublist_append_right ..)) hsides.buys budget r.minOrderNotional
  have hsides' : SellsFirst sells (fitBuysToBudget buys budget r.minOrderNotional) := by
    refine ⟨hsides.sells, fun order' hmem => ?_⟩
    obtain ⟨order, horder, hto⟩ := hshrunk order' hmem
    rw [hto.side, hsides.buys order horder]
  obtain ⟨hsells, hbuys⟩ := hsides'.ordersOf_eq
  refine ⟨⟨⟨fun order hmem => ?_, ?_⟩, fun order hmem => ?_, hsides'.eq_append⟩, ?_, ?_⟩
  · obtain hmem | hmem := List.mem_append.mp hmem
    · exact h.sized order (List.mem_append_left _ hmem)
    · obtain ⟨_, _, hto⟩ := hshrunk order hmem
      exact hto.sized
  · have hnodup := h.nodup
    rw [List.map_append] at hnodup ⊢
    exact hnodup.sublist (hsub.append_left _)
  · obtain hmem | hmem := List.mem_append.mp hmem
    · exact hfloor order hmem
    · obtain ⟨_, _, hto⟩ := hshrunk order hmem
      exact hto.floor_le
  · rw [totalNotional, hbuys]
    exact hsum
  · rw [totalNotional, hsells]

theorem funded_spec (r : SizeRequest K) : FundedBatch r r.funded ∧ Fundable r r.funded := by
  have hbatch : SizedBatch r ((r.symbols.filterMap r.wanted).insertionSort ordersBefore) :=
    (SizedBatch.wanted r).perm (List.perm_insertionSort ..)
  unfold SizeRequest.funded
  generalize (r.symbols.filterMap r.wanted).insertionSort ordersBefore = orders at hbatch
  have hkept := hbatch.sublist (List.filter_sublist (p := fun order =>
    decide (¬ order.notional < r.minOrderNotional)))
  have hfloor : ∀ order ∈ orders.filter fun order => decide (¬ order.notional < r.minOrderNotional),
      r.minOrderNotional ≤ order.notional := by
    intro order hmem
    exact not_lt.mp (of_decide_eq_true (List.mem_filter.mp hmem).2)
  unfold applyNotionalFloor
  extract_lets kept sells buys shortfall
  have hsides : SellsFirst sells buys :=
    ⟨fun _ hmem => side_of_mem_ordersOf hmem, fun _ hmem => side_of_mem_ordersOf hmem⟩
  have hsplit : SizedBatch r (sells ++ buys) := hkept.perm (ordersOf_perm kept)
  have hsells : ∀ order ∈ sells, r.minOrderNotional ≤ order.notional :=
    fun order hmem => hfloor order ((ordersOf_sublist ..).subset hmem)
  cases hcash : r.freeCash with
  | some freeCash =>
    obtain ⟨hfit, hbuys, htotal⟩ := fundedBatch_fit hsplit hsides hsells
      (freeCash + (sells.map (·.notional)).sum)
    refine ⟨hfit, fun free hfree => ?_⟩
    cases hcash.symm.trans hfree
    rw [htotal]
    exact hbuys
  | none =>
    refine ⟨?_, fun free hfree => by rw [hcash] at hfree; cases hfree⟩
    dsimp only
    split_ifs
    · refine ⟨hsplit, fun order hmem => ?_, hsides.eq_append⟩
      exact hfloor order ((ordersOf_perm kept).mem_iff.mp hmem)
    · exact (fundedBatch_fit hsplit hsides hsells _).1

/-! ## The rounding -/

variable [FloorRing K]

theorem quantizeQuantity_le {quantity : K} (h : 0 < quantity) (fractional : Bool) (decimals : ℤ) :
    quantizeQuantity quantity fractional decimals ≤ quantity := by
  have hscale : (0 : K) < 10 ^ decimals := zpow_pos (by norm_num) decimals
  unfold quantizeQuantity
  split_ifs
  · exact h.le
  · exact Int.floor_le quantity
  · exact (div_le_iff₀ hscale).mpr (Int.floor_le _)

theorem quantizeOrder_shrunk {quantization : ShareQuantization} {floor : K}
    {order order' : IntendedOrder K} (h : order.SizedFor r)
    (hsome : quantizeOrder quantization floor order = some order') :
    order.ShrunkTo r floor order' := by
  have hle : quantization.apply order.quantity ≤ order.quantity :=
    quantizeQuantity_le h.quantity_pos ..
  unfold quantizeOrder at hsome
  simp only at hsome
  split_ifs at hsome with hdrop
  cases hsome
  push Not at hdrop
  exact ⟨rfl, rfl, h.shrink hdrop.1 hle, hdrop.2, mul_le_mul_of_nonneg_right hle h.price_pos.le⟩

omit [IsStrictOrderedRing K] in
theorem quantizeOrder_side {quantization : ShareQuantization} {floor : K}
    {order order' : IntendedOrder K}
    (hsome : quantizeOrder quantization floor order = some order') : order'.side = order.side := by
  unfold quantizeOrder at hsome
  simp only at hsome
  split_ifs at hsome
  cases hsome
  rfl

omit [IsStrictOrderedRing K] in
/-- The rounding keeps sells and buys apart. -/
theorem ordersOf_quantizeOrders (quantization : ShareQuantization) (floor : K) (side : OrderSide)
    (orders : List (IntendedOrder K)) :
    ordersOf side (quantizeOrders orders quantization floor) =
      quantizeOrders (ordersOf side orders) quantization floor := by
  induction orders with
  | nil => rfl
  | cons order orders ih =>
    rw [quantizeOrders, ordersOf] at ih ⊢
    rw [ordersOf, List.filterMap_cons, List.filter_cons]
    cases hround : quantizeOrder quantization floor order with
    | none => split_ifs <;> simp [ih, hround, quantizeOrders, ordersOf]
    | some order' =>
      have hside := quantizeOrder_side hround
      rw [List.filter_cons, hside]
      split_ifs <;> simp [ih, hround, quantizeOrders, ordersOf]

theorem sum_quantizeOrders (quantization : ShareQuantization) (floor : K)
    (orders : List (IntendedOrder K)) :
    ((quantizeOrders orders quantization floor).map (·.notional)).sum =
      (orders.map (·.notional)).sum - (orders.map (roundingLoss quantization floor)).sum := by
  induction orders with
  | nil => simp [quantizeOrders]
  | cons order orders ih =>
    rw [quantizeOrders] at ih ⊢
    rw [List.filterMap_cons, List.map_cons, List.map_cons, List.sum_cons, List.sum_cons,
      roundingLoss]
    cases hround : quantizeOrder quantization floor order with
    | none =>
      simp only [Option.elim_none]
      linarith
    | some order' =>
      simp only [Option.elim_some, List.map_cons, List.sum_cons]
      linarith

theorem FundedBatch.quantizeOrders (h : FundedBatch r orders) (quantization : ShareQuantization) :
    FundedBatch r (quantizeOrders orders quantization r.minOrderNotional) := by
  have hshrunk : ∀ order ∈ orders, ∀ order',
      quantizeOrder quantization r.minOrderNotional order = some order' →
        order.ShrunkTo r r.minOrderNotional order' :=
    fun order hmem order' hsome => quantizeOrder_shrunk (h.batch.sized order hmem) hsome
  refine ⟨h.batch.filterMap hshrunk, fun order' hmem => ?_, ?_⟩
  · obtain ⟨order, horder, hsome⟩ := List.mem_filterMap.mp hmem
    exact (hshrunk order horder order' hsome).floor_le
  · rw [ordersOf_quantizeOrders, ordersOf_quantizeOrders, LlamaTrade.quantizeOrders,
      LlamaTrade.quantizeOrders, LlamaTrade.quantizeOrders, ← List.filterMap_append,
      ← h.sells_first]

omit [IsStrictOrderedRing K] [FloorRing K] in
theorem FundedBatch.wellFormed (h : FundedBatch r orders) : WellFormedOrders r orders :=
  ⟨h.batch.nodup, h.sells_first, fun order hmem => (h.batch.sized order hmem).le_held, h.floor_le⟩

/-- The rounded batch is funded when the rounding is covered. -/
theorem quantized_fundable_iff {quantization : ShareQuantization}
    (hquantization : r.quantization = some quantization) :
    Fundable r (quantizeOrders r.funded quantization r.minOrderNotional) ↔ r.RoundingCovered := by
  have hfunded := (funded_spec r).1
  have htotal : ∀ side, totalNotional side (quantizeOrders r.funded quantization
      r.minOrderNotional) = totalNotional side r.funded -
        ((ordersOf side r.funded).map (roundingLoss quantization r.minOrderNotional)).sum := by
    intro side
    rw [totalNotional, ordersOf_quantizeOrders, sum_quantizeOrders, totalNotional]
  constructor
  · intro h freeCash quantization' hcash hsome
    cases hquantization.symm.trans hsome
    have hbuys := h freeCash hcash
    by_cases hnone : ∀ order ∈ ordersOf .buy r.funded,
        quantizeOrder quantization r.minOrderNotional order = none
    · exact .inl hnone
    · right
      have hpos : 0 < totalNotional .buy (quantizeOrders r.funded quantization
          r.minOrderNotional) := by
        push Not at hnone
        obtain ⟨order, hmem, hne⟩ := hnone
        obtain ⟨order', hsome⟩ := Option.ne_none_iff_exists'.mp hne
        have hpositive : ∀ x ∈ (ordersOf .buy (quantizeOrders r.funded quantization
            r.minOrderNotional)).map (·.notional), 0 < x := by
          intro x hx
          obtain ⟨o, ho, rfl⟩ := List.mem_map.mp hx
          exact ((hfunded.quantizeOrders quantization).batch.sized o
            ((ordersOf_sublist ..).subset ho)).notional_pos
        have hmem' : order' ∈ ordersOf .buy (quantizeOrders r.funded quantization
            r.minOrderNotional) := by
          rw [ordersOf_quantizeOrders]
          exact List.mem_filterMap.mpr ⟨order, hmem, hsome⟩
        have hvalue := List.mem_map_of_mem (f := (·.notional)) hmem'
        exact (hpositive _ hvalue).trans_le
          (List.single_le_sum (fun x hx => (hpositive x hx).le) _ hvalue)
      rw [htotal] at hpos
      rw [htotal, htotal] at hbuys
      rcases le_max_iff.mp hbuys with hzero | hle
      · exact absurd hzero (not_le.mpr hpos)
      · linarith
  · intro h freeCash hcash
    rcases h freeCash quantization hcash hquantization with hnone | hle
    · have hempty : ordersOf .buy (quantizeOrders r.funded quantization r.minOrderNotional) =
          [] := by
        rw [ordersOf_quantizeOrders]
        exact List.filterMap_eq_nil_iff.mpr hnone
      rw [totalNotional, hempty]
      exact le_max_left ..
    · rw [htotal, htotal]
      exact le_max_of_le_right (by linarith)

end Funding

end Orders

namespace Sample

/-- A whole-share rebalance from one holding to another, without free cash. -/
def wholeShares (heldQuantity : ℚ) : SizeRequest ℚ where
  targetWeights := [("QQQ", 100)]
  holdings := [("SPY", heldQuantity)]
  prices := [("QQQ", 1), ("SPY", 100)]
  equity := heldQuantity * 100
  mode := .drift
  driftTolerance := 1 / 20
  minWeightChange := 1 / 10
  minOrderNotional := 1
  currentWeights := []
  freeCash := some 0
  quantization := some ⟨false, 9⟩

end Sample

end LlamaTrade
