import LlamaTrade.AffordablePlans
import LlamaTrade.OnboardedBooks

/-!
# Netted orders

Orders of several sleeves for one symbol become one order to the broker (`ledger/netting.py`). What
one sleeve buys of another never reaches the broker, and the allocations keep what each sleeve gets.
-/

namespace LlamaTrade

structure NetOrder where
  symbol : String
  side : OrderSide
  qty : ℚ

structure SleeveAllocation where
  sleeveId : String
  symbol : String
  side : OrderSide
  qty : ℚ

structure NettingResult where
  brokerOrders : List NetOrder
  allocations : List SleeveAllocation

/-- What an order adds to the shares held. -/
def signedQty (side : OrderSide) (qty : ℚ) : ℚ := if side = .buy then qty else -qty

def SleeveOrder.delta (order : SleeveOrder) : ℚ := signedQty order.side order.qty

/-- The loop over the orders. -/
def netBySymbol (orders : List SleeveOrder) : Dict ℚ :=
  orders.foldl (fun signed order =>
    signed.insert order.symbol (signed.getD order.symbol 0 + order.delta)) ∅

def netOrder (entry : String × ℚ) : Option NetOrder :=
  if entry.2 = 0 then none else some ⟨entry.1, if 0 < entry.2 then .buy else .sell, |entry.2|⟩

/-- `net_orders`. -/
def netOrders (orders : List SleeveOrder) : NettingResult where
  brokerOrders := (netBySymbol orders).toList.filterMap netOrder
  allocations := orders.map fun order => ⟨order.sleeveId, order.symbol, order.side, order.qty⟩

/-! ## What netting keeps -/

section Netting

/-- The shares of a symbol that some orders to the broker bring. -/
def brokerDelta (orders : List NetOrder) (symbol : String) : ℚ :=
  (orders.map fun order => if order.symbol = symbol then signedQty order.side order.qty else 0).sum

/-- The shares of a symbol that some allocations bring to the sleeves. -/
def allocatedDelta (allocations : List SleeveAllocation) (symbol : String) : ℚ :=
  (allocations.map fun a => if a.symbol = symbol then signedQty a.side a.qty else 0).sum

/-- The shares of a symbol that are traded at the broker, bought or sold. -/
def traded (orders : List NetOrder) (symbol : String) : ℚ :=
  (orders.map fun order => if order.symbol = symbol then order.qty else 0).sum

variable {orders : List SleeveOrder}

theorem signedQty_abs (net : ℚ) : signedQty (if 0 < net then .buy else .sell) |net| = net := by
  by_cases h : 0 < net
  · rw [if_pos h, signedQty, if_pos rfl, abs_of_pos h]
  · have hside : ¬ OrderSide.sell = .buy := by decide
    rw [if_neg h, signedQty, if_neg hside, abs_of_nonpos (not_lt.mp h), neg_neg]

/-- Sums over the net orders are sums over the dictionary. -/
theorem sum_netOrder (f : NetOrder → ℚ) (g : String × ℚ → ℚ) (entries : List (String × ℚ))
    (h : ∀ e, (netOrder e).elim 0 f = g e) :
    ((entries.filterMap netOrder).map f).sum = (entries.map g).sum := by
  induction entries with
  | nil => rfl
  | cons e entries ih =>
    rw [List.map_cons, List.sum_cons, ← ih, ← h e, List.filterMap_cons]
    cases netOrder e with
    | none => rw [Option.elim_none, zero_add]
    | some order => rw [List.map_cons, List.sum_cons, Option.elim_some]

theorem netBySymbol_getD (orders : List SleeveOrder) (symbol : String) :
    (netBySymbol orders).getD symbol 0 = allocatedDelta (netOrders orders).allocations symbol := by
  rw [netBySymbol, getD_foldl_add (fun order : SleeveOrder => order.symbol) SleeveOrder.delta,
    Std.ExtTreeMap.getD_empty, zero_add, allocatedDelta, netOrders, List.map_map]
  rfl

theorem brokerDelta_netOrders (orders : List SleeveOrder) (symbol : String) :
    brokerDelta (netOrders orders).brokerOrders symbol = (netBySymbol orders).getD symbol 0 := by
  have hsum := sum_netOrder
    (fun order => if order.symbol = symbol then signedQty order.side order.qty else 0)
    (fun e => if e.1 = symbol then e.2 else 0) (netBySymbol orders).toList (by
      rintro ⟨key, net⟩
      by_cases hnet : net = 0
      · simp [netOrder, hnet]
      · simp [netOrder, hnet, signedQty_abs])
  rw [brokerDelta, netOrders, hsum, sum_key fun net : ℚ => net, Dict.elim_getD (fun net => net) _ _ rfl]

theorem traded_netOrders (orders : List SleeveOrder) (symbol : String) :
    traded (netOrders orders).brokerOrders symbol = |(netBySymbol orders).getD symbol 0| := by
  have hsum := sum_netOrder (fun order => if order.symbol = symbol then order.qty else 0)
    (fun e => if e.1 = symbol then |e.2| else 0) (netBySymbol orders).toList (by
      rintro ⟨key, net⟩
      by_cases hnet : net = 0
      · simp [netOrder, hnet]
      · simp [netOrder, hnet])
  rw [traded, netOrders, hsum, sum_key fun net : ℚ => |net|,
    Dict.elim_getD (fun net => |net|) _ _ abs_zero]

theorem netOrder_eq_some {e : String × ℚ} {order : NetOrder} (h : netOrder e = some order) :
    order.symbol = e.1 ∧ 0 < order.qty := by
  by_cases hnet : e.2 = 0
  · simp [netOrder, hnet] at h
  · rw [netOrder, if_neg hnet, Option.some.injEq] at h
    subst h
    exact ⟨rfl, abs_pos.mpr hnet⟩

/-- Orders to the broker trade at least what they bring. -/
theorem abs_brokerDelta_le_traded {orders : List NetOrder} (h : ∀ order ∈ orders, 0 ≤ order.qty)
    (symbol : String) : |brokerDelta orders symbol| ≤ traded orders symbol := by
  induction orders with
  | nil => simp [brokerDelta, traded]
  | cons order orders ih =>
    obtain ⟨hqty, hrest⟩ := List.forall_mem_cons.mp h
    have hfirst : |if order.symbol = symbol then signedQty order.side order.qty else 0| ≤
        if order.symbol = symbol then order.qty else 0 := by
      split_ifs
      · unfold signedQty
        split_ifs
        · exact (abs_of_nonneg hqty).le
        · rw [abs_neg]
          exact (abs_of_nonneg hqty).le
      · exact abs_zero.le
    have htail := ih hrest
    unfold brokerDelta traded at htail ⊢
    rw [List.map_cons, List.sum_cons, List.map_cons, List.sum_cons]
    exact (abs_add_le _ _).trans (add_le_add hfirst htail)

end Netting

end LlamaTrade
