import LlamaTrade.LedgerStore
import LlamaTrade.OrderSizing

/-!
# Signals of a sleeve session

`_process_signal` of the runner with the risk check it asks for (`check_order`, `_check_sleeve`), as
long as the sleeve they read stays the same. Each buy is fitted to all of the free cash, whatever
the buys before it have taken. Numbers are exact except for the rounding to tradable shares, which
goes through floats and is a parameter.
-/

namespace LlamaTrade

/-- `Signal.type`. -/
inductive SignalType where
  | buy | sell | short | cover
  deriving DecidableEq

/-- `Signal`. -/
structure Signal where
  type : SignalType
  symbol : String
  quantity : ℚ
  price : ℚ

/-- A lot of the sleeve, as `get_sleeve` returns it. -/
structure SleeveLot where
  symbol : String
  qty : ℚ
  isOpen : Bool

/-- A runner with a sleeve, and the sleeve that it and the risk manager read. -/
structure SleeveRunner where
  rounding : ℚ → ℚ
  minOrderNotional : ℚ
  /-- `_free_cash` of the runner and `cash.free` of the sleeve. -/
  freeCash : ℚ
  status : SleeveStatus
  lots : List SleeveLot

/-- What a call is told from outside. -/
structure SignalAnswers where
  canTrade : Bool
  /-- `_get_current_price`, for a signal without a price. -/
  currentPrice : Option ℚ
  sleeveFetched : Bool
  /-- The checks of `check_order` other than price and sleeve. -/
  otherChecksPass : Bool
  submitted : Bool

namespace SleeveRunner

/-- `_check_sleeve`: whether there is no violation. -/
def checkSleeve (r : SleeveRunner) (signal : Signal) (orderValue : ℚ) : Bool :=
  if r.status ≠ .active then false
  else match signal.type with
    | .buy | .cover => orderValue ≤ r.freeCash
    | .sell =>
      signal.quantity ≤ ((r.lots.filter fun lot =>
        lot.symbol.toUpper = signal.symbol.toUpper ∧ lot.isOpen).map (·.qty)).sum
    | .short => true

/-- `check_order` with the price of the signal as reference price. -/
def checkOrder (r : SleeveRunner) (signal : Signal) (answers : SignalAnswers) : Bool :=
  let estimatedPrice := if 0 < signal.price then some signal.price else answers.currentPrice
  match estimatedPrice with
  | none => false
  | some price => answers.otherChecksPass && answers.sleeveFetched &&
      r.checkSleeve signal (signal.quantity * price)

/-- The fit to the free cash of the sleeve. -/
def fit (r : SleeveRunner) (signal : Signal) : Option Signal :=
  if (signal.type = .buy ∨ signal.type = .cover) ∧ 0 < signal.price then
    let affordableQty := r.freeCash / signal.price
    if affordableQty ≤ 0 then none
    else some { signal with quantity := min signal.quantity affordableQty }
  else some signal

/-- The rounding to tradable shares, with the floor on the notional. -/
def round (r : SleeveRunner) (signal : Signal) : Option Signal :=
  let rounded := r.rounding signal.quantity
  if rounded ≤ 0 ∨ (0 < signal.price ∧ rounded * signal.price < r.minOrderNotional) then none
  else some { signal with quantity := rounded }

/-- `_process_signal`: the order that is submitted, as the signal it was made from. -/
def processSignal (r : SleeveRunner) (signal : Signal) (answers : SignalAnswers) : Option Signal :=
  if !answers.canTrade then none
  else if signal.type = .short ∨ signal.type = .cover then none
  else ((r.fit signal).bind r.round).filter fun order =>
    r.checkOrder order answers && answers.submitted

/-- The orders that are submitted for a sequence of signals. -/
def submittedOrders (r : SleeveRunner) (signals : List (Signal × SignalAnswers)) : List Signal :=
  signals.filterMap fun arrival => r.processSignal arrival.1 arrival.2

end SleeveRunner

/-- The notional of an order if it is a buy. -/
def Signal.spent (order : Signal) : ℚ :=
  if order.type = .buy then order.quantity * order.price else 0

/-- The total notional of the buys. -/
def boughtNotional (orders : List Signal) : ℚ :=
  (orders.map Signal.spent).sum

namespace SleeveRunner

/-- The notional of a buy that is fitted to all of the free cash and rounded. -/
def fittedNotional (r : SleeveRunner) (signal : Signal) : ℚ :=
  r.rounding (min signal.quantity (r.freeCash / signal.price)) * signal.price

/-- No check that has nothing to do with the free cash stops the signal. -/
def Admits (r : SleeveRunner) (answers : SignalAnswers) : Prop :=
  answers.canTrade ∧ answers.otherChecksPass ∧ answers.sleeveFetched ∧ answers.submitted ∧
    r.status = .active

/-- A buy, fitted to all of the free cash, also fits what is left of it. -/
def FitsLeft (r : SleeveRunner) (spent : ℚ) (signal : Signal) (answers : SignalAnswers) : Prop :=
  signal.type = .buy → 0 < signal.price → r.Admits answers →
    r.minOrderNotional ≤ r.fittedNotional signal → r.fittedNotional signal ≤ r.freeCash →
      r.fittedNotional signal ≤ r.freeCash - spent

variable {r : SleeveRunner} {signal order : Signal} {answers : SignalAnswers} {spent : ℚ}

theorem fit_buy (hbuy : signal.type = .buy) (hprice : 0 < signal.price) :
    r.fit signal = if r.freeCash / signal.price ≤ 0 then none
      else some { signal with quantity := min signal.quantity (r.freeCash / signal.price) } := by
  rw [fit, if_pos ⟨.inl hbuy, hprice⟩]

/-- What is known of an order that is submitted. -/
theorem of_processSignal (h : r.processSignal signal answers = some order) :
    answers.canTrade = true ∧ answers.submitted = true ∧ r.checkOrder order answers = true ∧
      ∃ fitted, r.fit signal = some fitted ∧ r.round fitted = some order := by
  unfold processSignal at h
  split at h
  · cases h
  · split at h
    · cases h
    · rename_i htrade _
      obtain ⟨hround, hcheck⟩ := Option.filter_eq_some_iff.mp h
      obtain ⟨fitted, hfit, hround⟩ := Option.bind_eq_some_iff.mp hround
      rw [Bool.and_eq_true] at hcheck
      exact ⟨by simpa using htrade, hcheck.2, hcheck.1, fitted, hfit, hround⟩

theorem of_round (h : r.round signal = some order) :
    0 < r.rounding signal.quantity ∧
      (0 < signal.price → r.minOrderNotional ≤ r.rounding signal.quantity * signal.price) ∧
      order = { signal with quantity := r.rounding signal.quantity } := by
  dsimp only [round] at h
  split at h
  · cases h
  · rename_i hkeep
    simp only [not_or, not_and, not_le, not_lt] at hkeep
    exact ⟨hkeep.1, hkeep.2, (Option.some.inj h).symm⟩

/-- The risk check of a buy with a price. -/
theorem checkOrder_buy (hbuy : signal.type = .buy) (hprice : 0 < signal.price) :
    r.checkOrder signal answers = true ↔ answers.otherChecksPass = true ∧
      answers.sleeveFetched = true ∧ r.status = .active ∧
        signal.quantity * signal.price ≤ r.freeCash := by
  simp only [checkOrder, if_pos hprice, checkSleeve, hbuy]
  by_cases hactive : r.status = .active <;> simp [hactive, and_assoc]

/-- An order that is submitted adds nothing to what is spent, or it is a buy, fitted to all of the
free cash. -/
theorem spent_of_processSignal (h : r.processSignal signal answers = some order) :
    order.spent ≤ 0 ∨ signal.type = .buy ∧ 0 < signal.price ∧ r.Admits answers ∧
      r.minOrderNotional ≤ r.fittedNotional signal ∧ r.fittedNotional signal ≤ r.freeCash ∧
        order.spent = r.fittedNotional signal := by
  obtain ⟨htrade, hsubmitted, hcheck, fitted, hfit, hround⟩ := of_processSignal h
  obtain ⟨hpositive, hfloor, rfl⟩ := of_round hround
  by_cases hbuy : signal.type = .buy
  · obtain hprice | hprice := le_or_gt signal.price 0
    · rw [fit, if_neg fun hfits => hfits.2.not_ge hprice] at hfit
      cases hfit
      left
      simp only [Signal.spent, hbuy, if_true]
      exact mul_nonpos_of_nonneg_of_nonpos hpositive.le hprice
    · rw [fit_buy hbuy hprice, Option.ite_none_left_eq_some] at hfit
      obtain ⟨-, hfit⟩ := hfit
      cases hfit
      right
      rw [checkOrder_buy (by exact hbuy) (by exact hprice)] at hcheck
      obtain ⟨hother, hfetched, hactive, hvalue⟩ := hcheck
      refine ⟨hbuy, hprice, ⟨htrade, hother, hfetched, hsubmitted, hactive⟩, hfloor hprice, hvalue, ?_⟩
      simp [Signal.spent, hbuy, fittedNotional]
  · left
    have htype : fitted.type = signal.type := by
      unfold fit at hfit
      split at hfit
      · obtain ⟨-, hfit⟩ := (Option.ite_none_left_eq_some).mp hfit
        cases hfit
        rfl
      · cases hfit
        rfl
    simp [Signal.spent, htype, hbuy]

/-- A buy that passes every check is submitted, fitted to all of the free cash. -/
theorem processSignal_buy (hbuy : signal.type = .buy) (hprice : 0 < signal.price)
    (hadmits : r.Admits answers) (hfloor : r.minOrderNotional ≤ r.fittedNotional signal)
    (hvalue : r.fittedNotional signal ≤ r.freeCash) (hpositive : 0 < r.fittedNotional signal) :
    ∃ order, r.processSignal signal answers = some order ∧
      order.spent = r.fittedNotional signal := by
  obtain ⟨htrade, hother, hfetched, hsubmitted, hactive⟩ := hadmits
  have hcash : 0 < r.freeCash / signal.price := div_pos (hpositive.trans_le hvalue) hprice
  have hrounded := pos_of_mul_pos_left hpositive hprice.le
  let order := { signal with
    quantity := r.rounding (min signal.quantity (r.freeCash / signal.price)) }
  refine ⟨order, ?_, by simp [order, Signal.spent, hbuy, fittedNotional]⟩
  have hround : (r.fit signal).bind r.round = some order := by
    rw [fit_buy hbuy hprice, if_neg hcash.not_ge, Option.bind_some]
    dsimp only [round]
    rw [if_neg]
    exact fun hdrop => hdrop.elim hrounded.not_ge fun hlow => hlow.2.not_ge hfloor
  have hcheck : r.checkOrder order answers = true :=
    (checkOrder_buy (by exact hbuy) (by exact hprice)).mpr ⟨hother, hfetched, hactive, hvalue⟩
  rw [processSignal, htrade, if_neg (by simp), if_neg (by simp [hbuy]), hround]
  simp [Option.filter, hcheck, hsubmitted]

/-- What one signal adds to what is spent. -/
theorem spent_add_le_iff (hspent : spent ≤ r.freeCash) :
    spent + (r.processSignal signal answers).elim 0 Signal.spent ≤ r.freeCash ↔
      r.FitsLeft spent signal answers := by
  constructor
  · intro hle hbuy hprice hadmits hfloor hvalue
    obtain hzero | hpositive := le_or_gt (r.fittedNotional signal) 0
    · exact hzero.trans (sub_nonneg.mpr hspent)
    · obtain ⟨order, horder, hcost⟩ := processSignal_buy hbuy hprice hadmits hfloor hvalue hpositive
      rw [horder, Option.elim_some, hcost] at hle
      linarith
  · intro hfits
    cases horder : r.processSignal signal answers with
    | none => simpa using hspent
    | some order =>
      rw [Option.elim_some]
      obtain hnone | ⟨hbuy, hprice, hadmits, hfloor, hvalue, hcost⟩ := spent_of_processSignal horder
      · linarith
      · have hleft := hfits hbuy hprice hadmits hfloor hvalue
        linarith

/-! ## Sequences of signals -/

theorem boughtNotional_concat (r : SleeveRunner) (signals : List (Signal × SignalAnswers))
    (arrival : Signal × SignalAnswers) :
    boughtNotional (r.submittedOrders (signals ++ [arrival])) =
      boughtNotional (r.submittedOrders signals) +
        (r.processSignal arrival.1 arrival.2).elim 0 Signal.spent := by
  rw [submittedOrders, submittedOrders, List.filterMap_append, boughtNotional, List.map_append,
    List.sum_append, boughtNotional]
  cases horder : r.processSignal arrival.1 arrival.2 <;> simp [horder]

end SleeveRunner

namespace Sample

/-- A runner whose sleeve has $1000 of free cash, and shares in any amounts. -/
def thousandRunner : SleeveRunner where
  rounding := id
  minOrderNotional := 1
  freeCash := 1000
  status := .active
  lots := []

/-- Everything goes through. -/
def goodAnswers : SignalAnswers where
  canTrade := true
  currentPrice := none
  sleeveFetched := true
  otherChecksPass := true
  submitted := true

def twoBuys : List (Signal × SignalAnswers) :=
  [(⟨.buy, "SPY", 10, 100⟩, goodAnswers), (⟨.buy, "QQQ", 10, 100⟩, goodAnswers)]

end Sample

end LlamaTrade
