import LlamaTrade.InsertionDict
import Mathlib.Algebra.Order.Field.Basic
import Mathlib.Tactic.FieldSimp
import Mathlib.Tactic.Linarith
import Mathlib.Tactic.Ring

/-!
# The book of a backtest

`Portfolio` of the strategy runtime with its two operations (`llamatrade_runtime/portfolio.py`,
`models.py`): a buy opens a position or adds to it at the cost-weighted average price, a sell
closes all or part of one. The commission of a buy waits in the position until a sell takes its
part of it. Numbers are exact, in any ordered field.
-/

namespace LlamaTrade

variable {T K : Type}

/-- `Fill`. -/
structure BookFill (T K : Type) where
  date : T
  symbol : String
  side : String
  price : K
  quantity : K
  commission : K

/-- `Trade`. -/
structure BookTrade (T K : Type) where
  entryDate : T
  exitDate : T
  symbol : String
  side : String
  entryPrice : K
  exitPrice : K
  quantity : K
  commission : K

/-- `Position`. -/
structure BookPosition (T K : Type) where
  symbol : String
  side : String
  entryPrice : K
  quantity : K
  entryDate : T
  entryCommissionRemaining : K

/-- `RejectedSignal`. -/
structure RejectedSignal (T K : Type) where
  date : T
  symbol : String
  signalType : String
  quantity : K
  price : K
  reason : String

/-- `ExecutionOutcome`. -/
structure ExecutionOutcome (T K : Type) where
  fill : Option (BookFill T K) := none
  trade : Option (BookTrade T K) := none
  rejected : Option (RejectedSignal T K) := none

/-- `Portfolio` without the last known prices. -/
structure Portfolio (T K : Type) where
  initialCapital : K
  cash : K
  positions : InsertionDict (BookPosition T K)
  trades : List (BookTrade T K)

def Portfolio.start (initialCapital : K) : Portfolio T K := ⟨initialCapital, initialCapital, [], []⟩

section Operations

variable [Field K] [LinearOrder K]

/-- `Trade.pnl`. -/
def BookTrade.pnl (trade : BookTrade T K) : K :=
  (trade.exitPrice - trade.entryPrice) * trade.quantity - trade.commission

/-- `affordable_quantity`. -/
def affordableQuantity (quantity price cash commission : K) : K :=
  if price ≤ 0 then 0 else min quantity (max ((cash - commission) / price) 0)

/-- The position after a buy was added to it. -/
def BookPosition.add (existing : BookPosition T K) (price quantity commission : K) :
    BookPosition T K :=
  { existing with
    entryPrice := (existing.entryPrice * existing.quantity + price * quantity) /
      (existing.quantity + quantity)
    quantity := existing.quantity + quantity
    entryCommissionRemaining := existing.entryCommissionRemaining + commission }

/-- `Portfolio.open`; `money` is the format `.2f`. -/
def Portfolio.openPosition (money : K → String) (book : Portfolio T K) (date : T) (symbol : String)
    (price quantity commission : K) : Portfolio T K × ExecutionOutcome T K :=
  let fillQty := affordableQuantity quantity price book.cash commission
  if fillQty ≤ 0 then
    (book, { rejected := some ⟨date, symbol, "buy", quantity, price,
      "Insufficient cash: need $" ++ money (price * quantity + commission) ++ ", have $" ++
        money book.cash⟩ })
  else
    ({ book with
        cash := book.cash - (price * fillQty + commission)
        positions :=
          match book.positions.lookup symbol with
          | some existing =>
            book.positions.modify (fun _ => existing.add price fillQty commission) existing symbol
          | none => book.positions ++ [(symbol, ⟨symbol, "long", price, fillQty, date, commission⟩)] },
      { fill := some ⟨date, symbol, "buy", price, fillQty, commission⟩ })

/-- The part of the entry commission that a sell of a quantity takes. -/
def BookPosition.entryCommissionAlloc (pos : BookPosition T K) (sellQuantity : K) : K :=
  if pos.quantity ≤ sellQuantity then pos.entryCommissionRemaining
  else pos.entryCommissionRemaining * (sellQuantity / pos.quantity)

/-- The trade that a sell records. -/
def BookPosition.exit (pos : BookPosition T K) (date : T) (symbol : String)
    (price sellQuantity commission : K) : BookTrade T K :=
  ⟨pos.entryDate, date, symbol, pos.side, pos.entryPrice, price, sellQuantity,
    pos.entryCommissionAlloc sellQuantity + commission⟩

/-- `Portfolio.close`. -/
def Portfolio.closePosition (book : Portfolio T K) (date : T) (symbol : String) (price : K)
    (quantity : Option K) (commission : K) : Portfolio T K × ExecutionOutcome T K :=
  match book.positions.lookup symbol with
  | none =>
    (book, { rejected := some ⟨date, symbol, "sell", quantity.getD 0, price,
      "Sell signal for a symbol with no open position"⟩ })
  | some pos =>
    let sellQuantity := (quantity.map (min · pos.quantity)).getD pos.quantity
    if sellQuantity ≤ 0 then (book, {})
    else
      let trade := pos.exit date symbol price sellQuantity commission
      ({ book with
          cash := book.cash + (price * sellQuantity - commission)
          trades := book.trades ++ [trade]
          positions :=
            if pos.quantity ≤ sellQuantity then book.positions.remove symbol
            else book.positions.modify (fun _ =>
              { pos with
                entryCommissionRemaining :=
                  pos.entryCommissionRemaining - pos.entryCommissionAlloc sellQuantity
                quantity := pos.quantity - sellQuantity }) pos symbol },
        { fill := some ⟨date, symbol, "sell", price, sellQuantity, commission⟩
          trade := some trade })

/-- One call on the book. -/
inductive BookOperation (T K : Type) where
  | opening (date : T) (symbol : String) (price quantity commission : K)
  | closing (date : T) (symbol : String) (price : K) (quantity : Option K) (commission : K)

def Portfolio.perform (money : K → String) (book : Portfolio T K) :
    BookOperation T K → Portfolio T K × ExecutionOutcome T K
  | .opening date symbol price quantity commission =>
    book.openPosition money date symbol price quantity commission
  | .closing date symbol price quantity commission =>
    book.closePosition date symbol price quantity commission

/-- The book after a sequence of calls, and what they returned. -/
def Portfolio.performAll (money : K → String) (book : Portfolio T K) :
    List (BookOperation T K) → Portfolio T K × List (ExecutionOutcome T K)
  | [] => (book, [])
  | op :: ops =>
    let (next, outcome) := book.perform money op
    let (final, outcomes) := next.performAll money ops
    (final, outcome :: outcomes)

/-! ## What the book is worth -/

/-- What a position has cost so far, with the commission that it still carries. -/
def BookPosition.carried (pos : BookPosition T K) : K :=
  pos.entryPrice * pos.quantity + pos.entryCommissionRemaining

/-- The commissions that were charged. -/
def chargedCommissions (outcomes : List (ExecutionOutcome T K)) : K :=
  (outcomes.map fun o => (o.fill.map (·.commission)).getD 0).sum

/-- The book after commissions of `charged` in all. -/
structure Portfolio.Accounted (book : Portfolio T K) (charged : K) : Prop where
  positive : ∀ pos ∈ book.positions.values, 0 < pos.quantity
  worth : book.cash + (book.positions.values.map BookPosition.carried).sum =
    book.initialCapital + (book.trades.map BookTrade.pnl).sum
  commissions : charged = (book.trades.map (·.commission)).sum +
    (book.positions.values.map (·.entryCommissionRemaining)).sum

theorem BookPosition.carried_add [IsStrictOrderedRing K] {existing : BookPosition T K}
    {quantity : K} (price commission : K) (h : 0 < existing.quantity + quantity) :
    (existing.add price quantity commission).carried =
      existing.carried + (price * quantity + commission) := by
  have hne : existing.quantity + quantity ≠ 0 := h.ne'
  simp only [carried, add]
  field_simp
  ring

/-- What a full or partial close returns to the cash, and what it leaves in the position. -/
theorem BookPosition.pnl_exit (pos : BookPosition T K) (date : T) (symbol : String)
    (price sellQuantity commission : K) :
    (pos.exit date symbol price sellQuantity commission).pnl =
      price * sellQuantity - commission -
        (pos.entryPrice * sellQuantity + pos.entryCommissionAlloc sellQuantity) := by
  simp only [exit, BookTrade.pnl]
  ring

namespace Portfolio

variable {book : Portfolio T K} {charged : K}

theorem accounted_start (initialCapital : K) :
    (start initialCapital : Portfolio T K).Accounted 0 where
  positive := nofun
  worth := by simp [start, InsertionDict.values]
  commissions := by simp [start, InsertionDict.values]

variable [IsStrictOrderedRing K]

theorem Accounted.openPosition (h : book.Accounted charged) (money : K → String) (date : T)
    (symbol : String) (price quantity commission : K) :
    (book.openPosition money date symbol price quantity commission).1.Accounted (charged +
      chargedCommissions [(book.openPosition money date symbol price quantity commission).2]) := by
  unfold Portfolio.openPosition
  extract_lets fillQty
  split_ifs with hfill
  · simpa [chargedCommissions] using h
  have hpos : 0 < fillQty := not_le.mp hfill
  cases hlookup : book.positions.lookup symbol with
  | none =>
    refine ⟨fun pos hmem => ?_, ?_, ?_⟩
    · rw [InsertionDict.values_append, List.mem_append] at hmem
      obtain hold | hnew := hmem
      · exact h.positive pos hold
      · rw [List.mem_singleton.mp hnew]
        exact hpos
    · have hworth := h.worth
      simp only [InsertionDict.values_append, List.map_append, List.sum_append]
      simp only [InsertionDict.values, List.map_cons, List.map_nil, List.sum_cons, List.sum_nil,
        BookPosition.carried] at hworth ⊢
      linarith
    · have hcommissions := h.commissions
      simp only [InsertionDict.values_append, List.map_append, List.sum_append]
      simp only [InsertionDict.values, chargedCommissions, List.map_cons, List.map_nil,
        List.sum_cons, List.sum_nil, Option.map_some, Option.getD_some] at hcommissions ⊢
      linarith
  | some existing =>
    have hexisting := h.positive existing (InsertionDict.mem_values_of_lookup hlookup)
    refine ⟨fun pos hmem => ?_, ?_, ?_⟩
    · obtain rfl | hold := InsertionDict.mem_values_modify hlookup hmem
      · exact add_pos hexisting hpos
      · exact h.positive pos hold
    · have hworth := h.worth
      have hadd := BookPosition.carried_add price commission (add_pos hexisting hpos)
      simp only [InsertionDict.sum_map_modify _ hlookup]
      rw [InsertionDict.sum_map_remove _ hlookup] at hworth
      linarith
    · have hcommissions := h.commissions
      simp only [InsertionDict.sum_map_modify _ hlookup, BookPosition.add, chargedCommissions,
        List.map_cons, List.map_nil, List.sum_cons, List.sum_nil, Option.map_some, Option.getD_some]
      rw [InsertionDict.sum_map_remove _ hlookup] at hcommissions
      linarith

theorem Accounted.closePosition (h : book.Accounted charged) (date : T) (symbol : String)
    (price : K) (quantity : Option K) (commission : K) :
    (book.closePosition date symbol price quantity commission).1.Accounted (charged +
      chargedCommissions [(book.closePosition date symbol price quantity commission).2]) := by
  unfold Portfolio.closePosition
  cases hlookup : book.positions.lookup symbol with
  | none => simpa [chargedCommissions] using h
  | some pos =>
    dsimp only
    have hle : (quantity.map (min · pos.quantity)).getD pos.quantity ≤ pos.quantity := by
      cases quantity with
      | none => exact le_rfl
      | some q => exact min_le_right q pos.quantity
    generalize (quantity.map (min · pos.quantity)).getD pos.quantity = sellQuantity at hle ⊢
    split_ifs with hsell hfull
    · simpa [chargedCommissions] using h
    · -- the whole position goes, with the commission that it still carries
      have heq : sellQuantity = pos.quantity := le_antisymm hle hfull
      have hworth := h.worth
      have hcommissions := h.commissions
      rw [InsertionDict.sum_map_remove _ hlookup] at hworth hcommissions
      have hpnl := pos.pnl_exit date symbol price sellQuantity commission
      have halloc : pos.entryCommissionAlloc sellQuantity = pos.entryCommissionRemaining :=
        if_pos hfull
      refine ⟨fun other hmem => ?_, ?_, ?_⟩
      · exact h.positive other (InsertionDict.mem_values_of_mem_remove hmem)
      · simp only [List.map_append, List.sum_append, List.map_cons, List.map_nil, List.sum_cons,
          List.sum_nil]
        rw [hpnl, halloc, heq]
        simp only [BookPosition.carried] at hworth ⊢
        linarith
      · simp only [List.map_append, List.sum_append, List.map_cons, List.map_nil, List.sum_cons,
          List.sum_nil, chargedCommissions, Option.map_some, Option.getD_some, BookPosition.exit]
        rw [halloc]
        linarith
    · have hworth := h.worth
      have hcommissions := h.commissions
      rw [InsertionDict.sum_map_remove _ hlookup] at hworth hcommissions
      have hpnl := pos.pnl_exit date symbol price sellQuantity commission
      refine ⟨fun other hmem => ?_, ?_, ?_⟩
      · obtain rfl | hold := InsertionDict.mem_values_modify hlookup hmem
        · exact sub_pos.mpr (not_le.mp hfull)
        · exact h.positive other hold
      · simp only [InsertionDict.sum_map_modify _ hlookup, List.map_append, List.sum_append,
          List.map_cons, List.map_nil, List.sum_cons, List.sum_nil]
        rw [hpnl]
        simp only [BookPosition.carried] at hworth ⊢
        linarith
      · simp only [InsertionDict.sum_map_modify _ hlookup, List.map_append, List.sum_append,
          List.map_cons, List.map_nil, List.sum_cons, List.sum_nil, chargedCommissions,
          Option.map_some, Option.getD_some, BookPosition.exit]
        linarith

theorem Accounted.perform (h : book.Accounted charged) (money : K → String) (op : BookOperation T K) :
    (book.perform money op).1.Accounted
      (charged + chargedCommissions [(book.perform money op).2]) := by
  cases op with
  | opening date symbol price quantity commission =>
    exact h.openPosition money date symbol price quantity commission
  | closing date symbol price quantity commission =>
    exact h.closePosition date symbol price quantity commission

theorem Accounted.performAll (h : book.Accounted charged) (money : K → String)
    (ops : List (BookOperation T K)) :
    (book.performAll money ops).1.Accounted
      (charged + chargedCommissions (book.performAll money ops).2) := by
  induction ops generalizing book charged with
  | nil => simpa [Portfolio.performAll, chargedCommissions] using h
  | cons op ops ih =>
    have hrest := ih (h.perform money op)
    rw [add_assoc] at hrest
    simpa [Portfolio.performAll, chargedCommissions] using hrest

omit [IsStrictOrderedRing K] in
theorem initialCapital_perform (money : K → String) (op : BookOperation T K) :
    (book.perform money op).1.initialCapital = book.initialCapital := by
  cases op with
  | opening date symbol price quantity commission =>
    simp only [Portfolio.perform, Portfolio.openPosition]
    split_ifs <;> rfl
  | closing date symbol price quantity commission =>
    simp only [Portfolio.perform, Portfolio.closePosition]
    split
    · rfl
    · split_ifs <;> rfl

omit [IsStrictOrderedRing K] in
theorem initialCapital_performAll (money : K → String) (ops : List (BookOperation T K)) :
    (book.performAll money ops).1.initialCapital = book.initialCapital := by
  induction ops generalizing book with
  | nil => rfl
  | cons op ops ih => exact ih.trans (initialCapital_perform money op)

end Portfolio

/-- **Accounting of a backtest.** After every sequence of opens and closes, the cash, the cost of the
open positions and the entry commissions they still carry are the initial capital and the profits of
the recorded trades; and every commission charged is in one trade or is still carried. -/
theorem book_accounted [IsStrictOrderedRing K] (money : K → String) (initialCapital : K)
    (ops : List (BookOperation T K)) :
    let run := (Portfolio.start initialCapital : Portfolio T K).performAll money ops
    run.1.cash + (run.1.positions.values.map fun pos =>
        pos.entryPrice * pos.quantity + pos.entryCommissionRemaining).sum =
      initialCapital + (run.1.trades.map BookTrade.pnl).sum ∧
    chargedCommissions run.2 = (run.1.trades.map (·.commission)).sum +
      (run.1.positions.values.map (·.entryCommissionRemaining)).sum := by
  intro run
  have h := (Portfolio.accounted_start (T := T) initialCapital).performAll money ops
  refine ⟨?_, ?_⟩
  · have hworth := h.worth
    rw [Portfolio.initialCapital_performAll] at hworth
    exact hworth
  · have hcommissions := h.commissions
    rw [zero_add] at hcommissions
    exact hcommissions

/-- Ten shares are bought at 50 and half of them sold at 60, with a fee of 1 on each side. -/
theorem book_accounted_partial_close :
    let run := (Portfolio.start 1000 : Portfolio ℕ ℚ).performAll (fun _ => "")
      [.opening 0 "SPY" 50 10 1, .closing 1 "SPY" 60 (some 5) 1]
    run.1.cash + (run.1.positions.values.map fun pos =>
        pos.entryPrice * pos.quantity + pos.entryCommissionRemaining).sum =
      1000 + (run.1.trades.map BookTrade.pnl).sum ∧
    chargedCommissions run.2 = (run.1.trades.map (·.commission)).sum +
      (run.1.positions.values.map (·.entryCommissionRemaining)).sum :=
  book_accounted _ _ _

end Operations

end LlamaTrade
