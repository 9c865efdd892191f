import LlamaTrade.RunnerBook
import LlamaTrade.LotsAgree
import LlamaTrade.AdmissibleStreams
import LlamaTrade.TransitionRuns
import Mathlib.Algebra.BigOperators.Group.List.Lemmas

/-!
# Runners over crashes

The orders of an account fill at the broker, the events of the fills reach the runner of a
session in order, and the ledger books the final quantity of each order of the session on
its sleeve. A runner may crash at any time; events that happen while no runner is up are
never delivered, and the next runner starts with an empty book.

The book of the runner with the events still on their way applied, its drained book, is the
net of what the session's orders filled. It stays that over a restart if the session held
nothing when the runner started. Then, once every fill is booked, the holdings that an
evaluation sees are the open quantities of the sleeve.
-/

namespace LlamaTrade

/-- An order of the account, as the broker has it; `own` when the session placed it. -/
structure AccountOrder where
  clientOrderId : String
  symbol : String
  side : OrderSide
  own : Bool
  filled : ℚ
  closed : Bool
  booked : Bool
  deriving DecidableEq

/-- A quantity, negative for a sale. -/
def OrderSide.signed : OrderSide → ℚ → ℚ
  | .buy, qty => qty
  | .sell, qty => -qty

def AccountOrder.moved (o : AccountOrder) : ℚ := o.side.signed o.filled

structure RunnerWorld where
  orders : List AccountOrder
  runner : Option RunnerBook
  /-- The events on their way to the runner, the next one first. -/
  stream : List BookEvent
  log : List LedgerEvent

inductive RunnerAction where
  | place (clientOrderId symbol : String) (side : OrderSide) (own : Bool)
  /-- A fill of the order at an index; the last one closes it. -/
  | fill (i : ℕ) (qty price : ℚ) (now : ℤ) (complete : Bool)
  /-- The order at an index is cancelled, expires or is rejected. -/
  | close (i : ℕ) (eventType : TradeEventType) (now : ℤ)
  | handle
  /-- The next event is lost on its way. -/
  | lose
  | crash
  | rehydrate
  /-- The ledger takes the event of the order at an index. -/
  | book (i : ℕ) (event : LedgerEvent)
  /-- The ledger takes any other event of the account. -/
  | append (event : LedgerEvent)

namespace RunnerWorld

/-- An event goes out to the runner that is up. -/
def emit (w : RunnerWorld) (event : BookEvent) : RunnerWorld :=
  if w.runner.isSome then { w with stream := w.stream ++ [event] } else w

def setOrder (w : RunnerWorld) (i : ℕ) (o : AccountOrder) : RunnerWorld :=
  { w with orders := w.orders.set i o }

end RunnerWorld

/-- The event of a fill carries the quantity filled so far. -/
def fillBookEvent (o : AccountOrder) (qty price : ℚ) (now : ℤ) (complete : Bool) : BookEvent where
  eventType := if complete then .fill else .partialFill
  clientOrderId := o.clientOrderId
  symbol := o.symbol
  timestamp := now
  fill := some ⟨o.clientOrderId, o.symbol, o.side, qty, price, o.filled + qty⟩

def closeBookEvent (o : AccountOrder) (eventType : TradeEventType) (now : ℤ) : BookEvent :=
  ⟨eventType, o.clientOrderId, o.symbol, now, none⟩

/-- The broker closes an order without filling the rest of it. -/
def TradeEventType.endsUnfilled : TradeEventType → Bool
  | .canceled | .expired | .rejected => true
  | _ => false

def runnerStep (symbols : List String) (w : RunnerWorld) : RunnerAction → Option RunnerWorld
  | .place clientOrderId symbol side own =>
    if ∃ o ∈ w.orders, o.clientOrderId = clientOrderId then none
    else some { w with
      orders := w.orders ++ [⟨clientOrderId, symbol, side, own, 0, false, false⟩] }
  | .fill i qty price now complete =>
    match w.orders[i]? with
    | some o =>
      if o.closed ∨ qty ≤ 0 then none
      else some ((w.setOrder i { o with filled := o.filled + qty, closed := complete }).emit
        (fillBookEvent o qty price now complete))
    | none => none
  | .close i eventType now =>
    match w.orders[i]? with
    | some o =>
      if o.closed ∨ ¬ eventType.endsUnfilled then none
      else some ((w.setOrder i { o with closed := true }).emit (closeBookEvent o eventType now))
    | none => none
  | .handle =>
    match w.runner, w.stream with
    | some book, event :: stream =>
      some { w with runner := some (book.handleEvent symbols event), stream }
    | _, _ => none
  | .lose =>
    match w.stream with
    | _ :: stream => some { w with stream }
    | [] => none
  | .crash => some { w with runner := none, stream := [] }
  | .rehydrate => if w.runner.isSome then none else some { w with runner := some .empty }
  | .book i event =>
    match w.orders[i]? with
    | some o => some { w.setOrder i { o with booked := true } with log := w.log ++ [event] }
    | none => none
  | .append event => some { w with log := w.log ++ [event] }

/-- The open quantity of a sleeve in a symbol. -/
def openQuantity (log : List LedgerEvent) (sleeve symbol : String) : ℚ :=
  ((fold log : AccountProjection ℚ).positionOf sleeve symbol).qty

/-- What the orders of a kind moved in a symbol, net. -/
def netMoved (kind : AccountOrder → Bool) (orders : List AccountOrder) (symbol : String) : ℚ :=
  (orders.map fun o => if kind o ∧ o.symbol = symbol then o.moved else 0).sum

/-- What the session holds at the broker. -/
def heldQuantity (orders : List AccountOrder) (symbol : String) : ℚ :=
  netMoved (fun o => o.own) orders symbol

/-- The fill of an order as the ledger books it on a sleeve, and does not skip it. -/
structure BooksFill (sleeve : String) (o : AccountOrder) (event : LedgerEvent) : Prop where
  eventType : event.eventType = LedgerEventType.orderFilled.value
  sleeveId : event.data.text "sleeve_id" = .ok sleeve
  symbol : event.data.text "symbol" = .ok o.symbol
  side : event.data.text "side" = .ok (orderSideToStr o.side)
  qty : number event.data "qty" = .ok o.filled
  folded : eventLegs event ≠ []

/-- The session holds nothing, and none of its orders is part filled and open. -/
def SessionFlat (orders : List AccountOrder) : Prop :=
  (∀ o ∈ orders, heldQuantity orders o.symbol = 0) ∧
    ∀ o ∈ orders, o.own = true → o.closed = false → o.filled = 0

/-- What a step has to meet. The session's orders, and no others, are on the symbols of the
runner; it sells no more than it holds; none of its events is lost; a runner starts while
the session holds nothing; and the ledger moves the positions of the sleeve by the fill of
each order of the session, once, and by nothing else. -/
def RestartsFlat (symbols : List String) (sleeve : String) (w : RunnerWorld) : RunnerAction → Prop
  | .place _ symbol _ own => own = true ↔ symbol ∈ symbols
  | .fill i qty _ _ _ => ∀ o, w.orders[i]? = some o → o.own = true → o.side = .sell →
      qty ≤ heldQuantity w.orders o.symbol
  | .lose => ∀ event ∈ w.stream.head?, event.symbol ∉ symbols
  | .rehydrate => SessionFlat w.orders
  | .book i event => ∀ o, w.orders[i]? = some o →
      o.own = true ∧ o.closed = true ∧ o.booked = false ∧ BooksFill sleeve o event
  | .append event => ∀ p ∈ eventLegs event, p.bucket = .position → p.sleeveId ≠ some sleeve
  | _ => True

/-- A session before its first order, on a sleeve without positions. -/
structure SessionBegins (sleeve : String) (w : RunnerWorld) : Prop where
  orders : w.orders = []
  runner : w.runner = none
  stream : w.stream = []
  flat : ∀ symbol, openQuantity w.log sleeve symbol = 0

/-- Every fill of the session is folded in the ledger. -/
def FillsFolded (w : RunnerWorld) : Prop :=
  ∀ o ∈ w.orders, o.own = true → o.filled ≠ 0 → o.booked = true

/-- No event on the runner's symbols is on its way. -/
def EventsHandled (symbols : List String) (w : RunnerWorld) : Prop :=
  ∀ event ∈ w.stream, event.symbol ∉ symbols

/-! ## What the orders moved -/

section Moved

variable {orders : List AccountOrder} {i : ℕ} {o o' : AccountOrder} {symbol : String}

def movedBy (kind : AccountOrder → Bool) (o : AccountOrder) (symbol : String) : ℚ :=
  if kind o ∧ o.symbol = symbol then o.moved else 0

theorem netMoved_set (kind : AccountOrder → Bool) (hat : orders[i]? = some o)
    (o' : AccountOrder) (symbol : String) :
    netMoved kind (orders.set i o') symbol =
      netMoved kind orders symbol + (movedBy kind o' symbol - movedBy kind o symbol) := by
  induction orders generalizing i with
  | nil => simp at hat
  | cons p orders ih =>
    cases i with
    | zero =>
      obtain rfl : p = o := by simpa using hat
      simp only [netMoved, movedBy, List.set_cons_zero, List.map_cons, List.sum_cons]
      ring
    | succ i =>
      have hrest := ih (i := i) (by simpa using hat)
      simp only [netMoved, List.set_cons_succ, List.map_cons, List.sum_cons] at hrest ⊢
      rw [hrest]
      ring

/-- An update that moves nothing of a kind leaves its net alone. -/
theorem netMoved_set_of_same {kind : AccountOrder → Bool} (hat : orders[i]? = some o)
    (h : movedBy kind o' symbol = movedBy kind o symbol) :
    netMoved kind (orders.set i o') symbol = netMoved kind orders symbol := by
  rw [netMoved_set kind hat, h, sub_self, add_zero]

theorem netMoved_concat_unfilled (kind : AccountOrder → Bool) (orders : List AccountOrder)
    (h : o.filled = 0) (symbol : String) :
    netMoved kind (orders ++ [o]) symbol = netMoved kind orders symbol := by
  have hmoved : o.moved = 0 := by
    unfold AccountOrder.moved
    cases o.side <;> simp [OrderSide.signed, h]
  simp [netMoved, hmoved]

theorem heldQuantity_of_flat (h : SessionFlat orders) (symbol : String) :
    heldQuantity orders symbol = 0 := by
  by_cases hex : ∃ o ∈ orders, o.symbol = symbol
  · obtain ⟨o, ho, rfl⟩ := hex
    exact h.1 o ho
  · refine List.sum_eq_zero fun q hq => ?_
    obtain ⟨o, ho, rfl⟩ := List.mem_map.mp hq
    exact if_neg fun hsymbol => hex ⟨o, ho, hsymbol.2⟩

end Moved

/-! ## The ledger -/

section Ledger

variable {log : List LedgerEvent} {event : LedgerEvent} {sleeve symbol : String}

theorem openQuantity_concat (log : List LedgerEvent) (event : LedgerEvent)
    (sleeve symbol : String) :
    openQuantity (log ++ [event]) sleeve symbol =
      openQuantity log sleeve symbol + ((eventLegs event).map (legQty sleeve symbol)).sum := by
  unfold openQuantity fold
  rw [foldInto_append, foldInto_cons, foldInto_nil, foldEvent_positionOf]

theorem openQuantity_other (h : ∀ p ∈ eventLegs event, p.bucket = .position →
    p.sleeveId ≠ some sleeve) :
    openQuantity (log ++ [event]) sleeve symbol = openQuantity log sleeve symbol := by
  have hzero : ((eventLegs event).map (legQty sleeve symbol)).sum = 0 := by
    refine List.sum_eq_zero fun q hq => ?_
    obtain ⟨p, hp, rfl⟩ := List.mem_map.mp hq
    exact (legs_of_not_moves fun hmoves => h p hp hmoves.1 hmoves.2.1).1
  rw [openQuantity_concat, hzero, add_zero]

theorem BooksFill.legs {o : AccountOrder} (h : BooksFill sleeve o event) (symbol : String) :
    ((eventLegs event).map (legQty sleeve symbol)).sum =
      if o.symbol = symbol then o.moved else 0 := by
  obtain ⟨ps, hps, hlegs⟩ : ∃ ps : List (Posting ℚ), orderFilledPostings event.data = .ok ps ∧
      eventLegs event = ps := by
    have hfolded := h.folded
    unfold eventLegs at hfolded ⊢
    rw [h.eventType, LedgerEventType.coerce_value] at hfolded ⊢
    cases hval : validatedPostings (D := ℚ) .orderFilled event.data with
    | error e => simp [hval] at hfolded
    | ok ps => exact ⟨ps, build_of_validated hval, by simp [hval]⟩
  obtain ⟨sl, sy, side, qty, price, fees, hsl, hsy, hside, hqty, -, hcases⟩ :=
    orderFilledPostings_exact hps
  cases h.sleeveId.symm.trans hsl
  cases h.symbol.symm.trans hsy
  cases h.side.symm.trans hside
  cases h.qty.symm.trans hqty
  rw [hlegs]
  unfold AccountOrder.moved
  rcases hcases with ⟨hbuy, rfl⟩ | ⟨hsell, cost, -, rfl⟩
  · have hside : o.side = .buy := by
      cases ho : o.side with
      | buy => rfl
      | sell => exact absurd hbuy (by rw [ho]; decide)
    rw [(legsAt_buy sleeve o.symbol o.filled _ _ _ sleeve symbol).1, hside]
    simp [OrderSide.signed, eq_comm]
  · have hside : o.side = .sell := by
      cases ho : o.side with
      | sell => rfl
      | buy => exact absurd hsell (by rw [ho]; decide)
    rw [(legsAt_sell sleeve o.symbol (-o.filled) _ _ _ sleeve symbol).1, hside]
    simp [OrderSide.signed, eq_comm]

end Ledger

/-! ## The drained book -/

/-- A position is absent if nothing is held, and else long of what is held. -/
def PositionIs (held : ℚ) : Option RunnerPosition → Prop
  | none => held = 0
  | some position => position.side = .long ∧ position.quantity = held ∧ 0 < held

/-- The book knows what the session's orders filled. -/
structure TracksOrders (orders : List AccountOrder) (book : RunnerBook) : Prop where
  positions : ∀ symbol, PositionIs (heldQuantity orders symbol) (book.positions symbol)
  applied : ∀ (i : ℕ) (o : AccountOrder), orders[i]? = some o → o.own = true → o.closed = false →
    (book.appliedFillQty o.clientOrderId).getD 0 = o.filled ∧
      o.clientOrderId ∉ book.terminalOrderIds
  known : ∀ id, book.appliedFillQty id ≠ none ∨ id ∈ book.terminalOrderIds →
    ∃ o ∈ orders, o.clientOrderId = id

theorem PositionIs.holdings {held : ℚ} {book : RunnerBook} {symbol : String}
    (h : PositionIs held (book.positions symbol)) : (book.holdings symbol).getD 0 = held := by
  unfold RunnerBook.holdings
  cases hp : book.positions symbol with
  | none =>
    rw [hp] at h
    exact h.symm
  | some position =>
    rw [hp] at h
    obtain ⟨-, hquantity, hpos⟩ := h
    simp [hquantity, hpos]

/-- A fill moves the position by its quantity, if a sale sells no more than is held. -/
theorem PositionIs.filled {held qty : ℚ} {old : Option RunnerPosition} {side : OrderSide}
    (h : PositionIs held old) (hqty : 0 < qty) (hsell : side = .sell → qty ≤ held) (price : ℚ)
    (now : ℤ) :
    PositionIs (held + side.signed qty)
      (RunnerBook.filledPosition old side qty price now) := by
  cases old with
  | none =>
    obtain rfl : held = 0 := h
    cases side with
    | buy => simpa [RunnerBook.filledPosition, PositionIs, OrderSide.signed] using hqty
    | sell => exact absurd (hsell rfl) (not_le.mpr hqty)
  | some position =>
    obtain ⟨side', quantity, entry, date⟩ := position
    obtain ⟨hside, hquantity, hpos⟩ := h
    simp only at hside hquantity
    subst hside hquantity
    cases side with
    | buy => exact ⟨rfl, rfl, add_pos hpos hqty⟩
    | sell =>
      have hle := hsell rfl
      simp only [RunnerBook.filledPosition, OrderSide.signed]
      split_ifs with hclosed
      · show quantity + -qty = 0
        linarith
      · exact ⟨rfl, sub_eq_add_neg quantity qty, by linarith⟩

theorem appendTerminal_subset {ids : List String} {id id' : String}
    (h : id' ∈ RunnerBook.appendTerminal ids id) : id' ∈ ids ∨ id' = id := by
  unfold RunnerBook.appendTerminal at h
  simp only at h
  split_ifs at h
  · simpa using List.mem_of_mem_tail h
  · simpa using h

section Tracking

variable {symbols : List String} {orders : List AccountOrder} {book : RunnerBook} {i : ℕ}
  {o o' : AccountOrder}

/-- No two orders share a client order id. -/
def IdsDistinct (orders : List AccountOrder) : Prop :=
  ∀ (i j : ℕ) (a b : AccountOrder), orders[i]? = some a → orders[j]? = some b →
    a.clientOrderId = b.clientOrderId → i = j

theorem getElem?_set_cases {j : ℕ} {p : AccountOrder} (h : (orders.set i o')[j]? = some p) :
    (j = i ∧ p = o') ∨ (j ≠ i ∧ orders[j]? = some p) := by
  rw [List.getElem?_set] at h
  split_ifs at h with hij hlt
  · exact .inl ⟨hij.symm, (Option.some.inj h).symm⟩
  · exact .inr ⟨Ne.symm hij, h⟩

theorem exists_mem_set (hat : orders[i]? = some o) (hid : o'.clientOrderId = o.clientOrderId)
    {id : String} (h : ∃ p ∈ orders, p.clientOrderId = id) :
    ∃ p ∈ orders.set i o', p.clientOrderId = id := by
  obtain ⟨hlt, -⟩ := List.getElem?_eq_some_iff.mp hat
  obtain ⟨p, hp, rfl⟩ := h
  obtain ⟨j, hj⟩ := List.mem_iff_getElem?.mp hp
  by_cases hij : i = j
  · subst hij
    cases hat.symm.trans hj
    exact ⟨o', List.mem_iff_getElem?.mpr ⟨i, by rw [List.getElem?_set]; simp [hlt]⟩, hid⟩
  · exact ⟨p, List.mem_iff_getElem?.mpr ⟨j, by rw [List.getElem?_set, if_neg hij, hj]⟩, rfl⟩

theorem IdsDistinct.set (h : IdsDistinct orders) (hat : orders[i]? = some o)
    (hid : o'.clientOrderId = o.clientOrderId) : IdsDistinct (orders.set i o') := by
  intro j k a b ha hb heq
  rcases getElem?_set_cases ha with ⟨rfl, rfl⟩ | ⟨-, hold⟩
  · rcases getElem?_set_cases hb with ⟨rfl, rfl⟩ | ⟨-, hb⟩
    · rfl
    · exact h _ _ _ _ hat hb (hid ▸ heq)
  · rcases getElem?_set_cases hb with ⟨rfl, rfl⟩ | ⟨-, hb⟩
    · exact h _ _ _ _ hold hat (heq.trans hid)
    · exact h _ _ _ _ hold hb heq

/-- An update of an order that changes neither what was filled nor whether it is open. -/
theorem TracksOrders.set (h : TracksOrders orders book) (hat : orders[i]? = some o)
    (hid : o'.clientOrderId = o.clientOrderId)
    (hheld : ∀ symbol, heldQuantity (orders.set i o') symbol = heldQuantity orders symbol)
    (happlied : o'.own = true → o'.closed = false →
      o.own = true ∧ o.closed = false ∧ o'.filled = o.filled) :
    TracksOrders (orders.set i o') book where
  positions symbol := by
    rw [hheld]
    exact h.positions symbol
  applied j p hp hown hopen := by
    rcases getElem?_set_cases hp with ⟨rfl, rfl⟩ | ⟨-, hp⟩
    · obtain ⟨hown, hopen, hfilled⟩ := happlied hown hopen
      rw [hid, hfilled]
      exact h.applied j o hat hown hopen
    · exact h.applied j p hp hown hopen
  known id hid' := exists_mem_set hat hid (h.known id hid')

/-- The tracking of an order goes when it closes. -/
theorem TracksOrders.cleared (h : TracksOrders orders book) (hdistinct : IdsDistinct orders)
    (hat : orders[i]? = some o) (hid : o'.clientOrderId = o.clientOrderId)
    (hclosed : o'.closed = true) {positions : String → Option RunnerPosition}
    (hpositions : ∀ symbol, PositionIs (heldQuantity (orders.set i o') symbol)
      (positions symbol)) :
    TracksOrders (orders.set i o')
      { book.clearFillTracking o.clientOrderId with positions := positions } where
  positions := hpositions
  applied j p hp hown hopen := by
    rcases getElem?_set_cases hp with ⟨-, rfl⟩ | ⟨hji, hp⟩
    · rw [hclosed] at hopen
      cases hopen
    · have hne : p.clientOrderId ≠ o.clientOrderId := fun heq => hji (hdistinct _ _ _ _ hp hat heq)
      obtain ⟨happlied, hterminal⟩ := h.applied j p hp hown hopen
      refine ⟨?_, fun hmem => ?_⟩
      · simpa [RunnerBook.clearFillTracking, Function.update_of_ne hne] using happlied
      · rcases appendTerminal_subset hmem with hmem | heq
        · exact hterminal hmem
        · exact hne heq
  known id hid' := by
    by_cases heq : id = o.clientOrderId
    · exact exists_mem_set hat hid ⟨o, List.mem_of_getElem? hat, heq.symm⟩
    · refine exists_mem_set hat hid (h.known id ?_)
      rcases hid' with happlied | hterminal
      · left
        simpa [RunnerBook.clearFillTracking, Function.update_of_ne heq] using happlied
      · exact .inr ((appendTerminal_subset hterminal).resolve_right heq)

/-- What was filled so far is remembered while the order is open. -/
theorem TracksOrders.partlyFilled (h : TracksOrders orders book) (hdistinct : IdsDistinct orders)
    (hat : orders[i]? = some o) (hown : o.own = true) (hopen : o.closed = false)
    (hid : o'.clientOrderId = o.clientOrderId) {positions : String → Option RunnerPosition}
    (hpositions : ∀ symbol, PositionIs (heldQuantity (orders.set i o') symbol)
      (positions symbol)) :
    TracksOrders (orders.set i o')
      { book with
        appliedFillQty := Function.update book.appliedFillQty o.clientOrderId (some o'.filled)
        positions := positions } where
  positions := hpositions
  applied j p hp hown' hopen' := by
    rcases getElem?_set_cases hp with ⟨-, rfl⟩ | ⟨hji, hp⟩
    · rw [hid]
      simpa using (h.applied i o hat hown hopen).2
    · have hne : p.clientOrderId ≠ o.clientOrderId := fun heq => hji (hdistinct _ _ _ _ hp hat heq)
      simpa [Function.update_of_ne hne] using h.applied j p hp hown' hopen'
  known id hid' := by
    by_cases heq : id = o.clientOrderId
    · exact exists_mem_set hat hid ⟨o, List.mem_of_getElem? hat, heq.symm⟩
    · refine exists_mem_set hat hid (h.known id ?_)
      simpa [Function.update_of_ne heq] using hid'

/-- The runner that is told of a fill of an order of the session knows of it. -/
theorem TracksOrders.fill (h : TracksOrders orders book) (hdistinct : IdsDistinct orders)
    (hat : orders[i]? = some o) (hown : o.own = true) (hopen : o.closed = false)
    (hfilled : 0 ≤ o.filled) (hsymbol : o.symbol ∈ symbols) {qty : ℚ} (hqty : 0 < qty)
    (hsell : o.side = .sell → qty ≤ heldQuantity orders o.symbol) (price : ℚ) (now : ℤ)
    (complete : Bool) :
    TracksOrders (orders.set i { o with filled := o.filled + qty, closed := complete })
      (book.handleEvent symbols (fillBookEvent o qty price now complete)) := by
  obtain ⟨happlied, hterminal⟩ := h.applied i o hat hown hopen
  have hpositions : ∀ symbol, PositionIs
      (heldQuantity (orders.set i { o with filled := o.filled + qty, closed := complete }) symbol)
      (Function.update book.positions o.symbol (RunnerBook.filledPosition
        (book.positions o.symbol) o.side qty price now) symbol) := by
    intro symbol
    rw [heldQuantity, netMoved_set _ hat, ← heldQuantity]
    by_cases heq : symbol = o.symbol
    · subst heq
      rw [Function.update_self]
      have hmoved := (h.positions o.symbol).filled hqty hsell price now
      cases hside : o.side with
      | buy => simpa [movedBy, AccountOrder.moved, OrderSide.signed, hown, hside] using hmoved
      | sell => simpa [movedBy, AccountOrder.moved, OrderSide.signed, hown, hside] using hmoved
    · rw [Function.update_of_ne heq]
      simpa [movedBy, Ne.symm heq] using h.positions symbol
  have hcumulative : 0 < o.filled + qty := by linarith
  have hnot : ¬ qty ≤ 0 := not_le.mpr hqty
  cases complete with
  | true =>
    have hcleared := h.cleared hdistinct hat (by rfl) (by rfl) hpositions
    simpa [RunnerBook.handleEvent, fillBookEvent, hsymbol, RunnerBook.handleFillEvent,
      RunnerBook.unappliedFillDelta, hterminal, happlied, hcumulative, hnot,
      RunnerBook.clearFillTracking] using hcleared
  | false =>
    have htracked := h.partlyFilled hdistinct hat hown hopen (by rfl) hpositions
    simpa [RunnerBook.handleEvent, fillBookEvent, hsymbol, RunnerBook.handleFillEvent,
      RunnerBook.unappliedFillDelta, hterminal, happlied, hcumulative, hnot, hqty] using htracked

end Tracking

/-! ## The invariant -/

/-- The book with the events on their way applied. -/
def drained (symbols : List String) (stream : List BookEvent) (book : RunnerBook) : RunnerBook :=
  stream.foldl (RunnerBook.handleEvent symbols) book

structure OrderSound (symbols : List String) (o : AccountOrder) : Prop where
  own : o.own = true ↔ o.symbol ∈ symbols
  filled : 0 ≤ o.filled
  booked : o.booked = true → o.own = true ∧ o.closed = true

/-- The ledger has what was booked, and the drained book of the runner that is up knows what
the session's orders filled. -/
structure RunnerSound (symbols : List String) (sleeve : String) (w : RunnerWorld) : Prop where
  distinct : IdsDistinct w.orders
  orders : ∀ (i : ℕ) (o : AccountOrder), w.orders[i]? = some o → OrderSound symbols o
  ledger : ∀ symbol, openQuantity w.log sleeve symbol =
    netMoved (fun o => o.booked) w.orders symbol
  stream : w.runner = none → w.stream = []
  runner : ∀ book, w.runner = some book → TracksOrders w.orders (drained symbols w.stream book)

section Steps

variable {symbols : List String} {sleeve : String} {w w' : RunnerWorld} {i : ℕ}
  {o o' : AccountOrder}

theorem RunnerSound.orders_set (h : RunnerSound symbols sleeve w)
    (ho : OrderSound symbols o') (j : ℕ) (p : AccountOrder)
    (hp : (w.orders.set i o')[j]? = some p) : OrderSound symbols p := by
  rcases getElem?_set_cases hp with ⟨-, rfl⟩ | ⟨-, hp⟩
  · exact ho
  · exact h.orders j p hp

/-- The broker changes an open order and tells the runner that is up. -/
theorem RunnerSound.told (h : RunnerSound symbols sleeve w) (hat : w.orders[i]? = some o)
    (hopen : o.closed = false) (hid : o'.clientOrderId = o.clientOrderId)
    (ho : OrderSound symbols o') (hbooked : o'.booked = o.booked) {event : BookEvent}
    (htracks : ∀ book, TracksOrders w.orders book →
      TracksOrders (w.orders.set i o') (book.handleEvent symbols event)) :
    RunnerSound symbols sleeve ((w.setOrder i o').emit event) := by
  have hnot : o.booked = false := by
    cases hb : o.booked with
    | false => rfl
    | true => simp [((h.orders i o hat).booked hb).2] at hopen
  have hledger : ∀ symbol, openQuantity w.log sleeve symbol =
      netMoved (fun o => o.booked) (w.orders.set i o') symbol := by
    intro symbol
    rw [netMoved_set_of_same hat (by simp [movedBy, hbooked, hnot])]
    exact h.ledger symbol
  cases hrunner : w.runner with
  | none =>
    have hemit : (w.setOrder i o').emit event = w.setOrder i o' := by
      simp [RunnerWorld.emit, RunnerWorld.setOrder, hrunner]
    rw [hemit]
    exact ⟨h.distinct.set hat hid, h.orders_set ho, hledger, h.stream,
      fun book hup => by simp [RunnerWorld.setOrder, hrunner] at hup⟩
  | some book =>
    have hemit : (w.setOrder i o').emit event =
        { w with orders := w.orders.set i o', stream := w.stream ++ [event] } := by
      simp [RunnerWorld.emit, RunnerWorld.setOrder, hrunner]
    rw [hemit]
    refine ⟨h.distinct.set hat hid, h.orders_set ho, hledger,
      fun hdown => by simp [hrunner] at hdown, fun book' hup => ?_⟩
    have hold := h.runner book' hup
    simpa [drained] using htracks _ hold

theorem RunnerSound.fill (h : RunnerSound symbols sleeve w) (hat : w.orders[i]? = some o)
    (hopen : o.closed = false) {qty : ℚ} (hqty : 0 < qty)
    (hsell : o.own = true → o.side = .sell → qty ≤ heldQuantity w.orders o.symbol) (price : ℚ)
    (now : ℤ) (complete : Bool) :
    RunnerSound symbols sleeve
      ((w.setOrder i { o with filled := o.filled + qty, closed := complete }).emit
        (fillBookEvent o qty price now complete)) := by
  obtain ⟨hown, hfilled, hbooked⟩ := h.orders i o hat
  have ho : OrderSound symbols { o with filled := o.filled + qty, closed := complete } := by
    refine ⟨hown, add_nonneg hfilled hqty.le, fun hb => ?_⟩
    have hclosed := (hbooked hb).2
    rw [hopen] at hclosed
    cases hclosed
  refine h.told hat hopen (by rfl) ho (by rfl) fun book htracks => ?_
  by_cases hsession : o.own = true
  · exact htracks.fill h.distinct hat hsession hopen hfilled (hown.mp hsession) hqty
      (hsell hsession) price now complete
  · have hignored : book.handleEvent symbols (fillBookEvent o qty price now complete) = book :=
      if_neg fun hmem => hsession (hown.mpr hmem)
    rw [hignored]
    refine htracks.set hat rfl (fun symbol => ?_) fun hown' => absurd hown' hsession
    exact netMoved_set_of_same hat (by simp [movedBy, hsession])

theorem RunnerSound.close (h : RunnerSound symbols sleeve w) (hat : w.orders[i]? = some o)
    (hopen : o.closed = false) {eventType : TradeEventType} (hends : eventType.endsUnfilled = true)
    (now : ℤ) :
    RunnerSound symbols sleeve
      ((w.setOrder i { o with closed := true }).emit (closeBookEvent o eventType now)) := by
  obtain ⟨hown, hfilled, hbooked⟩ := h.orders i o hat
  have ho : OrderSound symbols { o with closed := true } :=
    ⟨hown, hfilled, fun hb => ⟨(hbooked hb).1, rfl⟩⟩
  refine h.told hat hopen (by rfl) ho (by rfl) fun book htracks => ?_
  have hheld : ∀ symbol, heldQuantity (w.orders.set i { o with closed := true }) symbol =
      heldQuantity w.orders symbol := fun symbol => netMoved_set_of_same hat rfl
  by_cases hmem : o.symbol ∈ symbols
  · have hcleared : book.handleEvent symbols (closeBookEvent o eventType now) =
        book.clearFillTracking o.clientOrderId := by
      cases eventType with
      | canceled | expired | rejected => simp [RunnerBook.handleEvent, closeBookEvent, hmem]
      | _ => simp [TradeEventType.endsUnfilled] at hends
    rw [hcleared]
    refine htracks.cleared h.distinct hat (by rfl) (by rfl) fun symbol => ?_
    rw [hheld]
    exact htracks.positions symbol
  · have hignored : book.handleEvent symbols (closeBookEvent o eventType now) = book := if_neg hmem
    rw [hignored]
    exact htracks.set hat rfl hheld fun _ hclosed => by cases hclosed

theorem getElem?_concat_cases {orders : List AccountOrder} {j : ℕ} {p : AccountOrder}
    (h : (orders ++ [o])[j]? = some p) : orders[j]? = some p ∨ j = orders.length ∧ p = o := by
  rw [List.getElem?_append] at h
  split_ifs at h with hlt
  · exact .inl h
  · rw [List.getElem?_singleton] at h
    split_ifs at h with hj
    exact .inr ⟨by omega, (Option.some.inj h).symm⟩

theorem IdsDistinct.concat {orders : List AccountOrder} (h : IdsDistinct orders)
    (hfresh : ¬ ∃ p ∈ orders, p.clientOrderId = o.clientOrderId) : IdsDistinct (orders ++ [o]) := by
  intro j k a b ha hb heq
  rcases getElem?_concat_cases ha with hold | ⟨rfl, rfl⟩
  · rcases getElem?_concat_cases hb with hb | ⟨rfl, rfl⟩
    · exact h j k a b hold hb heq
    · exact absurd ⟨a, List.mem_of_getElem? hold, heq⟩ hfresh
  · rcases getElem?_concat_cases hb with hb | ⟨rfl, rfl⟩
    · exact absurd ⟨b, List.mem_of_getElem? hb, heq.symm⟩ hfresh
    · rfl

/-- An order that was not filled yet is known as such. -/
theorem TracksOrders.concat {orders : List AccountOrder} {book : RunnerBook}
    (h : TracksOrders orders book)
    (hfresh : ¬ ∃ p ∈ orders, p.clientOrderId = o.clientOrderId) (hfilled : o.filled = 0) :
    TracksOrders (orders ++ [o]) book where
  positions symbol := by
    rw [heldQuantity, netMoved_concat_unfilled _ _ hfilled]
    exact h.positions symbol
  applied j p hp hown hopen := by
    rcases getElem?_concat_cases hp with hp | ⟨-, rfl⟩
    · exact h.applied j p hp hown hopen
    · have hnone : book.appliedFillQty p.clientOrderId = none := by
        by_contra hsome
        exact hfresh (h.known _ (.inl hsome))
      refine ⟨by simp [hnone, hfilled], fun hmem => hfresh (h.known _ (.inr hmem))⟩
  known id hid := by
    obtain ⟨p, hp, heq⟩ := h.known id hid
    exact ⟨p, List.mem_append_left _ hp, heq⟩

theorem RunnerSound.place (h : RunnerSound symbols sleeve w)
    (hfresh : ¬ ∃ p ∈ w.orders, p.clientOrderId = o.clientOrderId) (hfilled : o.filled = 0)
    (ho : OrderSound symbols o) :
    RunnerSound symbols sleeve { w with orders := w.orders ++ [o] } where
  distinct := h.distinct.concat hfresh
  orders j p hp := by
    rcases getElem?_concat_cases hp with hp | ⟨-, rfl⟩
    · exact h.orders j p hp
    · exact ho
  ledger symbol := by
    rw [netMoved_concat_unfilled _ _ hfilled]
    exact h.ledger symbol
  stream := h.stream
  runner book hup := (h.runner book hup).concat hfresh hfilled

theorem tracksOrders_empty (h : SessionFlat w.orders) : TracksOrders w.orders .empty where
  positions symbol := heldQuantity_of_flat h symbol
  applied _ o hat hown hopen :=
    ⟨(h.2 o (List.mem_of_getElem? hat) hown hopen).symm, by simp [RunnerBook.empty]⟩
  known _ hid := by simp [RunnerBook.empty] at hid

/-- The ledger takes the fill of a closed order of the session. -/
theorem RunnerSound.book (h : RunnerSound symbols sleeve w) (hat : w.orders[i]? = some o)
    (hown : o.own = true) (hclosed : o.closed = true) (hbooked : o.booked = false)
    {event : LedgerEvent} (hfill : BooksFill sleeve o event) :
    RunnerSound symbols sleeve
      { w.setOrder i { o with booked := true } with log := w.log ++ [event] } where
  distinct := h.distinct.set hat rfl
  orders := h.orders_set ⟨(h.orders i o hat).own, (h.orders i o hat).filled,
    fun _ => ⟨hown, hclosed⟩⟩
  ledger symbol := by
    show openQuantity (w.log ++ [event]) sleeve symbol =
      netMoved (fun o => o.booked) (w.orders.set i { o with booked := true }) symbol
    rw [openQuantity_concat, hfill.legs, netMoved_set _ hat, h.ledger symbol]
    simp [movedBy, hbooked, AccountOrder.moved]
  stream := h.stream
  runner book hup := (h.runner book hup).set hat rfl
    (fun symbol => netMoved_set_of_same hat rfl) fun hown' hopen => ⟨hown', hopen, rfl⟩

/-- What the condition of a step gives, for one step. -/
theorem RunnerSound.step {action : RunnerAction} (h : RunnerSound symbols sleeve w)
    (hok : RestartsFlat symbols sleeve w action) (hstep : runnerStep symbols w action = some w') :
    RunnerSound symbols sleeve w' := by
  cases action with
  | place clientOrderId symbol side own =>
    simp only [runnerStep, Option.ite_none_left_eq_some, Option.some.injEq] at hstep
    obtain ⟨hfresh, rfl⟩ := hstep
    exact h.place hfresh rfl ⟨hok, le_rfl, fun hb => by cases hb⟩
  | fill i qty price now complete =>
    simp only [runnerStep] at hstep
    cases hat : w.orders[i]? with
    | none => simp [hat] at hstep
    | some o =>
      simp only [hat, Option.ite_none_left_eq_some, Option.some.injEq] at hstep
      obtain ⟨henabled, rfl⟩ := hstep
      push Not at henabled
      exact h.fill hat (by simpa using henabled.1) henabled.2 (hok o hat) price now complete
  | close i eventType now =>
    simp only [runnerStep] at hstep
    cases hat : w.orders[i]? with
    | none => simp [hat] at hstep
    | some o =>
      simp only [hat, Option.ite_none_left_eq_some, Option.some.injEq] at hstep
      obtain ⟨henabled, rfl⟩ := hstep
      push Not at henabled
      exact h.close hat (by simpa using henabled.1) henabled.2 now
  | handle =>
    simp only [runnerStep] at hstep
    split at hstep
    · rename_i book event stream hup hstream
      cases hstep
      refine ⟨h.distinct, h.orders, h.ledger, fun hdown => (by cases hdown), fun book' hup' => ?_⟩
      cases hup'
      -- Handling the next event leaves the drained book as it is.
      have htracks := h.runner book hup
      rw [hstream] at htracks
      exact htracks
    · cases hstep
  | lose =>
    simp only [runnerStep] at hstep
    split at hstep
    · rename_i event stream hstream
      cases hstep
      refine ⟨h.distinct, h.orders, h.ledger, fun hdown => ?_, fun book hup => ?_⟩
      · simp [h.stream hdown] at hstream
      · have htracks := h.runner book hup
        have hignored : book.handleEvent symbols event = book :=
          if_neg (hok event (by simp [hstream]))
        rw [hstream, drained, List.foldl_cons, hignored] at htracks
        exact htracks
    · cases hstep
  | crash =>
    cases hstep
    exact ⟨h.distinct, h.orders, h.ledger, fun _ => rfl, fun book hup => by cases hup⟩
  | rehydrate =>
    simp only [runnerStep, Option.ite_none_left_eq_some, Option.some.injEq] at hstep
    obtain ⟨hdown, rfl⟩ := hstep
    have hstream : w.stream = [] := h.stream (by simpa using hdown)
    refine ⟨h.distinct, h.orders, h.ledger, fun hup => (by cases hup), fun book hup => ?_⟩
    cases hup
    rw [hstream]
    exact tracksOrders_empty hok
  | book i event =>
    simp only [runnerStep] at hstep
    cases hat : w.orders[i]? with
    | none => simp [hat] at hstep
    | some o =>
      simp only [hat, Option.some.injEq] at hstep
      subst hstep
      obtain ⟨hown, hclosed, hbooked, hfill⟩ := hok o hat
      exact h.book hat hown hclosed hbooked hfill
  | append event =>
    cases hstep
    refine ⟨h.distinct, h.orders, fun symbol => ?_, h.stream, h.runner⟩
    rw [openQuantity_other hok]
    exact h.ledger symbol

end Steps

theorem SessionBegins.sound {symbols : List String} {sleeve : String} {w : RunnerWorld}
    (h : SessionBegins sleeve w) : RunnerSound symbols sleeve w where
  distinct i j a b ha := by simp [h.orders] at ha
  orders i o ho := by simp [h.orders] at ho
  ledger symbol := by rw [h.flat, h.orders]; rfl
  stream _ := h.stream
  runner book hup := by simp [h.runner] at hup

/-- Events on other symbols leave the book as it is. -/
theorem drained_of_handled {symbols : List String} {stream : List BookEvent} (book : RunnerBook)
    (h : ∀ event ∈ stream, event.symbol ∉ symbols) : drained symbols stream book = book := by
  induction stream with
  | nil => rfl
  | cons event stream ih =>
    have hignored : book.handleEvent symbols event = book := if_neg (h event (by simp))
    rw [drained, List.foldl_cons, hignored]
    exact ih fun event' hevent => h event' (by simp [hevent])

/-- Once every fill of the session is booked, what was booked is what the session holds. -/
theorem netMoved_booked {symbols : List String} {sleeve : String} {w : RunnerWorld}
    (h : RunnerSound symbols sleeve w) (hfolded : FillsFolded w) (symbol : String) :
    netMoved (fun o => o.booked) w.orders symbol = heldQuantity w.orders symbol := by
  refine congrArg List.sum (List.map_congr_left fun o ho => ?_)
  obtain ⟨i, hat⟩ := List.mem_iff_getElem?.mp ho
  have hbooked := (h.orders i o hat).booked
  by_cases hfilled : o.filled = 0
  · have hmoved : o.moved = 0 := by
      unfold AccountOrder.moved
      cases o.side <;> simp [OrderSide.signed, hfilled]
    simp [hmoved]
  · have hiff : o.booked = true ↔ o.own = true :=
      ⟨fun hb => (hbooked hb).1, fun hown => hfolded o ho hown hfilled⟩
    simp [hiff]

/-- In every run of a session, over any crashes, whose runners start while the session holds
nothing and whose other steps meet the condition: once all fills are folded in the ledger
and the runner has handled the events on its symbols, the holdings that an evaluation sees
are the open quantities of the sleeve. -/
theorem rehydrated_holdings {symbols : List String} {sleeve : String} {w w' : RunnerWorld}
    {actions : List RunnerAction} (hbegins : SessionBegins sleeve w)
    (hmeets : Transition.Meets (runnerStep symbols) (RestartsFlat symbols sleeve) w actions)
    (hrun : Transition.run (runnerStep symbols) w actions = some w') {book : RunnerBook}
    (hup : w'.runner = some book) (hfolded : FillsFolded w') (hhandled : EventsHandled symbols w')
    (symbol : String) :
    (book.holdings symbol).getD 0 = openQuantity w'.log sleeve symbol := by
  have hsound : RunnerSound symbols sleeve w' :=
    Transition.run_invariant (fun _ _ _ h hok hstep => h.step hok hstep) hbegins.sound hmeets hrun
  have htracks := hsound.runner book hup
  rw [drained_of_handled book hhandled] at htracks
  rw [(htracks.positions symbol).holdings, hsound.ledger symbol, netMoved_booked hsound hfolded]

/-! ## Two sessions -/

namespace Sample

def bookBegin : RunnerWorld := ⟨[], none, [], []⟩

/-- Ten shares are bought, the runner hears of it and the ledger books it; then the process
dies and the session is rehydrated. -/
def boughtThenCrashed : List RunnerAction :=
  [.rehydrate, .place "a" "SPY" .buy true, .fill 0 10 400 1 true, .handle,
    .book 0 (fillEvent 1 "s" "SPY" "buy" "10" "400" []), .crash, .rehydrate]

/-- Ten shares are bought and sold; after a crash the next runner buys five. -/
def soldThenCrashed : List RunnerAction :=
  [.rehydrate, .place "a" "SPY" .buy true, .fill 0 10 400 1 true, .handle,
    .book 0 (fillEvent 1 "s" "SPY" "buy" "10" "400" []), .place "b" "SPY" .sell true,
    .fill 1 10 410 2 true, .handle,
    .book 1 (fillEvent 2 "s" "SPY" "sell" "10" "410" [("cost_basis", .str "4000")]), .crash,
    .rehydrate, .place "c" "SPY" .buy true, .fill 2 5 400 3 true, .handle,
    .book 2 (fillEvent 3 "s" "SPY" "buy" "5" "400" [])]

theorem bookBegin_begins : SessionBegins "s" bookBegin :=
  ⟨rfl, rfl, rfl, fun _ => rfl⟩

end Sample

theorem rehydrated_holdings_flat_restart :
    ∃ (w' : RunnerWorld) (book : RunnerBook),
      Transition.run (runnerStep ["SPY"]) Sample.bookBegin Sample.soldThenCrashed = some w' ∧
      w'.runner = some book ∧ book.holdings "SPY" = some 5 ∧
      (book.holdings "SPY").getD 0 = openQuantity w'.log "s" "SPY" := by
  have hbought : ∀ o : AccountOrder, o.symbol = "SPY" → o.side = .buy → o.filled = 10 →
      BooksFill "s" o (fillEvent 1 "s" "SPY" "buy" "10" "400" []) := by
    intro o hsymbol hside hfilled
    refine ⟨rfl, rfl, hsymbol ▸ rfl, hside ▸ rfl, hfilled ▸ ?_, ?_⟩ <;> decide +kernel
  have hsold : ∀ o : AccountOrder, o.symbol = "SPY" → o.side = .sell → o.filled = 10 →
      BooksFill "s" o (fillEvent 2 "s" "SPY" "sell" "10" "410" [("cost_basis", .str "4000")]) := by
    intro o hsymbol hside hfilled
    refine ⟨rfl, rfl, hsymbol ▸ rfl, hside ▸ rfl, hfilled ▸ ?_, ?_⟩ <;> decide +kernel
  have hagain : ∀ o : AccountOrder, o.symbol = "SPY" → o.side = .buy → o.filled = 5 →
      BooksFill "s" o (fillEvent 3 "s" "SPY" "buy" "5" "400" []) := by
    intro o hsymbol hside hfilled
    refine ⟨rfl, rfl, hsymbol ▸ rfl, hside ▸ rfl, hfilled ▸ ?_, ?_⟩ <;> decide +kernel
  have hmeets : Transition.Meets (runnerStep ["SPY"]) (RestartsFlat ["SPY"] "s") Sample.bookBegin
      Sample.soldThenCrashed := by
    refine Transition.meets_cons rfl ⟨by simp [Sample.bookBegin], by simp [Sample.bookBegin]⟩ ?_
    refine Transition.meets_cons rfl (by simp [RestartsFlat]) ?_
    refine Transition.meets_cons rfl (fun o ho _ hside => by cases ho; cases hside) ?_
    refine Transition.meets_cons rfl trivial ?_
    refine Transition.meets_cons rfl (fun o ho => ?_) ?_
    · cases ho
      exact ⟨rfl, rfl, rfl, hbought _ rfl rfl (by decide +kernel)⟩
    refine Transition.meets_cons rfl (by simp [RestartsFlat]) ?_
    refine Transition.meets_cons rfl (fun o ho _ _ => by cases ho; decide +kernel) ?_
    refine Transition.meets_cons rfl trivial ?_
    refine Transition.meets_cons rfl (fun o ho => ?_) ?_
    · cases ho
      exact ⟨rfl, rfl, rfl, hsold _ rfl rfl (by decide +kernel)⟩
    refine Transition.meets_cons rfl trivial ?_
    refine Transition.meets_cons rfl ⟨by decide +kernel, by decide⟩ ?_
    refine Transition.meets_cons rfl (by simp [RestartsFlat]) ?_
    refine Transition.meets_cons rfl (fun o ho _ hside => by cases ho; cases hside) ?_
    refine Transition.meets_cons rfl trivial ?_
    refine Transition.meets_cons rfl (fun o ho => ?_) trivial
    cases ho
    exact ⟨rfl, rfl, rfl, hagain _ rfl rfl (by decide +kernel)⟩
  refine ⟨_, _, rfl, rfl, by decide +kernel,
    rehydrated_holdings Sample.bookBegin_begins hmeets rfl rfl ?_ ?_ "SPY"⟩
  · intro o ho _ _
    revert o
    decide +kernel
  · intro event hevent
    cases hevent

/-- Everything is settled, the sleeve has ten shares, and the rehydrated runner has none. -/
theorem rehydrated_without_shares :
    ∃ (w' : RunnerWorld) (book : RunnerBook), SessionBegins "s" Sample.bookBegin ∧
      Transition.run (runnerStep ["SPY"]) Sample.bookBegin Sample.boughtThenCrashed = some w' ∧
      w'.runner = some book ∧ FillsFolded w' ∧ EventsHandled ["SPY"] w' ∧
      book.holdings "SPY" = none ∧ openQuantity w'.log "s" "SPY" = 10 := by
  refine ⟨_, _, Sample.bookBegin_begins, rfl, rfl, ?_, ?_, rfl, by decide +kernel⟩
  · intro o ho _ _
    obtain rfl := List.mem_singleton.mp ho
    rfl
  · intro event hevent
    cases hevent

end LlamaTrade
