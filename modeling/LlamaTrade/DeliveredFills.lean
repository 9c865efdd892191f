import LlamaTrade.RestartedRunners

/-!
# Delivered fills

What the book of a runner holds after any delivery of the trade events of its orders: repeated,
late and interleaved. An event carries the cumulative filled quantity of its order.
-/

namespace LlamaTrade

/-- An order whose events are delivered. -/
structure StreamedOrder where
  clientOrderId : String
  symbol : String
  side : OrderSide
  deriving DecidableEq

inductive DeliveryKind where
  | partialFill | fill | canceled
  deriving DecidableEq

def DeliveryKind.eventType : DeliveryKind → TradeEventType
  | .partialFill => .partialFill
  | .fill => .fill
  | .canceled => .canceled

/-- One delivery of an event of an order. A fill has filled something. -/
structure FillDelivery where
  order : StreamedOrder
  kind : DeliveryKind
  cumulative : ℚ
  fillQty : ℚ
  fillPrice : ℚ
  timestamp : ℤ
  filled : kind ≠ .canceled → 0 < cumulative

/-- The event as the runner reads it. -/
def FillDelivery.event (d : FillDelivery) : BookEvent where
  eventType := d.kind.eventType
  clientOrderId := d.order.clientOrderId
  symbol := d.order.symbol
  timestamp := d.timestamp
  fill := some ⟨d.order.clientOrderId, d.order.symbol, d.order.side, d.fillQty, d.fillPrice,
    d.cumulative⟩

/-- A book with the largest cumulative quantity delivered for each order. -/
structure DeliveredBook where
  book : RunnerBook
  largest : String → ℚ

def DeliveredBook.start : DeliveredBook := ⟨.empty, fun _ => 0⟩

/-- The runner is told of an event. -/
def DeliveredBook.deliver (symbols : List String) (w : DeliveredBook) (d : FillDelivery) :
    Option DeliveredBook :=
  some ⟨w.book.handleEvent symbols d.event, Function.update w.largest d.order.clientOrderId
    (max (w.largest d.order.clientOrderId) d.cumulative)⟩

/-- The signed quantity of a position. -/
def signedPosition : Option RunnerPosition → ℚ
  | none => 0
  | some ⟨.long, quantity, _, _⟩ => quantity
  | some ⟨.short, quantity, _, _⟩ => -quantity

/-- What the orders of a symbol have moved, by the quantities delivered. -/
def movedQuantity (orders : List StreamedOrder) (largest : String → ℚ) (symbol : String) : ℚ :=
  ((orders.filter (·.symbol = symbol)).map fun o => o.side.signed (largest o.clientOrderId)).sum

/-- The quantity closes no more than the position against it. -/
def WithinPosition (old : Option RunnerPosition) (side : OrderSide) (qty : ℚ) : Prop :=
  ∀ position, old = some position →
    (side = .buy ∧ position.side = .short ∨ side = .sell ∧ position.side = .long) →
      qty ≤ position.quantity

/-- The delivery of an event of a subscribed symbol is applied in full: a fill closes no more than
the position against it, a cancellation or an event after the end of its order tells of no new
quantity, and an order that ends finds room among the terminal ids. -/
structure DeliveredBook.AppliesInFull (symbols : List String) (w : DeliveredBook)
    (d : FillDelivery) : Prop where
  within : d.order.symbol ∈ symbols → d.kind ≠ .canceled →
    WithinPosition (w.book.positions d.order.symbol) d.order.side
      (d.cumulative - w.largest d.order.clientOrderId)
  ended : d.order.symbol ∈ symbols →
    d.kind = .canceled ∨ d.order.clientOrderId ∈ w.book.terminalOrderIds →
      d.cumulative ≤ w.largest d.order.clientOrderId
  room : d.order.symbol ∈ symbols →
    d.kind = .canceled ∨ d.kind = .fill ∧ d.order.clientOrderId ∉ w.book.terminalOrderIds →
      w.book.terminalOrderIds.length < 512

/-! ## One fill -/

/-- The quantity of a position is positive. -/
def PositivePosition (old : Option RunnerPosition) : Prop :=
  ∀ position, old = some position → 0 < position.quantity

/-- A fill moves the position by its quantity, if it does not cross through zero. -/
theorem filledPosition_signed {old : Option RunnerPosition} {side : OrderSide} {qty : ℚ}
    (hpos : PositivePosition old) (hqty : 0 < qty) (hwithin : WithinPosition old side qty)
    (price : ℚ) (now : ℤ) :
    signedPosition (RunnerBook.filledPosition old side qty price now) =
        signedPosition old + side.signed qty ∧
      PositivePosition (RunnerBook.filledPosition old side qty price now) := by
  cases old with
  | none =>
    cases side with
    | buy =>
      refine ⟨by simp [RunnerBook.filledPosition, signedPosition, OrderSide.signed], ?_⟩
      rintro position ⟨⟩
      exact hqty
    | sell =>
      refine ⟨by simp [RunnerBook.filledPosition, signedPosition, OrderSide.signed], ?_⟩
      rintro position ⟨⟩
      exact hqty
  | some position =>
    obtain ⟨side', held, entry, date⟩ := position
    have hheld : 0 < held := hpos _ rfl
    cases side <;> cases side'
    · -- adding to a long position
      refine ⟨by simp [RunnerBook.filledPosition, signedPosition, OrderSide.signed], ?_⟩
      rintro position ⟨⟩
      exact add_pos hheld hqty
    · -- covering a short one
      have hle : qty ≤ held := hwithin _ rfl (.inl ⟨rfl, rfl⟩)
      simp only [RunnerBook.filledPosition, OrderSide.signed]
      split_ifs with hclosed
      · refine ⟨?_, fun position h => by cases h⟩
        simp only [signedPosition]
        linarith
      · refine ⟨?_, ?_⟩
        · simp only [signedPosition]
          ring
        · rintro position ⟨⟩
          exact not_le.mp hclosed
    · -- closing a long one
      have hle : qty ≤ held := hwithin _ rfl (.inr ⟨rfl, rfl⟩)
      simp only [RunnerBook.filledPosition, OrderSide.signed]
      split_ifs with hclosed
      · refine ⟨?_, fun position h => by cases h⟩
        simp only [signedPosition]
        linarith
      · refine ⟨?_, ?_⟩
        · simp only [signedPosition]
          ring
        · rintro position ⟨⟩
          exact not_le.mp hclosed
    · -- adding to a short one
      refine ⟨?_, ?_⟩
      · simp only [RunnerBook.filledPosition, signedPosition, OrderSide.signed]
        ring
      · rintro position ⟨⟩
        exact add_pos hheld hqty

/-! ## One delivery -/

section Deliveries

variable {symbols : List String} {orders : List StreamedOrder} {w : DeliveredBook}
  {d : FillDelivery}

/-- The total of the moved quantities changes by what one order moves. -/
theorem movedQuantity_update (hnodup : (orders.map (·.clientOrderId)).Nodup) {o : StreamedOrder}
    (hmem : o ∈ orders) (largest : String → ℚ) (quantity : ℚ) (symbol : String) :
    movedQuantity orders (Function.update largest o.clientOrderId quantity) symbol =
      movedQuantity orders largest symbol +
        if o.symbol = symbol then o.side.signed (quantity - largest o.clientOrderId) else 0 := by
  have hother : ∀ l : List StreamedOrder, (∀ p ∈ l, p.clientOrderId ≠ o.clientOrderId) →
      movedQuantity l (Function.update largest o.clientOrderId quantity) symbol =
        movedQuantity l largest symbol := by
    intro l hl
    rw [movedQuantity, movedQuantity]
    refine congrArg _ (List.map_congr_left fun p hp => ?_)
    rw [Function.update_of_ne (hl p (List.mem_filter.mp hp).1)]
  obtain ⟨before, after, rfl⟩ := List.append_of_mem hmem
  rw [List.map_append, List.map_cons, List.nodup_middle, List.nodup_cons] at hnodup
  have hbefore : ∀ p ∈ before ++ after, p.clientOrderId ≠ o.clientOrderId := by
    intro p hp heq
    refine hnodup.1 ?_
    rw [← List.map_append, ← heq]
    exact List.mem_map_of_mem hp
  have hsplit : ∀ largest : String → ℚ, movedQuantity (before ++ o :: after) largest symbol =
      movedQuantity (before ++ after) largest symbol +
        if o.symbol = symbol then o.side.signed (largest o.clientOrderId) else 0 := by
    intro largest
    simp only [movedQuantity, List.filter_append, List.filter_cons, List.map_append,
      List.sum_append, decide_eq_true_eq]
    split_ifs
    · rw [List.map_cons, List.sum_cons]
      ring
    · ring
  rw [hsplit, hsplit, hother _ hbefore, Function.update_self, add_assoc]
  congr 1
  split_ifs
  · cases o.side
    · simp [OrderSide.signed]
    · simp only [OrderSide.signed]
      ring
  · rw [add_zero]

/-- What the book knows of the delivered quantities. -/
structure DeliveredBook.Tracks (symbols : List String) (orders : List StreamedOrder)
    (w : DeliveredBook) : Prop where
  applied : ∀ o ∈ orders, o.symbol ∈ symbols →
    o.clientOrderId ∉ w.book.terminalOrderIds →
      (w.book.appliedFillQty o.clientOrderId).getD 0 = w.largest o.clientOrderId
  positive : ∀ symbol, PositivePosition (w.book.positions symbol)
  moved : ∀ symbol ∈ symbols,
    signedPosition (w.book.positions symbol) = movedQuantity orders w.largest symbol

/-- The tracking after an event: another order is tracked as before, and an order that is still
open knows its new cumulative quantity. -/
structure TrackedAfter (book : RunnerBook) (id : String) (quantity : ℚ) (book' : RunnerBook) :
    Prop where
  terminal : ∀ id', id' ∈ book.terminalOrderIds → id' ∈ book'.terminalOrderIds
  other : ∀ id', id' ≠ id → book'.appliedFillQty id' = book.appliedFillQty id'
  own : id ∉ book'.terminalOrderIds → (book'.appliedFillQty id).getD 0 = quantity

theorem clearFillTracking_tracked {book : RunnerBook} {id : String}
    (hroom : book.terminalOrderIds.length < 512) (quantity : ℚ) :
    TrackedAfter book id quantity (book.clearFillTracking id) := by
  have hterminal : (book.clearFillTracking id).terminalOrderIds =
      book.terminalOrderIds ++ [id] := by
    have hshort : ¬ 512 < (book.terminalOrderIds ++ [id]).length := by
      rw [List.length_append, List.length_singleton]
      omega
    exact if_neg hshort
  refine ⟨fun id' hmem => ?_, fun id' hne => Function.update_of_ne hne .., fun hopen => ?_⟩
  · rw [hterminal]
    exact List.mem_append_left _ hmem
  · rw [hterminal] at hopen
    exact absurd (List.mem_append_right _ (List.mem_singleton_self id)) hopen

/-- The part of a fill that is still to apply, of an order that has not ended. -/
theorem unappliedFillDelta_open {book : RunnerBook} {d : FillDelivery} {fill : FillData}
    (hevent : d.event.fill = some fill) (hkind : d.kind ≠ .canceled)
    (hopen : d.order.clientOrderId ∉ book.terminalOrderIds)
    (hroom : d.kind = .fill → book.terminalOrderIds.length < 512) :
    (book.unappliedFillDelta d.kind.eventType fill).1 =
        d.cumulative - (book.appliedFillQty d.order.clientOrderId).getD 0 ∧
      (book.unappliedFillDelta d.kind.eventType fill).2.positions = book.positions ∧
      TrackedAfter book d.order.clientOrderId
        (max ((book.appliedFillQty d.order.clientOrderId).getD 0) d.cumulative)
        (book.unappliedFillDelta d.kind.eventType fill).2 := by
  cases hevent
  have hcumulative := d.filled hkind
  simp only [RunnerBook.unappliedFillDelta, if_neg hopen, if_pos hcumulative, true_and]
  constructor
  · split_ifs <;> rfl
  cases hd : d.kind with
  | canceled => exact absurd hd hkind
  | fill =>
    rw [if_pos (by decide)]
    exact clearFillTracking_tracked (hroom hd) _
  | partialFill =>
    rw [if_neg (by decide)]
    split_ifs with hmore
    · refine ⟨fun _ hmem => hmem, fun id' hne => Function.update_of_ne hne .., fun _ => ?_⟩
      simp [max_eq_right hmore.le]
    · exact ⟨fun _ hmem => hmem, fun _ _ => rfl, fun _ => (max_eq_left (not_lt.mp hmore)).symm⟩

/-- The event of an order whose symbol is subscribed, from what it does to the book. -/
theorem DeliveredBook.Tracks.next (h : w.Tracks symbols orders)
    (hnodup : (orders.map (·.clientOrderId)).Nodup) (hmem : d.order ∈ orders) {book : RunnerBook}
    (htracked : TrackedAfter w.book d.order.clientOrderId
      (max (w.largest d.order.clientOrderId) d.cumulative) book)
    (hpositive : ∀ symbol, PositivePosition (book.positions symbol))
    (hmoved : ∀ symbol, signedPosition (book.positions symbol) =
      signedPosition (w.book.positions symbol) +
        if d.order.symbol = symbol then
          d.order.side.signed (max (w.largest d.order.clientOrderId) d.cumulative -
            w.largest d.order.clientOrderId)
        else 0) :
    (⟨book, Function.update w.largest d.order.clientOrderId
      (max (w.largest d.order.clientOrderId) d.cumulative)⟩ : DeliveredBook).Tracks symbols
        orders := by
  refine ⟨fun o ho hsymbol hopen => ?_, hpositive, fun symbol hsymbol => ?_⟩
  · dsimp only at hopen ⊢
    by_cases hid : o.clientOrderId = d.order.clientOrderId
    · rw [hid, Function.update_self]
      exact htracked.own (hid ▸ hopen)
    · rw [Function.update_of_ne hid, htracked.other _ hid]
      exact h.applied o ho hsymbol fun hold => hopen (htracked.terminal _ hold)
  · dsimp only
    rw [movedQuantity_update hnodup hmem, hmoved, h.moved symbol hsymbol]

/-- Nothing changes but the tracking. -/
theorem DeliveredBook.Tracks.next_of_told (h : w.Tracks symbols orders)
    (hnodup : (orders.map (·.clientOrderId)).Nodup) (hmem : d.order ∈ orders) {book : RunnerBook}
    (htold : d.cumulative ≤ w.largest d.order.clientOrderId)
    (htracked : TrackedAfter w.book d.order.clientOrderId
      (w.largest d.order.clientOrderId) book)
    (hpositions : book.positions = w.book.positions) :
    (⟨book, Function.update w.largest d.order.clientOrderId
      (max (w.largest d.order.clientOrderId) d.cumulative)⟩ : DeliveredBook).Tracks symbols
        orders := by
  refine h.next hnodup hmem ?_ ?_ ?_
  · rwa [max_eq_left htold]
  · rw [hpositions]
    exact h.positive
  · intro symbol
    rw [hpositions, max_eq_left htold, sub_self]
    cases d.order.side <;> simp [OrderSide.signed]

theorem DeliveredBook.Tracks.handleFillEvent (h : w.Tracks symbols orders)
    (hnodup : (orders.map (·.clientOrderId)).Nodup) (hmem : d.order ∈ orders)
    (hsymbol : d.order.symbol ∈ symbols) (hkind : d.kind ≠ .canceled)
    (hok : w.AppliesInFull symbols d) :
    (⟨w.book.handleFillEvent d.event, Function.update w.largest d.order.clientOrderId
      (max (w.largest d.order.clientOrderId) d.cumulative)⟩ : DeliveredBook).Tracks symbols
        orders := by
  obtain ⟨fill, hfill, hside, hfillSymbol⟩ : ∃ fill, d.event.fill = some fill ∧
      fill.side = d.order.side ∧ fill.symbol = d.order.symbol := ⟨_, rfl, rfl, rfl⟩
  simp only [RunnerBook.handleFillEvent, hfill]
  by_cases hended : d.order.clientOrderId ∈ w.book.terminalOrderIds
  · -- The order has ended: nothing is applied.
    have hdelta : w.book.unappliedFillDelta d.event.eventType fill = (0, w.book) := by
      cases hfill
      exact if_pos hended
    rw [hdelta]
    refine h.next_of_told hnodup hmem (hok.ended hsymbol (.inr hended)) ⟨fun _ hid => hid,
      fun _ _ => rfl, fun hopen => absurd hended hopen⟩ rfl
  · obtain ⟨hdelta, hpositions, htracked⟩ :=
      unappliedFillDelta_open hfill hkind hended fun hfilled => hok.room hsymbol (.inr ⟨hfilled, hended⟩)
    rw [h.applied d.order hmem hsymbol hended] at hdelta htracked
    rw [← show d.event.eventType = d.kind.eventType from rfl] at hdelta htracked hpositions
    generalize w.book.unappliedFillDelta d.event.eventType fill = delta at *
    obtain ⟨qty, tracked⟩ := delta
    simp only at hdelta htracked hpositions ⊢
    split_ifs with hnone
    · -- A repeated or late event.
      have htold : d.cumulative ≤ w.largest d.order.clientOrderId := by linarith
      rw [max_eq_left htold] at htracked
      exact h.next_of_told hnodup hmem htold htracked hpositions
    · have hqty : 0 < qty := not_le.mp hnone
      have hmax : max (w.largest d.order.clientOrderId) d.cumulative = d.cumulative :=
        max_eq_right (by linarith)
      obtain ⟨hsigned, hpositive⟩ := filledPosition_signed (h.positive d.order.symbol) hqty
        (hdelta ▸ hok.within hsymbol hkind) fill.fillPrice d.event.timestamp
      refine h.next hnodup hmem ⟨htracked.terminal, htracked.other, htracked.own⟩ ?_ ?_
      · intro symbol
        rw [hpositions, hfillSymbol, hside]
        dsimp only
        by_cases hsame : symbol = d.order.symbol
        · rw [hsame, Function.update_self]
          exact hpositive
        · rw [Function.update_of_ne hsame]
          exact h.positive symbol
      · intro symbol
        rw [hpositions, hfillSymbol, hside, hmax, ← hdelta]
        dsimp only
        by_cases hsame : symbol = d.order.symbol
        · rw [hsame, Function.update_self, if_pos rfl]
          exact hsigned
        · rw [Function.update_of_ne hsame, if_neg (Ne.symm hsame), add_zero]

/-- One delivery. -/
theorem DeliveredBook.Tracks.deliver {w' : DeliveredBook} (h : w.Tracks symbols orders)
    (hnodup : (orders.map (·.clientOrderId)).Nodup) (hmem : d.order ∈ orders)
    (hok : w.AppliesInFull symbols d) (hstep : w.deliver symbols d = some w') :
    w'.Tracks symbols orders := by
  cases hstep
  by_cases hsymbol : d.order.symbol ∈ symbols
  · cases hkind : d.kind with
    | partialFill =>
      have htype : d.event.eventType = .partialFill := congrArg DeliveryKind.eventType hkind
      rw [show w.book.handleEvent symbols d.event = w.book.handleFillEvent d.event by
        rw [RunnerBook.handleEvent, if_pos (show d.event.symbol ∈ symbols from hsymbol), htype]]
      exact h.handleFillEvent hnodup hmem hsymbol (by rw [hkind]; decide) hok
    | fill =>
      have htype : d.event.eventType = .fill := congrArg DeliveryKind.eventType hkind
      rw [show w.book.handleEvent symbols d.event = w.book.handleFillEvent d.event by
        rw [RunnerBook.handleEvent, if_pos (show d.event.symbol ∈ symbols from hsymbol), htype]]
      exact h.handleFillEvent hnodup hmem hsymbol (by rw [hkind]; decide) hok
    | canceled =>
      have htype : d.event.eventType = .canceled := congrArg DeliveryKind.eventType hkind
      rw [show w.book.handleEvent symbols d.event =
          w.book.clearFillTracking d.event.clientOrderId by
        rw [RunnerBook.handleEvent, if_pos (show d.event.symbol ∈ symbols from hsymbol), htype]]
      exact h.next_of_told hnodup hmem (hok.ended hsymbol (.inl hkind))
        (clearFillTracking_tracked (hok.room hsymbol (.inl hkind)) _) rfl
  · -- An event of another symbol.
    rw [show w.book.handleEvent symbols d.event = w.book from if_neg hsymbol]
    refine ⟨fun o ho hsubscribed hopen => ?_, h.positive, fun symbol hsub => ?_⟩
    · have hid : o.clientOrderId ≠ d.order.clientOrderId := by
        intro heq
        exact hsymbol (List.inj_on_of_nodup_map hnodup ho hmem heq ▸ hsubscribed)
      dsimp only
      rw [Function.update_of_ne hid]
      exact h.applied o ho hsubscribed hopen
    · have hne : d.order.symbol ≠ symbol := fun heq => hsymbol (heq ▸ hsub)
      dsimp only
      rw [movedQuantity_update hnodup hmem, if_neg hne, add_zero]
      exact h.moved symbol hsub

/-- A run of deliveries. -/
theorem DeliveredBook.Tracks.run {deliveries : List FillDelivery} {w' : DeliveredBook}
    (h : w.Tracks symbols orders) (hnodup : (orders.map (·.clientOrderId)).Nodup)
    (horders : ∀ d ∈ deliveries, d.order ∈ orders)
    (hmeets : Transition.Meets (DeliveredBook.deliver symbols)
      (fun w d => w.AppliesInFull symbols d) w deliveries)
    (hrun : Transition.run (DeliveredBook.deliver symbols) w deliveries = some w') :
    w'.Tracks symbols orders := by
  induction deliveries generalizing w with
  | nil =>
    cases hrun
    exact h
  | cons d deliveries ih =>
    obtain ⟨hok, hrest⟩ := hmeets
    exact ih (h.deliver hnodup (horders d (List.mem_cons_self ..)) hok rfl)
      (fun e he => horders e (List.mem_cons_of_mem _ he)) (hrest _ rfl) hrun

end Deliveries

namespace Sample

def spyBuy : StreamedOrder := ⟨"a", "SPY", .buy⟩

def spySell : StreamedOrder := ⟨"b", "SPY", .sell⟩

/-- A buy of five. -/
def spyBought : FillDelivery := ⟨spyBuy, .fill, 5, 5, 100, 1, fun _ => by norm_num⟩

/-- A sale of eight. -/
def spySold : FillDelivery := ⟨spySell, .fill, 8, 8, 110, 2, fun _ => by norm_num⟩

end Sample

end LlamaTrade
