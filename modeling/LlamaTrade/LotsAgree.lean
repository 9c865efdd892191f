import LlamaTrade.ExactLots
import LlamaTrade.LedgerPlanners

/-!
# Lots and balances agree

The lot fold and the balance fold are written independently. In exact arithmetic, over
every stream of admissible events, the open lots of a sleeve and symbol add up to the
position, in quantity and in cost, are positive and stand in order of acquisition. A
stream is admissible when its fills have positive quantities and non-negative prices,
its sells carry the cost basis that the FIFO selection resolves on the lots before them,
and its splits, renames and closes are planned from the state before them.
-/

namespace LlamaTrade

/-! ## The agreement and its steps -/

/-- The lots of a sleeve and symbol add up to the position. -/
structure AgreeAt (m : ℤ) (lots : List (Lot ℚ)) (pos : PositionState ℚ) : Prop where
  ok : LotsOk m lots
  qty : totalQty lots = pos.qty
  cost : totalCost lots = pos.costBasis

def Agree (m : ℤ) (s : FoldState ℚ) (book : LotBook ℚ) : Prop :=
  ∀ sleeve symbol, AgreeAt m (book.lots sleeve symbol) (s.acc.positionOf sleeve symbol)

theorem AgreeAt.mono {m m' : ℤ} {lots : List (Lot ℚ)} {pos : PositionState ℚ}
    (h : AgreeAt m lots pos) (hm : m ≤ m') : AgreeAt m' lots pos :=
  ⟨h.ok.mono hm, h.qty, h.cost⟩

theorem agreeAt_nil (m : ℤ) : AgreeAt m [] ⟨0, 0⟩ := ⟨lotsOk_nil m, rfl, rfl⟩

theorem AgreeAt.eq_nil {m : ℤ} {lots : List (Lot ℚ)} {pos : PositionState ℚ}
    (h : AgreeAt m lots pos) (hqty : pos.qty = 0) : lots = [] :=
  h.ok.eq_nil_of_totalQty (by rw [h.qty, hqty])

theorem AgreeAt.cost_eq_zero {m : ℤ} {lots : List (Lot ℚ)} {pos : PositionState ℚ}
    (h : AgreeAt m lots pos) (hqty : pos.qty = 0) : pos.costBasis = 0 := by
  rw [← h.cost, h.eq_nil hqty, totalCost_nil]

theorem AgreeAt.qty_nonneg {m : ℤ} {lots : List (Lot ℚ)} {pos : PositionState ℚ}
    (h : AgreeAt m lots pos) : 0 ≤ pos.qty := h.qty ▸ h.ok.totalQty_nonneg

theorem AgreeAt.cost_nonneg {m : ℤ} {lots : List (Lot ℚ)} {pos : PositionState ℚ}
    (h : AgreeAt m lots pos) : 0 ≤ pos.costBasis := h.cost ▸ h.ok.totalCost_nonneg

/-- Any sorted arrangement of two groups of lots agrees with the sum of their positions. -/
theorem AgreeAt.join {m : ℤ} {xs ys out : List (Lot ℚ)} {p q : PositionState ℚ}
    (hx : AgreeAt m xs p) (hy : ∀ lot ∈ ys, 0 < lot.qty ∧ 0 ≤ lot.costBasis ∧ lot.openedSeq < m)
    (hqty : totalQty ys = q.qty) (hcost : totalCost ys = q.costBasis) (hperm : out.Perm (xs ++ ys))
    (hsorted : out.Pairwise fun a b => a.openedSeq ≤ b.openedSeq) :
    AgreeAt m out ⟨p.qty + q.qty, p.costBasis + q.costBasis⟩ := by
  refine ⟨⟨fun lot hlot => ?_, hsorted⟩, ?_, ?_⟩
  · rcases List.mem_append.mp (hperm.mem_iff.mp hlot) with h | h
    · exact hx.ok.each lot h
    · exact hy lot h
  · rw [totalQty_perm hperm, totalQty_append, hx.qty, hqty]
  · rw [totalCost_perm hperm, totalCost_append, hx.cost, hcost]

section Steps

variable {m m' : ℤ} {s : FoldState ℚ} {book : LotBook ℚ} {ev : LedgerEvent}

/-- Moving position and lots of every sleeve and symbol by the same amounts. -/
theorem Agree.step (hagree : Agree m s book)
    (h : ∀ sl sy, AgreeAt m (book.lots sl sy) (s.acc.positionOf sl sy) →
      AgreeAt m' ((foldLotsEvent book ev).lots sl sy)
        ⟨(s.acc.positionOf sl sy).qty + ((eventLegs ev).map (legQty sl sy)).sum,
          (s.acc.positionOf sl sy).costBasis + ((eventLegs ev).map (legCost sl sy)).sum⟩) :
    Agree m' (foldEvent s ev) (foldLotsEvent book ev) := by
  intro sl sy
  rw [foldEvent_positionOf]
  exact h sl sy (hagree sl sy)

/-- What the legs of an event add to positions: `dq` shares at cost `dc` to one sleeve and
symbol, and nothing elsewhere. -/
def LegsAt (legs : List (Posting ℚ)) (sleeve symbol : String) (dq dc : ℚ) : Prop :=
  ∀ sl sy, (legs.map (legQty sl sy)).sum = (if sl = sleeve ∧ sy = symbol then dq else 0) ∧
    (legs.map (legCost sl sy)).sum = if sl = sleeve ∧ sy = symbol then dc else 0

/-- An event that moves one sleeve and symbol. -/
theorem Agree.step_at {sleeve symbol : String} {dq dc : ℚ} (out : List (Lot ℚ))
    (hagree : Agree m s book) (hm : m ≤ m') (hlegs : LegsAt (eventLegs ev) sleeve symbol dq dc)
    (hlots : ∀ sl sy, (foldLotsEvent book ev).lots sl sy =
      if sl = sleeve ∧ sy = symbol then out else book.lots sl sy)
    (hout : AgreeAt m (book.lots sleeve symbol) (s.acc.positionOf sleeve symbol) →
      AgreeAt m' out ⟨(s.acc.positionOf sleeve symbol).qty + dq,
        (s.acc.positionOf sleeve symbol).costBasis + dc⟩) :
    Agree m' (foldEvent s ev) (foldLotsEvent book ev) := by
  apply hagree.step
  intro sl sy hat
  rw [hlots, (hlegs sl sy).1, (hlegs sl sy).2]
  by_cases h : sl = sleeve ∧ sy = symbol
  · obtain ⟨rfl, rfl⟩ := h
    simpa using hout hat
  · simpa [h] using hat.mono hm

/-- An event that touches neither positions nor lots. -/
theorem Agree.step_of_no_legs (hagree : Agree m s book) (hm : m ≤ m')
    (hlegs : ∀ p ∈ eventLegs ev, p.bucket ≠ .position) (hbook : foldLotsEvent book ev = book) :
    Agree m' (foldEvent s ev) (foldLotsEvent book ev) := by
  apply hagree.step
  intro sl sy hat
  have hqty : (eventLegs ev).map (legQty sl sy) = (eventLegs ev).map fun _ => 0 :=
    List.map_congr_left fun p hp => (legs_of_not_moves fun hmoves => hlegs p hp hmoves.1).1
  have hcost : (eventLegs ev).map (legCost sl sy) = (eventLegs ev).map fun _ => 0 :=
    List.map_congr_left fun p hp => (legs_of_not_moves fun hmoves => hlegs p hp hmoves.1).2
  rw [hbook, hqty, hcost]
  simpa using hat.mono hm

/-! ### Fills -/

theorem orderFilledPostings_exact {data : Payload} {ps : List (Posting ℚ)}
    (h : orderFilledPostings data = .ok ps) :
    ∃ (sleeve symbol side : String) (qty price fees : ℚ), data.text "sleeve_id" = .ok sleeve ∧
      data.text "symbol" = .ok symbol ∧ data.text "side" = .ok side ∧
      number data "qty" = .ok qty ∧ number data "price" = .ok price ∧
      ((PyText.lower side = "buy" ∧ ps =
          [⟨some sleeve, .cash, -(qty * price + fees), none, none⟩,
            ⟨some sleeve, .position, qty * price, some symbol, some qty⟩,
            ⟨some sleeve, .pnl, fees, none, none⟩]) ∨
        PyText.lower side = "sell" ∧ ∃ cost, number data "cost_basis" = .ok cost ∧ ps =
          [⟨some sleeve, .position, -cost, some symbol, some (-qty)⟩,
            ⟨some sleeve, .cash, qty * price - fees, none, none⟩,
            ⟨some sleeve, .pnl, -(qty * price - cost - fees), none, none⟩]) := by
  simp only [orderFilledPostings, bind_eq_ok] at h
  obtain ⟨sleeve, hsleeve, symbol, hsymbol, side, hside, qty, hqty, price, hprice, fees, -, notional,
    hnotional, h⟩ := h
  cases hnotional
  refine ⟨sleeve, symbol, side, qty, price, fees, hsleeve, hsymbol, hside, hqty, hprice, ?_⟩
  split_ifs at h with hbuy hsell hbasis
  · refine .inl ⟨hbuy, ?_⟩
    simpa [buyPostings] using h.symm
  · refine .inr ⟨hsell, ?_⟩
    simp only [bind_eq_ok] at h
    obtain ⟨cost, hcost, h⟩ := h
    exact ⟨cost, hcost, by simpa [sellPostings] using h.symm⟩

theorem legsAt_buy (sleeve symbol : String) (qty notional cash pnl : ℚ) :
    LegsAt [⟨some sleeve, .cash, cash, none, none⟩,
      ⟨some sleeve, .position, notional, some symbol, some qty⟩,
      ⟨some sleeve, .pnl, pnl, none, none⟩] sleeve symbol qty notional := by
  intro sl sy
  simp [legQty, legCost, Posting.Moves, eq_comm]

theorem legsAt_sell (sleeve symbol : String) (qty cost cash pnl : ℚ) :
    LegsAt [⟨some sleeve, .position, cost, some symbol, some qty⟩,
      ⟨some sleeve, .cash, cash, none, none⟩, ⟨some sleeve, .pnl, pnl, none, none⟩]
      sleeve symbol qty cost := by
  intro sl sy
  simp [legQty, legCost, Posting.Moves, eq_comm]

/-- A fill has a positive quantity and a non-negative price, and a sell carries the cost
basis that the FIFO selection resolves on the open lots. -/
def FillAdmissible (book : LotBook ℚ) (data : Payload) : Prop :=
  ∀ (sleeve symbol side : String) (qty price : ℚ), data.text "sleeve_id" = .ok sleeve →
    data.text "symbol" = .ok symbol → data.text "side" = .ok side → number data "qty" = .ok qty →
    number data "price" = .ok price → 0 < qty ∧ 0 ≤ price ∧
      (PyText.lower side = "sell" → ∀ cost, number data "cost_basis" = .ok cost →
        ∃ r, selectLotsFifo (book.lots sleeve symbol) qty = .ok r ∧ cost = r.closedCostBasis)

theorem foldLotsEvent_of_postings (book : LotBook ℚ) {t : LedgerEventType} {ps : List (Posting ℚ)}
    (ht : LedgerEventType.coerce ev.eventType = .ok t) (hsplit : t ≠ .splitApplied)
    (hrename : t ≠ .symbolChanged) (hclose : t ≠ .sleeveClosed)
    (hps : buildPostings t ev.data = .ok ps) :
    foldLotsEvent book ev = (applyLotPostings book ev.sequence ps).1 := by
  unfold foldLotsEvent applyLotEvent
  rw [ht, Attempt.guarded_ok]
  cases t <;> first | exact absurd rfl hsplit | exact absurd rfl hrename |
    exact absurd rfl hclose | simp only [hps, Attempt.guarded_ok]

theorem foldLotsEvent_of_error (book : LotBook ℚ) {t : LedgerEventType} {e : PyError}
    (ht : LedgerEventType.coerce ev.eventType = .ok t) (hsplit : t ≠ .splitApplied)
    (hrename : t ≠ .symbolChanged) (hclose : t ≠ .sleeveClosed)
    (hps : buildPostings (D := ℚ) t ev.data = .error e) : foldLotsEvent book ev = book := by
  unfold foldLotsEvent applyLotEvent
  rw [ht, Attempt.guarded_ok]
  cases t <;> first | exact absurd rfl hsplit | exact absurd rfl hrename |
    exact absurd rfl hclose | simp only [hps, Attempt.guarded_error]

/-- An acquisition: one position leg adds a lot at the end. -/
theorem AgreeAt.acquire {lots : List (Lot ℚ)} {pos : PositionState ℚ} (h : AgreeAt m lots pos)
    {q amount : ℚ} (hq : 0 < q) (hamount : 0 ≤ amount) {seq : ℕ} (hseq : m ≤ seq) :
    AgreeAt (seq + 1) (lots ++ [⟨q, amount, seq⟩]) ⟨pos.qty + q, pos.costBasis + amount⟩ := by
  refine ⟨⟨?_, ?_⟩, by simp [h.qty], by simp [h.cost]⟩
  · intro lot hlot
    rcases List.mem_append.mp hlot with hlot | hlot
    · obtain ⟨hqty, hcost, hopened⟩ := h.ok.each lot hlot
      exact ⟨hqty, hcost, by omega⟩
    · rw [List.mem_singleton.mp hlot]
      exact ⟨hq, hamount, by simp⟩
  · refine List.pairwise_append.mpr ⟨h.ok.sorted, by simp, ?_⟩
    intro lot hlot lot' hlot'
    have hopened := (h.ok.each lot hlot).2.2
    rw [List.mem_singleton.mp hlot']
    simp only
    omega

theorem Agree.step_fill (hagree : Agree m s book) (hseq : m ≤ ev.sequence)
    (ht : LedgerEventType.coerce ev.eventType = .ok .orderFilled)
    (hadm : FillAdmissible book ev.data) :
    Agree (ev.sequence + 1) (foldEvent s ev) (foldLotsEvent book ev) := by
  cases hps : buildPostings (D := ℚ) .orderFilled ev.data with
  | error e =>
    refine hagree.step_of_no_legs (by omega) (by simp [eventLegs_of_error ht hps]) ?_
    exact foldLotsEvent_of_error book ht (by simp) (by simp) (by simp) hps
  | ok ps =>
    obtain ⟨sleeve, symbol, side, qty, price, fees, hsleeve, hsymbol, hside, hqty, hprice, hlegs⟩ :=
      orderFilledPostings_exact hps
    obtain ⟨hqpos, hpnonneg, hsell⟩ := hadm sleeve symbol side qty price hsleeve hsymbol hside hqty
      hprice
    have hbook := foldLotsEvent_of_postings book ht (by simp) (by simp) (by simp) hps
    have hnotional : 0 ≤ qty * price := mul_nonneg (le_of_lt hqpos) hpnonneg
    rcases hlegs with ⟨-, rfl⟩ | ⟨hside, cost, hcost, rfl⟩
    · have hevent := eventLegs_eq ht hps (by simp) (by
        simp [Posting.SignsAgree, le_of_lt hqpos, not_lt.mpr hnotional])
      have hbuy := applyLotPosting_buy book ev.sequence sleeve symbol (qty * price) hqpos
      refine hagree.step_at _ (by omega) (hevent ▸ legsAt_buy _ _ _ _ _ _) (fun sl sy => ?_)
        fun hat => hat.acquire hqpos hnotional hseq
      rw [hbook, applyLotPostings_cons_of_not_position _ _ (by simp),
        applyLotPostings_first _ _ (hbuy sl sy).1 (by simp)]
      exact (hbuy sl sy).2
    · obtain ⟨r, hr, rfl⟩ := hsell hside cost hcost
      have hlots := (hagree sleeve symbol).ok
      obtain ⟨hok, hclosed, htotal, hcosts⟩ := selectLotsFifo_exact hlots hqpos hr
      have hevent := eventLegs_eq ht hps (by simp) (by
        simp [Posting.SignsAgree, le_of_lt hqpos, hclosed])
      have hout := applyLotPosting_sell book ev.sequence sleeve symbol (-r.closedCostBasis) hlots
        hqpos hr
      refine hagree.step_at _ (by omega) (hevent ▸ legsAt_sell _ _ _ _ _ _) (fun sl sy => ?_)
        fun hat => ⟨hok.mono (by omega), ?_, ?_⟩
      · rw [hbook, applyLotPostings_first _ _ (hout sl sy).1 (by simp)]
        exact (hout sl sy).2
      · rw [htotal, hat.qty]
        ring
      · rw [← hat.cost, ← hcosts]
        ring

/-! ### External trades -/

/-- A trade adopted from the broker acquires shares, or is void. -/
def AdoptionAcquires (data : Payload) : Prop :=
  ∀ qty price : ℚ, number data "qty" = .ok qty → number data "price" = .ok price →
    0 ≤ qty ∧ 0 ≤ price

theorem Agree.step_adoption (hagree : Agree m s book) (hseq : m ≤ ev.sequence)
    (ht : LedgerEventType.coerce ev.eventType = .ok .externalTradeDetected)
    (hadm : AdoptionAcquires ev.data) :
    Agree (ev.sequence + 1) (foldEvent s ev) (foldLotsEvent book ev) := by
  cases hps : buildPostings (D := ℚ) .externalTradeDetected ev.data with
  | error e =>
    refine hagree.step_of_no_legs (by omega) (by simp [eventLegs_of_error ht hps]) ?_
    exact foldLotsEvent_of_error book ht (by simp) (by simp) (by simp) hps
  | ok ps =>
    have hbook := foldLotsEvent_of_postings book ht (by simp) (by simp) (by simp) hps
    have hbuild := hps
    simp only [buildPostings, bind_eq_ok] at hbuild
    obtain ⟨sleeve, -, symbol, -, qty, hqty, price, hprice, notional, hnotional, out, hout, hbuild⟩ :=
      hbuild
    cases hnotional
    cases hout
    cases hbuild
    obtain ⟨hqnonneg, hpnonneg⟩ := hadm qty price hqty hprice
    have hnotional : 0 ≤ qty * price := mul_nonneg hqnonneg hpnonneg
    have hevent := eventLegs_eq ht hps (by simp) (by
      simp [Posting.SignsAgree, hqnonneg, not_lt.mpr hnotional])
    have hlegs : LegsAt (eventLegs ev) sleeve symbol qty (qty * price) := by
      intro sl sy
      rw [hevent]
      simp [legQty, legCost, Posting.Moves, eq_comm]
    rw [applyLotPostings_cons_of_not_position _ _ (by simp)] at hbook
    rcases hqnonneg.eq_or_lt with rfl | hqpos
    · refine hagree.step_at (book.lots sleeve symbol) (by omega) hlegs (fun sl sy => ?_)
        fun hat => by simpa using hat.mono (by omega)
      have hskip : applyLotPosting book ev.sequence
          ⟨some sleeve, .position, 0 * price, some symbol, some 0⟩ = (book, none) := by
        simp [applyLotPosting]
      rw [hbook, applyLotPostings_first _ _ (by rw [hskip]) (by simp), hskip]
      split_ifs with h
      · rw [h.1, h.2]
      · rfl
    · have hbuy := applyLotPosting_buy book ev.sequence sleeve symbol (qty * price) hqpos
      refine hagree.step_at _ (by omega) hlegs (fun sl sy => ?_)
        fun hat => hat.acquire hqpos hnotional hseq
      rw [hbook, applyLotPostings_first _ _ (hbuy sl sy).1 (by simp)]
      exact (hbuy sl sy).2

/-! ### Splits -/

/-- The event is one of a split planned with the current position of its sleeve. -/
def SplitPlanned (s : FoldState ℚ) (data : Payload) : Prop :=
  ∃ (symbol : String) (ratio : ℚ) (holders : List (UUID × ℚ)) (externalId : String)
    (events : List PlannedCorporateEvent) (planned : PlannedCorporateEvent),
    planSplit symbol ratio holders externalId = .ok events ∧ planned ∈ events ∧
      data = planned.data ∧ ∀ holder ∈ holders, holder.1 = planned.sleeveId →
        holder.2 = (s.acc.positionOf holder.1.text symbol).qty

theorem splitEvents_exact {symbol : String} {ratio : ℚ} {externalId : String}
    {holders : List (UUID × ℚ)} {events : List PlannedCorporateEvent}
    {planned : PlannedCorporateEvent} (h : splitEvents symbol ratio externalId holders = .ok events)
    (hmem : planned ∈ events) :
    ∃ holder ∈ holders, holder.2 ≠ 0 ∧ planned.sleeveId = holder.1 ∧
      planned.data = [("sleeve_id", .str holder.1.text), ("symbol", .str symbol),
        ("qty_delta", .str (Arithmetic.text (holder.2 * (ratio - 1))))] := by
  induction holders generalizing events with
  | nil =>
    cases h
    cases hmem
  | cons holder holders ih =>
    simp only [splitEvents, bind_eq_ok] at h
    obtain ⟨first, hfirst, others, hothers, hevents⟩ := h
    cases hevents
    rcases List.mem_append.mp hmem with hmem | hmem
    · refine ⟨holder, by simp, ?_⟩
      by_cases hzero : holder.2 = 0
      · simp [splitEvent, hzero, pure_eq_ok] at hfirst
        subst hfirst
        cases hmem
      · by_cases hdelta : holder.2 * (ratio - 1) = 0
        · have hone : ratio - 1 = 0 := (mul_eq_zero.mp hdelta).resolve_left hzero
          simp [splitEvent, hzero, Arithmetic.ofInt, hone, pure_eq_ok] at hfirst
          subst hfirst
          cases hmem
        · have hone : ratio - 1 ≠ 0 := (mul_ne_zero_iff.mp hdelta).2
          simp [splitEvent, hzero, Arithmetic.ofInt, hone, pure_eq_ok] at hfirst
          subst hfirst
          rw [Option.toList_some, List.mem_singleton] at hmem
          subst hmem
          exact ⟨hzero, rfl, rfl⟩
    · obtain ⟨found, hfound, hrest⟩ := ih hothers hmem
      exact ⟨found, List.mem_cons_of_mem _ hfound, hrest⟩

theorem Agree.step_split (hagree : Agree m s book) (hseq : m ≤ ev.sequence)
    (ht : LedgerEventType.coerce ev.eventType = .ok .splitApplied)
    (hadm : SplitPlanned s ev.data) :
    Agree (ev.sequence + 1) (foldEvent s ev) (foldLotsEvent book ev) := by
  obtain ⟨symbol, ratio, holders, externalId, events, planned, hplan, hmem, hdata, hheld⟩ := hadm
  have hratio : 0 < ratio := by
    by_contra hle
    simp [planSplit, not_lt.mp hle] at hplan
  have hevents : splitEvents symbol ratio externalId holders = .ok events := by
    by_cases hid : externalId = ""
    · simp [planSplit, not_le.mpr hratio, hid] at hplan
    · simpa [planSplit, not_le.mpr hratio, hid] using hplan
  obtain ⟨holder, hholder, hne, hsleeve, hpayload⟩ := splitEvents_exact hevents hmem
  have hqty := hheld holder hholder hsleeve.symm
  set sleeve := holder.1.text
  set delta := holder.2 * (ratio - 1) with hdelta
  have hitem : ev.data.text "sleeve_id" = .ok sleeve ∧ ev.data.text "symbol" = .ok symbol ∧
      number ev.data "qty_delta" = .ok delta ∧
      ev.data.text "qty_delta" = .ok (Arithmetic.text delta) := by
    rw [hdata, hpayload]
    simp [Payload.text, Payload.item, List.lookup_cons, number, toNumber]
  obtain ⟨hsl, hsy, hnum, htext⟩ := hitem
  have hps : buildPostings (D := ℚ) .splitApplied ev.data =
      .ok [⟨some sleeve, .position, 0, some symbol, some delta⟩] := by
    simp [buildPostings, hsl, hsy, hnum, pure_eq_ok]
  have hevent := eventLegs_eq ht hps (by simp) (by simp [Posting.SignsAgree])
  have hat := hagree sleeve symbol
  have hnil : book.lots sleeve symbol ≠ [] := by
    intro hnil
    apply hne
    rw [hqty, ← hat.qty, hnil, totalQty_nil]
  have hnew : 0 < totalQty (book.lots sleeve symbol) + delta := by
    have hpos : 0 < holder.2 := by
      rw [hqty, ← hat.qty]
      exact lt_of_le_of_ne hat.ok.totalQty_nonneg fun h => hne (by rw [hqty, ← hat.qty, ← h])
    have hscaled : totalQty (book.lots sleeve symbol) + delta = holder.2 * ratio := by
      rw [hat.qty, ← hqty, hdelta]
      ring
    rw [hscaled]
    exact mul_pos hpos hratio
  obtain ⟨out, hout, hok, htotal, hcost⟩ := rebaseSplit_exact hat.ok hnil hnew
  have hlegs : LegsAt (eventLegs ev) sleeve symbol delta 0 := by
    intro sl sy
    rw [hevent]
    simp [legQty, legCost, Posting.Moves, eq_comm]
  refine hagree.step_at out (by omega) hlegs (fun sl sy => ?_)
    fun hat => ⟨hok.mono (by omega), ?_, ?_⟩
  · simp [foldLotsEvent, applyLotEvent, ht, applySplit, hsl, hsy, hnil, htext, hout, lots_setLots]
  · rw [htotal, hat.qty]
  · rw [hcost, hat.cost, add_zero]

/-! ### Renames -/

/-- The event is one of a rename planned with the current position of its sleeve. -/
def RenamePlanned (s : FoldState ℚ) (data : Payload) : Prop :=
  ∃ (oldSymbol newSymbol : String) (holders : List (UUID × PositionState ℚ)) (externalId : String)
    (events : List PlannedCorporateEvent) (planned : PlannedCorporateEvent),
    planSymbolChange oldSymbol newSymbol holders externalId = .ok events ∧ planned ∈ events ∧
      data = planned.data ∧ ∀ holder ∈ holders, holder.1 = planned.sleeveId →
        holder.2 = s.acc.positionOf holder.1.text oldSymbol

theorem renameEvents_exact {oldSymbol newSymbol externalId : String}
    {holders : List (UUID × PositionState ℚ)} {events : List PlannedCorporateEvent}
    {planned : PlannedCorporateEvent}
    (h : renameEvents oldSymbol newSymbol externalId holders = .ok events)
    (hmem : planned ∈ events) :
    ∃ holder ∈ holders, holder.2.qty ≠ 0 ∧ planned.sleeveId = holder.1 ∧
      planned.data = [("sleeve_id", .str holder.1.text), ("old_symbol", .str oldSymbol),
        ("new_symbol", .str newSymbol), ("qty", .str (Arithmetic.text holder.2.qty)),
        ("cost_basis", .str (Arithmetic.text holder.2.costBasis))] := by
  induction holders generalizing events with
  | nil =>
    cases h
    cases hmem
  | cons holder holders ih =>
    simp only [renameEvents, bind_eq_ok] at h
    obtain ⟨first, hfirst, others, hothers, hevents⟩ := h
    cases hevents
    rcases List.mem_append.mp hmem with hmem | hmem
    · refine ⟨holder, by simp, ?_⟩
      by_cases hzero : holder.2.qty = 0
      · simp [renameEvent, hzero, pure_eq_ok] at hfirst
        subst hfirst
        cases hmem
      · simp [renameEvent, hzero, pure_eq_ok] at hfirst
        subst hfirst
        rw [Option.toList_some, List.mem_singleton] at hmem
        subst hmem
        exact ⟨hzero, rfl, rfl⟩
    · obtain ⟨found, hfound, hrest⟩ := ih hothers hmem
      exact ⟨found, List.mem_cons_of_mem _ hfound, hrest⟩

/-- A rename moves the lots of the old symbol to the new one. -/
theorem applyRename_lots {data : Payload} {sleeve old new : String} (seq : ℤ)
    (hsl : data.text "sleeve_id" = .ok sleeve) (hold : data.text "old_symbol" = .ok old)
    (hnew : data.text "new_symbol" = .ok new) (hne : book.lots sleeve old ≠ []) (sl sy : String) :
    (applyRename book data seq).1.lots sl sy =
      if sl = sleeve ∧ sy = new then
        sortLots ((if new = old then [] else book.lots sleeve new) ++ book.lots sleeve old)
      else if sl = sleeve ∧ sy = old then [] else book.lots sl sy := by
  simp only [applyRename, hsl, hold, hnew, Attempt.guarded_ok, List.isEmpty_iff, hne, if_false,
    lots_setLots, lots_erase, lots_insert_self]
  simp

theorem Agree.step_rename (hagree : Agree m s book) (hseq : m ≤ ev.sequence)
    (ht : LedgerEventType.coerce ev.eventType = .ok .symbolChanged)
    (hadm : RenamePlanned s ev.data) :
    Agree (ev.sequence + 1) (foldEvent s ev) (foldLotsEvent book ev) := by
  obtain ⟨old, new, holders, externalId, events, planned, hplan, hmem, hdata, hheld⟩ := hadm
  have hevents : renameEvents old new externalId holders = .ok events := by
    by_cases hid : externalId = ""
    · simp [planSymbolChange, hid] at hplan
    · simpa [planSymbolChange, hid] using hplan
  obtain ⟨holder, hholder, hne, hsleeve, hpayload⟩ := renameEvents_exact hevents hmem
  have hpos := hheld holder hholder hsleeve.symm
  set sleeve := holder.1.text
  have hitem : ev.data.text "sleeve_id" = .ok sleeve ∧ ev.data.text "old_symbol" = .ok old ∧
      ev.data.text "new_symbol" = .ok new ∧ number ev.data "qty" = .ok holder.2.qty ∧
      number ev.data "cost_basis" = .ok holder.2.costBasis := by
    rw [hdata, hpayload]
    simp [Payload.text, Payload.item, List.lookup_cons, number, toNumber]
  obtain ⟨hsl, hold, hnew, hqty, hcost⟩ := hitem
  have hat : AgreeAt m (book.lots sleeve old) holder.2 := hpos ▸ hagree sleeve old
  have hps : buildPostings (D := ℚ) .symbolChanged ev.data =
      .ok [⟨some sleeve, .position, -holder.2.costBasis, some old, some (-holder.2.qty)⟩,
        ⟨some sleeve, .position, holder.2.costBasis, some new, some holder.2.qty⟩] := by
    simp [buildPostings, hsl, hold, hnew, hqty, hcost, pure_eq_ok]
  have hevent := eventLegs_eq ht hps (by simp) (by
    simp [Posting.SignsAgree, hat.qty_nonneg, not_lt.mpr hat.cost_nonneg])
  have hnil : book.lots sleeve old ≠ [] := by
    intro hnil
    apply hne
    rw [← hat.qty, hnil, totalQty_nil]
  have hbook : ∀ sl sy, (foldLotsEvent book ev).lots sl sy =
      if sl = sleeve ∧ sy = new then
        sortLots ((if new = old then [] else book.lots sleeve new) ++ book.lots sleeve old)
      else if sl = sleeve ∧ sy = old then [] else book.lots sl sy := by
    intro sl sy
    rw [← applyRename_lots ev.sequence hsl hold hnew hnil]
    simp [foldLotsEvent, applyLotEvent, ht]
  have hmono : m ≤ (ev.sequence : ℤ) + 1 := by omega
  apply hagree.step
  intro sl sy hother
  rw [hbook, hevent]
  by_cases hnewAt : sl = sleeve ∧ sy = new
  · obtain ⟨rfl, rfl⟩ := hnewAt
    have hmerge : ∀ lots pos, AgreeAt m lots pos →
        AgreeAt (ev.sequence + 1) (sortLots (lots ++ book.lots sleeve old))
          ⟨pos.qty + holder.2.qty, pos.costBasis + holder.2.costBasis⟩ := fun lots pos h =>
      (h.mono hmono).join (hat.ok.mono hmono).each hat.qty hat.cost (sortLots_perm _)
        (sortLots_sorted _)
    by_cases hsame : sy = old
    · subst hsame
      have hself := hmerge [] ⟨0, 0⟩ (agreeAt_nil m)
      simpa [legQty, legCost, Posting.Moves, hpos] using hself
    · simpa [legQty, legCost, Posting.Moves, hsame, Ne.symm hsame] using hmerge _ _ hother
  · by_cases holdAt : sl = sleeve ∧ sy = old
    · obtain ⟨rfl, rfl⟩ := holdAt
      have hsame : ¬ sy = new := fun h => hnewAt ⟨rfl, h⟩
      simpa [legQty, legCost, Posting.Moves, hsame, Ne.symm hsame, hpos] using
        agreeAt_nil ((ev.sequence : ℤ) + 1)
    · have hmoves : ∀ symbol q c, (symbol = old ∨ symbol = new) →
          ¬ (⟨some sleeve, .position, c, some symbol, some q⟩ : Posting ℚ).Moves sl sy := by
        rintro symbol q c hsym ⟨-, hs, hy⟩
        cases hs
        cases hy
        rcases hsym with rfl | rfl
        · exact holdAt ⟨rfl, rfl⟩
        · exact hnewAt ⟨rfl, rfl⟩
      simpa [legQty, legCost, hmoves, hnewAt, holdAt] using hother.mono hmono

end Steps

end LlamaTrade
