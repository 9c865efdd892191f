import LlamaTrade.ClosedHoldings
import LlamaTrade.DriftPolicy
import LlamaTrade.SeededAccounts

/-!
# Onboarded books

A new book is seeded with the cash and the positions that the broker reports (`ledger/backfill.py`),
and is later compared with the broker (`ledger/reconciliation.py`). In exact numbers the two agree
right after the seeding, unless the broker reports a debt or a holding at a negative price: neither
gets into the book.
-/

namespace LlamaTrade

/-! ## The planner and the reconciler -/

/-- `BrokerPosition`. -/
structure BrokerPosition where
  symbol : String
  qty : ℚ
  avgPrice : ℚ

/-- What the broker reports, with one position for each symbol. -/
structure BrokerBook where
  cash : ℚ
  positions : List BrokerPosition
  distinct : (positions.map (·.symbol)).Nodup

/-- The quantities that the reconciler is given. -/
def BrokerBook.quantities (book : BrokerBook) : Dict ℚ :=
  Std.ExtTreeMap.ofList (book.positions.map fun pos => (pos.symbol, pos.qty))

def exactCashSeed (unallocated : UUID) (cash : ℚ) : PlannedEvent where
  eventType := .fundsDeposited
  sleeveId := unallocated
  data := [("sleeve_id", .str unallocated.text), ("amount", .str (Arithmetic.text cash))]
  dedupKey := "backfill:cash"

def exactPositionSeed (unmanaged : UUID) (pos : BrokerPosition) : PlannedEvent where
  eventType := .externalTradeDetected
  sleeveId := unmanaged
  data := [("sleeve_id", .str unmanaged.text), ("symbol", .str pos.symbol),
    ("qty", .str (Arithmetic.text pos.qty)), ("price", .str (Arithmetic.text pos.avgPrice))]
  dedupKey := "backfill:pos:" ++ pos.symbol

/-- `plan_backfill`. -/
def planExactBackfill (book : BrokerBook) (unallocated unmanaged : UUID) : List PlannedEvent :=
  (if 0 < book.cash then [exactCashSeed unallocated book.cash] else []) ++
    (book.positions.filter fun pos => pos.qty ≠ 0).map (exactPositionSeed unmanaged)

/-- `account_positions`. -/
def AccountProjection.accountPositions (acc : AccountProjection ℚ) : Dict ℚ :=
  let totals := (acc.sleeves.toList.flatMap fun s => s.2.positions.toList).foldl
    (fun totals e => totals.insert e.1 (totals.getD e.1 0 + e.2.qty)) (∅ : Dict ℚ)
  totals.filterMap fun _ qty => if qty = 0 then none else some qty

/-- `Drift`. -/
structure QtyDrift where
  symbol : String
  ledgerQty : ℚ
  brokerQty : ℚ
  kind : DriftKind

def classifyDrift (dustTolerance ledgerQty brokerQty : ℚ) : DriftKind :=
  if |brokerQty - ledgerQty| ≤ dustTolerance then .dust
  else if ledgerQty = 0 then .missingInLedger
  else if brokerQty = 0 then .missingAtBroker
  else .qtyMismatch

/-- `reconcile`. -/
def reconcile (acc : AccountProjection ℚ) (brokerPositions : Dict ℚ) (dustTolerance : ℚ) :
    List QtyDrift :=
  let ledgerPositions := acc.accountPositions
  (ledgerPositions.insertMany brokerPositions.toList).keys.filterMap fun symbol =>
    let ledgerQty := ledgerPositions.getD symbol 0
    let brokerQty := brokerPositions.getD symbol 0
    if brokerQty - ledgerQty = 0 then none
    else some ⟨symbol, ledgerQty, brokerQty, classifyDrift dustTolerance ledgerQty brokerQty⟩

/-- `ledger_cash`. -/
def ledgerCash (acc : AccountProjection ℚ) : ℚ := (acc.sleeves.toList.map fun s => s.2.cash).sum

/-- `cash_drift`. -/
def cashDrift (acc : AccountProjection ℚ) (brokerCash : ℚ) : ℚ := brokerCash - ledgerCash acc

/-- The account shows what the broker reports. -/
def BrokerBook.BalancedBy (book : BrokerBook) (acc : AccountProjection ℚ) (dustTolerance : ℚ) :
    Prop := reconcile acc book.quantities dustTolerance = [] ∧ cashDrift acc book.cash = 0

/-- The broker reports no debt and no holding at a negative price. -/
def BrokerBook.Importable (book : BrokerBook) : Prop :=
  0 ≤ book.cash ∧ ∀ pos ∈ book.positions, pos.qty ≠ 0 → 0 ≤ pos.avgPrice

/-! ## What the reconciler compares -/

section Compared

variable {acc : AccountProjection ℚ} {broker : Dict ℚ}

/-- A loop that adds up amounts by their keys. -/
theorem getD_foldl_add {α : Type} (key : α → String) (f : α → ℚ) (entries : List α)
    (totals : Dict ℚ) (symbol : String) :
    (entries.foldl (fun totals e => totals.insert (key e) (totals.getD (key e) 0 + f e)) totals).getD
        symbol 0 =
      totals.getD symbol 0 + (entries.map fun e => if key e = symbol then f e else 0).sum := by
  induction entries generalizing totals with
  | nil => simp
  | cons e entries ih =>
    rw [List.foldl_cons, ih, List.map_cons, List.sum_cons, ← add_assoc, Std.ExtTreeMap.getD_insert]
    by_cases h : key e = symbol
    · simp [h]
    · simp [h]

/-- The entries of a dictionary with a given key add up to the value at the key. -/
theorem sum_key {α : Type} (f : α → ℚ) (dict : Dict α) (key : String) :
    (dict.toList.map fun e => if e.1 = key then f e.2 else 0).sum = (dict[key]?).elim 0 f := by
  have hrest : ((dict.toList.filter fun e => e.1 ≠ key).map fun e =>
      if e.1 = key then f e.2 else 0).sum = 0 := by
    refine List.sum_eq_zero fun x hx => ?_
    obtain ⟨e, he, rfl⟩ := List.mem_map.mp hx
    rw [if_neg (by simpa using List.of_mem_filter he)]
  cases h : dict[key]? with
  | none =>
    rw [Dict.filter_eq_of_get_none h] at hrest
    exact hrest
  | some x =>
    rw [((Dict.toList_perm_of_get h).map _).sum_eq, List.map_cons, List.sum_cons, if_pos rfl, hrest,
      add_zero, Option.elim_some]

/-- The quantity of a symbol in an account. -/
theorem getD_accountPositions (acc : AccountProjection ℚ) (symbol : String) :
    acc.accountPositions.getD symbol 0 = acc.total fun s => (s.position symbol).qty := by
  have hsum : ((acc.sleeves.toList.flatMap fun s => s.2.positions.toList).map fun e =>
      if e.1 = symbol then e.2.qty else 0).sum = acc.total fun s => (s.position symbol).qty := by
    rw [AccountProjection.total, Dict.gather, List.map_flatMap, List.flatMap, List.sum_flatten,
      List.map_map]
    refine congrArg List.sum (List.map_congr_left fun s _ => ?_)
    rw [Function.comp_apply, sum_key fun p : PositionState ℚ => p.qty]
    exact Dict.elim_getD (fun p : PositionState ℚ => p.qty) _ _ rfl
  unfold AccountProjection.accountPositions
  have htotals := getD_foldl_add Prod.fst (fun e : String × PositionState ℚ => e.2.qty)
    (acc.sleeves.toList.flatMap fun s => s.2.positions.toList) ∅ symbol
  rw [Std.ExtTreeMap.getD_empty, zero_add, hsum] at htotals
  rw [← htotals]
  generalize List.foldl _ _ _ = totals
  dsimp only
  rw [Std.ExtTreeMap.getD_filterMap', Std.ExtTreeMap.getD_eq_getD_getElem?]
  cases totals[symbol]? with
  | none => rfl
  | some qty =>
    by_cases h : qty = 0
    · simp [h]
    · simp [h]

/-- There is no drift where the quantities agree. -/
theorem reconcile_eq_nil {dustTolerance : ℚ} : reconcile acc broker dustTolerance = [] ↔
    ∀ symbol, acc.accountPositions.getD symbol 0 = broker.getD symbol 0 := by
  unfold reconcile
  dsimp only
  rw [List.filterMap_eq_nil_iff]
  constructor
  · intro h symbol
    by_cases hmem : symbol ∈ (acc.accountPositions.insertMany broker.toList).keys
    · have hnone := h symbol hmem
      split_ifs at hnone with heq
      exact (sub_eq_zero.mp heq).symm
    · rw [Std.ExtTreeMap.mem_keys, Std.ExtTreeMap.mem_insertMany_list, not_or,
        Std.ExtTreeMap.map_fst_toList_eq_keys, List.contains_iff_mem, Std.ExtTreeMap.mem_keys] at hmem
      rw [Std.ExtTreeMap.getD_eq_fallback hmem.1, Std.ExtTreeMap.getD_eq_fallback hmem.2]
  · intro h symbol _
    rw [h symbol, sub_self, if_pos rfl]

end Compared

/-! ## What the seeds leave -/

section Seeds

variable {f : SleeveProjection ℚ → ℚ}

/-- An event without an order posts its legs. -/
theorem total_foldEvent (s : FoldState ℚ) {ev : LedgerEvent}
    (horder : present ev.data "client_order_id" = none) :
    (foldEvent s ev).acc.total f = (applyPostings s.acc (eventLegs ev)).1.total f := by
  unfold foldEvent applyEvent eventLegs
  cases LedgerEventType.coerce ev.eventType with
  | error e => rfl
  | ok t =>
    cases hps : validatedPostings (D := ℚ) t ev.data with
    | error e => simp [hps]; rfl
    | ok ps =>
      have hnone := (applyPostings_exact s.acc ps "" "").1
      simp [hps, applyReservation, horder, hnone]

/-- A sum over the sleeves after the one leg of a seed. -/
theorem total_seed {f : SleeveProjection ℚ → ℚ} (hempty : f .empty = 0) (acc : AccountProjection ℚ)
    {amount : ℚ} {leg : Posting ℚ} {id : String} (hid : leg.sleeveId = some id) {d : ℚ}
    (hpost : ∀ s : SleeveProjection ℚ, f (s.post leg) = f s + d) :
    (applyPostings acc [⟨none, .external, amount, none, none⟩, leg]).1.total f = acc.total f + d := by
  have hone := @total_applyPostings f [leg] (fun _ => d) hempty
    (by simp [hid, hpost]) acc
  have hexternal : applyPosting acc ⟨none, .external, amount, none, none⟩ = (acc, none) := rfl
  rw [applyPostings, hexternal, Attempt.andThen_none, hone]
  simp

theorem eventLegs_cashSeed (unallocated : UUID) (cash : ℚ) (sequence : ℕ) :
    eventLegs ((exactCashSeed unallocated cash).booked sequence) =
      [⟨none, .external, -cash, none, none⟩, ⟨some unallocated.text, .cash, cash, none, none⟩] := by
  have hamount : number (exactCashSeed unallocated cash).data "amount" = .ok cash := by
    simp [exactCashSeed, number, Payload.item, List.lookup_cons, toNumber]
  have hsleeve : Payload.text (exactCashSeed unallocated cash).data "sleeve_id" =
      .ok unallocated.text := by
    simp [exactCashSeed, Payload.text, Payload.item, Json.pyStr]
  refine eventLegs_eq (LedgerEventType.coerce_value .fundsDeposited) ?_ (by simp)
    (by simp [Posting.SignsAgree])
  show buildPostings .fundsDeposited (exactCashSeed unallocated cash).data = _
  simp [buildPostings, hamount, hsleeve, pure_eq_ok]

section Position

variable {unmanaged : UUID} {pos : BrokerPosition}

theorem buildPostings_positionSeed : buildPostings .externalTradeDetected
    (exactPositionSeed unmanaged pos).data =
      .ok [⟨none, .external, -(pos.qty * pos.avgPrice), none, none⟩,
        ⟨some unmanaged.text, .position, pos.qty * pos.avgPrice, some pos.symbol, some pos.qty⟩] := by
  have hsleeve : Payload.text (exactPositionSeed unmanaged pos).data "sleeve_id" =
      .ok unmanaged.text := by
    simp [exactPositionSeed, Payload.text, Payload.item, Json.pyStr]
  have hsymbol : Payload.text (exactPositionSeed unmanaged pos).data "symbol" = .ok pos.symbol := by
    simp [exactPositionSeed, Payload.text, Payload.item, List.lookup_cons, Json.pyStr]
  have hqty : number (exactPositionSeed unmanaged pos).data "qty" = .ok pos.qty := by
    simp [exactPositionSeed, number, Payload.item, List.lookup_cons, toNumber]
  have hprice : number (exactPositionSeed unmanaged pos).data "price" = .ok pos.avgPrice := by
    simp [exactPositionSeed, number, Payload.item, List.lookup_cons, toNumber]
  simp [buildPostings, hsleeve, hsymbol, hqty, hprice, pure_eq_ok]

theorem eventLegs_positionSeed (hprice : 0 ≤ pos.avgPrice) (sequence : ℕ) :
    eventLegs ((exactPositionSeed unmanaged pos).booked sequence) =
      [⟨none, .external, -(pos.qty * pos.avgPrice), none, none⟩,
        ⟨some unmanaged.text, .position, pos.qty * pos.avgPrice, some pos.symbol, some pos.qty⟩] := by
  have hsigns : Posting.SignsAgree ⟨some unmanaged.text, .position, pos.qty * pos.avgPrice,
      some pos.symbol, some pos.qty⟩ := by
    intro q hq
    obtain rfl := Option.some.inj hq
    exact ⟨fun hpos => (pos_of_mul_pos_left hpos hprice).le, fun hneg =>
      (neg_of_mul_neg_left hneg hprice).le⟩
  exact eventLegs_eq (LedgerEventType.coerce_value .externalTradeDetected)
    buildPostings_positionSeed (by simp)
    (List.forall_mem_cons.mpr ⟨by simp [Posting.SignsAgree], List.forall_mem_singleton.mpr hsigns⟩)

/-- Shares and cost of the leg point in opposite directions. -/
theorem checkSigns_refused {p : Posting ℚ} {qty : ℚ} (hbucket : p.bucket = .position)
    (hqty : p.qty = some qty) (h : (0 < p.amount ∧ qty < 0) ∨ (p.amount < 0 ∧ 0 < qty)) :
    ∃ e, checkSigns p = .error e := by
  unfold checkSigns
  rw [hbucket, hqty]
  dsimp only
  rcases h with ⟨hcost, hside⟩ | ⟨hcost, hside⟩
  · simp only [ExactNumber.lt_eq, ExactNumber.zero_eq, hcost, hside, decide_true, ok_bind, if_true]
    exact ⟨_, rfl⟩
  · have hup : ¬ 0 < p.amount := not_lt.mpr hcost.le
    simp only [ExactNumber.lt_eq, ExactNumber.zero_eq, hcost, hside, hup, decide_true, decide_false,
      ok_bind, if_true]
    exact ⟨_, rfl⟩

/-- A holding at a negative price is no trade that the fold accepts. -/
theorem eventLegs_refused (hqty : pos.qty ≠ 0) (hprice : pos.avgPrice < 0) (sequence : ℕ) :
    eventLegs ((exactPositionSeed unmanaged pos).booked sequence) = [] := by
  have hcoerce : LedgerEventType.coerce ((exactPositionSeed unmanaged pos).booked sequence).eventType =
      .ok .externalTradeDetected := LedgerEventType.coerce_value .externalTradeDetected
  have hbuild : buildPostings .externalTradeDetected
      ((exactPositionSeed unmanaged pos).booked sequence).data = _ := buildPostings_positionSeed
  have hsigns : (0 < pos.qty * pos.avgPrice ∧ pos.qty < 0) ∨
      (pos.qty * pos.avgPrice < 0 ∧ 0 < pos.qty) := by
    rcases lt_or_gt_of_ne hqty with hneg | hpos
    · exact Or.inl ⟨mul_pos_of_neg_of_neg hneg hprice, hneg⟩
    · exact Or.inr ⟨mul_neg_of_pos_of_neg hpos hprice, hpos⟩
  obtain ⟨e, hrefused⟩ := @checkSigns_refused ⟨some unmanaged.text, .position,
    pos.qty * pos.avgPrice, some pos.symbol, some pos.qty⟩ pos.qty rfl rfl hsigns
  have hexternal : checkSigns (D := ℚ) ⟨none, .external, -(pos.qty * pos.avgPrice), none, none⟩ =
      .ok () := rfl
  simp [eventLegs, hcoerce, validatedPostings, hbuild, assertBalanced, checkAllSigns, hexternal,
    hrefused]

/-- What the seed of a position adds to a sum over the sleeves. -/
theorem total_foldEvent_positionSeed (hempty : f .empty = 0) (hqty : pos.qty ≠ 0) {d : ℚ}
    (hpost : ∀ s : SleeveProjection ℚ, f (s.post ⟨some unmanaged.text, .position,
      pos.qty * pos.avgPrice, some pos.symbol, some pos.qty⟩) = f s + d)
    (s : FoldState ℚ) (sequence : ℕ) :
    (foldEvent s ((exactPositionSeed unmanaged pos).booked sequence)).acc.total f =
      s.acc.total f + if 0 ≤ pos.avgPrice then d else 0 := by
  rw [total_foldEvent s rfl]
  split_ifs with hprice
  · rw [eventLegs_positionSeed hprice, total_seed hempty s.acc rfl hpost]
  · rw [eventLegs_refused hqty (not_le.mp hprice)]
    simp [applyPostings]

end Position

/-- The seeds of positions, one after the other. -/
theorem total_positionSeeds {unmanaged : UUID} {positions : List BrokerPosition}
    {d : BrokerPosition → ℚ} (hempty : f .empty = 0) (hqty : ∀ pos ∈ positions, pos.qty ≠ 0)
    (hpost : ∀ pos ∈ positions, ∀ s : SleeveProjection ℚ, f (s.post ⟨some unmanaged.text, .position,
      pos.qty * pos.avgPrice, some pos.symbol, some pos.qty⟩) = f s + d pos)
    {events : List LedgerEvent}
    (hbooked : BookedSeeds (positions.map (exactPositionSeed unmanaged)) events) (s : FoldState ℚ) :
    (foldInto s events).acc.total f =
      s.acc.total f + (positions.map fun pos => if 0 ≤ pos.avgPrice then d pos else 0).sum := by
  induction positions generalizing s events with
  | nil =>
    cases hbooked
    simp [foldInto]
  | cons pos positions ih =>
    obtain ⟨hfirst, hqty⟩ := List.forall_mem_cons.mp hqty
    obtain ⟨hpostFirst, hpost⟩ := List.forall_mem_cons.mp hpost
    rw [List.map_cons] at hbooked
    cases hbooked with
    | cons hev hrest =>
      obtain ⟨sequence, rfl⟩ := hev
      rw [foldInto_cons, ih hqty hpost hrest, total_foldEvent_positionSeed hempty hfirst hpostFirst,
        List.map_cons, List.sum_cons, add_assoc]

/-- The seed of the cash, where there is one. -/
theorem total_cashSeed {unallocated : UUID} {cash d : ℚ} (hempty : f .empty = 0)
    (hpost : ∀ s : SleeveProjection ℚ,
      f (s.post ⟨some unallocated.text, .cash, cash, none, none⟩) = f s + d)
    (s : FoldState ℚ) (sequence : ℕ) :
    (foldEvent s ((exactCashSeed unallocated cash).booked sequence)).acc.total f =
      s.acc.total f + d := by
  rw [total_foldEvent s rfl, eventLegs_cashSeed, total_seed hempty s.acc rfl hpost]

variable {book : BrokerBook} {unallocated unmanaged : UUID} {events : List LedgerEvent}

/-- The sums over the sleeves of the seeded account. -/
theorem total_fold (hbooked : BookedSeeds (planExactBackfill book unallocated unmanaged) events)
    (hempty : f .empty = 0) {c : ℚ} {d : BrokerPosition → ℚ}
    (hcash : ∀ s : SleeveProjection ℚ,
      f (s.post ⟨some unallocated.text, .cash, book.cash, none, none⟩) = f s + c)
    (hpost : ∀ pos, ∀ s : SleeveProjection ℚ, f (s.post ⟨some unmanaged.text, .position,
      pos.qty * pos.avgPrice, some pos.symbol, some pos.qty⟩) = f s + d pos)
    (hzero : ∀ pos, pos.qty = 0 → d pos = 0) :
    (fold events).total f = (if 0 < book.cash then c else 0) +
      (book.positions.map fun pos => if 0 ≤ pos.avgPrice then d pos else 0).sum := by
  have hfilter : ∀ positions : List BrokerPosition,
      ((positions.filter fun pos => pos.qty ≠ 0).map fun pos =>
        if 0 ≤ pos.avgPrice then d pos else 0).sum =
      (positions.map fun pos => if 0 ≤ pos.avgPrice then d pos else 0).sum := by
    intro positions
    induction positions with
    | nil => rfl
    | cons pos positions ih =>
      by_cases hqty : pos.qty = 0
      · rw [List.filter_cons_of_neg (by simpa using hqty), ih, List.map_cons, List.sum_cons,
          hzero pos hqty, ite_self, zero_add]
      · rw [List.filter_cons_of_pos (by simpa using hqty), List.map_cons, List.map_cons,
          List.sum_cons, List.sum_cons, ih]
  have hpositions : ∀ {events : List LedgerEvent} (s : FoldState ℚ),
      BookedSeeds ((book.positions.filter fun pos => pos.qty ≠ 0).map (exactPositionSeed unmanaged))
        events →
      (foldInto s events).acc.total f = s.acc.total f +
        (book.positions.map fun pos => if 0 ≤ pos.avgPrice then d pos else 0).sum := by
    intro events s h
    rw [← hfilter]
    exact total_positionSeeds hempty (fun pos hpos => by simpa using List.of_mem_filter hpos)
      (fun pos _ => hpost pos) h s
  have hstart : (FoldState.empty : FoldState ℚ).acc.total f = 0 := by
    have hnil : (∅ : Dict (SleeveProjection ℚ)).toList = [] :=
      Std.ExtTreeMap.toList_eq_nil_iff.mpr rfl
    simp [AccountProjection.total, Dict.gather, FoldState.empty, AccountProjection.empty, hnil]
  unfold planExactBackfill at hbooked
  by_cases hcashed : 0 < book.cash
  · rw [if_pos hcashed, List.singleton_append] at hbooked
    cases hbooked with
    | cons hev hrest =>
      obtain ⟨sequence, rfl⟩ := hev
      rw [fold, foldInto_cons, hpositions _ hrest, total_cashSeed hempty hcash, hstart, zero_add,
        if_pos hcashed]
  · rw [if_neg hcashed, List.nil_append] at hbooked
    rw [fold, hpositions _ hbooked, hstart, if_neg hcashed]

/-- The cash of the seeded account. -/
theorem ledgerCash_fold (hbooked : BookedSeeds (planExactBackfill book unallocated unmanaged) events) :
    ledgerCash (fold events) = if 0 < book.cash then book.cash else 0 := by
  have htotal := @total_fold (fun s => s.cash) book unallocated unmanaged events hbooked rfl book.cash
    (fun _ => 0) (fun s => rfl) (fun pos s => by
      simp [SleeveProjection.post, SleeveProjection.setPosition]) (fun _ _ => rfl)
  show (fold events).total (fun s => s.cash) = _
  rw [htotal]
  simp

/-- The quantity of a symbol in the seeded account. -/
theorem qty_fold (hbooked : BookedSeeds (planExactBackfill book unallocated unmanaged) events)
    (symbol : String) : (fold events).accountPositions.getD symbol 0 =
      (book.positions.map fun pos =>
        if pos.symbol = symbol then if 0 ≤ pos.avgPrice then pos.qty else 0 else 0).sum := by
  have htotal := @total_fold (fun s => (s.position symbol).qty) book unallocated unmanaged events
    hbooked rfl 0 (fun pos => if pos.symbol = symbol then pos.qty else 0) (fun s => by
      simp [SleeveProjection.post, SleeveProjection.position]) (fun pos s => by
      simp only [SleeveProjection.post, position_setPosition, Option.getD_some]
      by_cases hsymbol : pos.symbol = symbol
      · subst hsymbol
        simp
      · simp [hsymbol, Ne.symm hsymbol]) (fun pos hqty => by simp [hqty])
  rw [getD_accountPositions, htotal, ite_self, zero_add]
  refine congrArg List.sum (List.map_congr_left fun pos _ => ?_)
  split_ifs <;> rfl

/-- In a book with distinct symbols, one position counts for a symbol. -/
theorem sum_at_symbol {positions : List BrokerPosition} (hdistinct : (positions.map (·.symbol)).Nodup)
    {pos : BrokerPosition} (hpos : pos ∈ positions) (g : BrokerPosition → ℚ) :
    (positions.map fun p => if p.symbol = pos.symbol then g p else 0).sum = g pos := by
  induction positions with
  | nil => cases hpos
  | cons p positions ih =>
    rw [List.map_cons, List.nodup_cons] at hdistinct
    rw [List.map_cons, List.sum_cons]
    rcases List.mem_cons.mp hpos with rfl | hpos
    · have hrest : (positions.map fun p => if p.symbol = pos.symbol then g p else 0).sum = 0 := by
        refine List.sum_eq_zero fun x hx => ?_
        obtain ⟨p, hp, rfl⟩ := List.mem_map.mp hx
        rw [if_neg fun h => hdistinct.1 (List.mem_map.mpr ⟨p, hp, h⟩)]
      rw [hrest, if_pos rfl, add_zero]
    · rw [ih hdistinct.2 hpos, if_neg fun h => hdistinct.1 (List.mem_map.mpr ⟨pos, hpos, h.symm⟩),
        zero_add]

theorem getD_quantities (book : BrokerBook) (symbol : String) :
    book.quantities.getD symbol 0 =
      (book.positions.map fun pos => if pos.symbol = symbol then pos.qty else 0).sum := by
  by_cases h : symbol ∈ book.positions.map (·.symbol)
  · obtain ⟨pos, hpos, rfl⟩ := List.mem_map.mp h
    rw [sum_at_symbol book.distinct hpos]
    refine Std.ExtTreeMap.getD_ofList_of_mem Std.ReflCmp.compare_self ?_
      (List.mem_map.mpr ⟨pos, hpos, rfl⟩)
    have hdistinct := book.distinct
    rw [List.Nodup, List.pairwise_map] at hdistinct
    rw [List.pairwise_map]
    refine hdistinct.imp fun hne heq => hne ?_
    simpa using heq
  · have hnone : (book.positions.map fun pos => if pos.symbol = symbol then pos.qty else 0).sum = 0 := by
      refine List.sum_eq_zero fun x hx => ?_
      obtain ⟨pos, hpos, rfl⟩ := List.mem_map.mp hx
      rw [if_neg fun heq => h (List.mem_map.mpr ⟨pos, hpos, heq⟩)]
    rw [hnone]
    refine Std.ExtTreeMap.getD_ofList_of_contains_eq_false ?_
    rw [Bool.eq_false_iff, Ne, List.contains_iff_mem, List.map_map]
    exact h

/-- A new book agrees with the broker exactly if the broker reports no debt and no holding at a
negative price. -/
theorem planBackfill_balances_iff (book : BrokerBook) (unallocated unmanaged : UUID)
    (dustTolerance : ℚ) {events : List LedgerEvent}
    (hbooked : BookedSeeds (planExactBackfill book unallocated unmanaged) events) :
    book.BalancedBy (fold events) dustTolerance ↔ book.Importable := by
  unfold BrokerBook.BalancedBy BrokerBook.Importable
  rw [reconcile_eq_nil, cashDrift, ledgerCash_fold hbooked, and_comm]
  refine and_congr ?_ ?_
  · split_ifs with hcash
    · exact ⟨fun _ => hcash.le, fun _ => sub_self _⟩
    · rw [sub_zero]
      exact ⟨fun h => h.ge, fun h => le_antisymm (not_lt.mp hcash) h⟩
  · constructor
    · intro h pos hpos hqty
      have hat := h pos.symbol
      rw [qty_fold hbooked, getD_quantities, sum_at_symbol book.distinct hpos,
        sum_at_symbol book.distinct hpos] at hat
      by_contra hprice
      rw [if_neg hprice] at hat
      exact hqty hat.symm
    · intro h symbol
      rw [qty_fold hbooked, getD_quantities]
      refine congrArg List.sum (List.map_congr_left fun pos hpos => ?_)
      by_cases hqty : pos.qty = 0
      · simp [hqty]
      · rw [if_pos (h pos hpos hqty)]

end Seeds

/-! ## A debt -/

namespace Sample

def marginBook : BrokerBook := ⟨-100, [⟨"SPY", 2, 300⟩], by simp⟩

def longAndShort : BrokerBook :=
  ⟨250, [⟨"SPY", 2, 300⟩, ⟨"QQQ", -1, 400⟩, ⟨"IWM", 0, 200⟩], by decide⟩

/-- The rows of some seeds. -/
def bookedRows (seeds : List PlannedEvent) : List LedgerEvent := seeds.map fun seed => seed.booked 1

theorem bookedRows_booked (seeds : List PlannedEvent) : BookedSeeds seeds (bookedRows seeds) := by
  induction seeds with
  | nil => exact List.Forall₂.nil
  | cons seed seeds ih => exact List.Forall₂.cons ⟨1, rfl⟩ ih

end Sample

/-- A long and a short position and a flat one, with cash. -/
theorem planBackfill_balances_longAndShort :
    Sample.longAndShort.BalancedBy (fold (Sample.bookedRows (planExactBackfill Sample.longAndShort
      sampleSleeve sampleSleeve))) 0 := by
  refine (planBackfill_balances_iff _ _ _ _ (Sample.bookedRows_booked _)).mpr ⟨?_, ?_⟩
  · show (0 : ℚ) ≤ 250
    norm_num
  · simp [Sample.longAndShort]

/-- A debt of 100 is not seeded, and the first reconciliation reports it as cash drift. -/
theorem margin_debt_drifts : ¬ ∀ (book : BrokerBook) (unallocated unmanaged : UUID)
    (events : List LedgerEvent),
    BookedSeeds (planExactBackfill book unallocated unmanaged) events →
      book.BalancedBy (fold events) (1 / 10000) := by
  intro h
  have hbalanced := h Sample.marginBook sampleSleeve sampleSleeve _ (Sample.bookedRows_booked _)
  have hcash : Sample.marginBook.cash = -100 := rfl
  have hdrift := hbalanced.2
  rw [cashDrift, ledgerCash_fold (Sample.bookedRows_booked _), hcash] at hdrift
  norm_num at hdrift

end LlamaTrade
