import LlamaTrade.AccountOnboarding
import LlamaTrade.EnrichedSells
import LlamaTrade.ExactPositions
import LlamaTrade.GrowingLogs
import LlamaTrade.WriterSpec

/-!
# Seeded accounts

The first call for a credential set seeds the ledger of its account from the snapshot of the broker,
if that call reads the broker: all seeds are written in its transaction, and the projection shows
what the broker holds. Later calls find the account and write nothing. A first call that cannot read
the broker leaves an account that no later call seeds.
-/

namespace LlamaTrade

open Arithmetic

/-! ## The fold over the seeds -/

/-- The number has at most as many digits as the ledger's arithmetic keeps. -/
def Decimal.isShort : Decimal → Bool
  | .finite _ c e =>
    c < 10 ^ defaultContext.prec ∧ defaultContext.etiny ≤ e ∧ e ≤ defaultContext.etop
  | _ => false

/-- A finite number with a given value. -/
def Decimal.Shows (x y : Decimal) : Prop := x.isFinite ∧ x.toRat = y.toRat

theorem Decimal.isShort_fits {x : Decimal} (h : x.isShort = true) :
    x.isFinite ∧ defaultContext.Fits x.toRat := by
  cases x with
  | finite s c e =>
    simp only [Decimal.isShort, decide_eq_true_eq] at h
    exact ⟨rfl, Context.fits_of_lt h.1 h.2.1 h.2.2⟩
  | infinity s => cases h
  | nan s g d => cases h

/-- A number that fits is added to zero as it is. -/
theorem add_zero_shows {x : Decimal} (h : x.isFinite ∧ defaultContext.Fits x.toRat) :
    ∃ z, add zero x = .ok z ∧ z.Shows x := by
  have hzero : (zero : Decimal).toRat = 0 := Decimal.toRat_eq_zero.mpr rfl
  obtain ⟨z, hadd, hfinite, hval⟩ := @Decimal.add_of_fits defaultContext zero x rfl h.1
    (by rw [hzero, zero_add]; exact h.2)
  exact ⟨z, hadd, hfinite, by rw [hval, hzero, zero_add]⟩

section Fold

variable {s : FoldState Decimal} {ev : LedgerEvent} {t : LedgerEventType}

/-- The event of a seed. -/
def PlannedEvent.booked (seed : PlannedEvent) (sequence : ℕ) : LedgerEvent :=
  ⟨sequence, seed.eventType.value, seed.data⟩

/-- An event with balanced legs and without an order is folded leg by leg. -/
theorem foldEvent_of_balanced {ps : List (Posting Decimal)} {acc : AccountProjection Decimal}
    (ht : LedgerEventType.coerce ev.eventType = .ok t) (hbuild : buildPostings t ev.data = .ok ps)
    (hbalanced : assertBalanced ps = .ok ()) (horder : present ev.data "client_order_id" = none)
    (happly : applyPostings s.acc ps = (acc, none)) : foldEvent s ev = { s with acc } := by
  have hvalid : validatedPostings t ev.data = .ok ps := by
    cases ps with
    | nil => simp [validatedPostings, hbuild]
    | cons p ps => simp [validatedPostings, hbuild, hbalanced]
  simp [foldEvent, applyEvent, ht, hvalid, applyReservation, horder, happly]

theorem cashSeed_postings {unallocated : UUID} {cash : Decimal} {ps : List (Posting Decimal)}
    (h : buildPostings .fundsDeposited (cashSeed unallocated cash).data = .ok ps) :
    ∃ n, ps = [⟨none, .external, n, none, none⟩, ⟨some unallocated.text, .cash, cash, none, none⟩] := by
  have hamount : number (cashSeed unallocated cash).data "amount" = .ok cash := by
    simp [cashSeed, number, Payload.item, List.lookup_cons, toNumber]
  have hsleeve : Payload.text (cashSeed unallocated cash).data "sleeve_id" = .ok unallocated.text := by
    simp [cashSeed, Payload.text, Payload.item, Json.pyStr]
  simp only [buildPostings, hamount, hsleeve, ok_bind, bind_eq_ok, pure_eq_ok, Except.ok.injEq] at h
  obtain ⟨n, -, rfl⟩ := h
  exact ⟨n, rfl⟩

theorem positionSeed_postings {unmanaged : UUID} {h : BrokerHolding} {ps : List (Posting Decimal)}
    (hbuild : buildPostings .externalTradeDetected (positionSeed unmanaged h).data = .ok ps) :
    ∃ notional n, mul h.qty h.avgPrice = .ok notional ∧
      ps = [⟨none, .external, n, none, none⟩,
        ⟨some unmanaged.text, .position, notional, some h.symbol, some h.qty⟩] := by
  have hsleeve : Payload.text (positionSeed unmanaged h).data "sleeve_id" = .ok unmanaged.text := by
    simp [positionSeed, Payload.text, Payload.item, Json.pyStr]
  have hsymbol : Payload.text (positionSeed unmanaged h).data "symbol" = .ok h.symbol := by
    simp [positionSeed, Payload.text, Payload.item, List.lookup_cons, Json.pyStr]
  have hqty : number (positionSeed unmanaged h).data "qty" = .ok h.qty := by
    simp [positionSeed, number, Payload.item, List.lookup_cons, toNumber]
  have hprice : number (positionSeed unmanaged h).data "price" = .ok h.avgPrice := by
    simp [positionSeed, number, Payload.item, List.lookup_cons, toNumber]
  simp only [buildPostings, hsleeve, hsymbol, hqty, hprice, ok_bind, bind_eq_ok, pure_eq_ok,
    Except.ok.injEq] at hbuild
  obtain ⟨notional, hmul, n, -, rfl⟩ := hbuild
  exact ⟨notional, n, hmul, rfl⟩

theorem foldEvent_cashSeed {env : Platform} {tenant account unallocated : UUID} {cash : Decimal}
    (haccepted : Accepted env (seedAppend env tenant account (cashSeed unallocated cash)))
    (hshort : cash.isShort = true) (hempty : (s.acc.sleeve unallocated.text).cash = zero)
    (sequence : ℕ) :
    ∃ shown : Decimal, shown.Shows cash ∧
      ∀ id, (foldEvent s ((cashSeed unallocated cash).booked sequence)).acc.sleeve id =
        if id = unallocated.text then { s.acc.sleeve id with cash := shown }
        else s.acc.sleeve id := by
  obtain ⟨ps, hbuild, hbalanced⟩ := haccepted.balanced
  obtain ⟨n, rfl⟩ := cashSeed_postings hbuild
  obtain ⟨shown, hadd, hshown⟩ := add_zero_shows (Decimal.isShort_fits hshort)
  refine ⟨shown, hshown, fun id => ?_⟩
  have happly : applyPostings s.acc
      [⟨none, .external, n, none, none⟩, ⟨some unallocated.text, .cash, cash, none, none⟩] =
      ((s.acc.setSleeve unallocated.text (s.acc.sleeve unallocated.text)).setSleeve unallocated.text
        { s.acc.sleeve unallocated.text with cash := shown }, none) := by
    simp [applyPostings, applyPosting, hempty, hadd]
  have hfold : foldEvent s ((cashSeed unallocated cash).booked sequence) = _ :=
    foldEvent_of_balanced (LedgerEventType.coerce_value .fundsDeposited) hbuild hbalanced rfl happly
  rw [hfold]
  simp only [sleeve_setSleeve]
  by_cases hid : id = unallocated.text
  · simp [hid]
  · simp [hid]

theorem foldEvent_positionSeed {env : Platform} {tenant account unmanaged : UUID} {h : BrokerHolding}
    (haccepted : Accepted env (seedAppend env tenant account (positionSeed unmanaged h)))
    (hqty : h.qty.isShort = true) (hprice : h.avgPrice.isShort = true)
    (hempty : (s.acc.sleeve unmanaged.text).position h.symbol = .empty) (sequence : ℕ) :
    ∃ shown : PositionState Decimal, shown.qty.Shows h.qty ∧
      ∀ id, (foldEvent s ((positionSeed unmanaged h).booked sequence)).acc.sleeve id =
        if id = unmanaged.text then (s.acc.sleeve id).setPosition h.symbol shown
        else s.acc.sleeve id := by
  obtain ⟨ps, hbuild, hbalanced⟩ := haccepted.balanced
  obtain ⟨notional, n, hmul, rfl⟩ := positionSeed_postings hbuild
  obtain ⟨cost, hcost, -⟩ := add_zero_shows
    (Decimal.mul_fits (by decide) (Decimal.isShort_fits hqty).1 (Decimal.isShort_fits hprice).1 hmul)
  obtain ⟨qty, hadd, hshown⟩ := add_zero_shows (Decimal.isShort_fits hqty)
  refine ⟨⟨qty, cost⟩, hshown, fun id => ?_⟩
  have happly : ∃ acc, applyPostings s.acc [⟨none, .external, n, none, none⟩,
        ⟨some unmanaged.text, .position, notional, some h.symbol, some h.qty⟩] = (acc, none) ∧
      ∀ id, acc.sleeve id =
        if id = unmanaged.text then (s.acc.sleeve id).setPosition h.symbol ⟨qty, cost⟩
        else s.acc.sleeve id := by
    simp only [applyPostings, applyPosting, Attempt.andThen_none, hempty, PositionState.empty, hcost,
      hadd, Attempt.guarded_ok]
    refine ⟨_, rfl, fun id => ?_⟩
    simp only [sleeve_setSleeve]
    by_cases hid : id = unmanaged.text <;> simp [hid]
  obtain ⟨acc, happly, hacc⟩ := happly
  have hfold : foldEvent s ((positionSeed unmanaged h).booked sequence) = _ :=
    foldEvent_of_balanced (LedgerEventType.coerce_value .externalTradeDetected) hbuild hbalanced rfl
      happly
  rw [hfold]
  exact hacc id

/-- The events of some seeds, in order. -/
def BookedSeeds (seeds : List PlannedEvent) (events : List LedgerEvent) : Prop :=
  List.Forall₂ (fun seed ev => ∃ sequence, ev = seed.booked sequence) seeds events

/-- What the fold over the seeds of some holdings leaves. -/
structure ImportedHoldings (unmanaged : String) (hs : List BrokerHolding)
    (acc acc' : AccountProjection Decimal) : Prop where
  others : ∀ id, id ≠ unmanaged → acc'.sleeve id = acc.sleeve id
  cash : (acc'.sleeve unmanaged).cash = (acc.sleeve unmanaged).cash
  held : ∀ h ∈ hs, ((acc'.sleeve unmanaged).position h.symbol).qty.Shows h.qty
  kept : ∀ symbol, symbol ∉ hs.map (·.symbol) →
    (acc'.sleeve unmanaged).position symbol = (acc.sleeve unmanaged).position symbol

theorem fold_positionSeeds {env : Platform} {tenant account unmanaged : UUID}
    {hs : List BrokerHolding} {events : List LedgerEvent}
    (haccepted : ∀ h ∈ hs, Accepted env (seedAppend env tenant account (positionSeed unmanaged h)))
    (hshort : ∀ h ∈ hs, h.qty.isShort = true ∧ h.avgPrice.isShort = true)
    (hnodup : (hs.map (·.symbol)).Nodup)
    (hempty : ∀ h ∈ hs, (s.acc.sleeve unmanaged.text).position h.symbol = .empty)
    (hbooked : BookedSeeds (hs.map (positionSeed unmanaged)) events) :
    ImportedHoldings unmanaged.text hs s.acc (foldInto s events).acc := by
  induction hs generalizing s events with
  | nil =>
    cases hbooked
    exact ⟨fun _ _ => rfl, rfl, nofun, fun _ _ => rfl⟩
  | cons h hs ih =>
    rw [List.map_cons, List.nodup_cons] at hnodup
    obtain ⟨hnew, hnodup⟩ := hnodup
    obtain ⟨hqty, hprice⟩ := hshort h List.mem_cons_self
    cases hbooked with
    | @cons _ ev _ rest hev hrest =>
      obtain ⟨sequence, rfl⟩ := hev
      obtain ⟨shown, hshown, hstep⟩ := foldEvent_positionSeed (haccepted h List.mem_cons_self) hqty
        hprice (hempty h List.mem_cons_self) sequence
      rw [foldInto_cons]
      generalize foldEvent s ((positionSeed unmanaged h).booked sequence) = next at hstep ⊢
      have hself := hstep unmanaged.text
      rw [if_pos rfl] at hself
      have hposition : ∀ symbol, (next.acc.sleeve unmanaged.text).position symbol =
          if symbol = h.symbol then shown
          else (s.acc.sleeve unmanaged.text).position symbol := by
        intro symbol
        rw [hself, position_setPosition]
      have himported : ImportedHoldings unmanaged.text hs next.acc (foldInto next rest).acc := by
        refine ih (fun x hx => haccepted x (.tail _ hx)) (fun x hx => hshort x (.tail _ hx)) hnodup
          (fun x hx => ?_) hrest
        have hne : x.symbol ≠ h.symbol := fun heq => hnew (heq ▸ List.mem_map_of_mem hx)
        rw [hposition, if_neg hne]
        exact hempty x (.tail _ hx)
      refine ⟨fun id hid => ?_, ?_, fun x hx => ?_, fun symbol hsymbol => ?_⟩
      · rw [himported.others id hid, hstep, if_neg hid]
      · rw [himported.cash, hself]
        rfl
      · rcases List.mem_cons.mp hx with rfl | hx
        · rw [himported.kept _ hnew, hposition, if_pos rfl]
          exact hshown
        · exact himported.held x hx
      · rw [List.map_cons, List.mem_cons, not_or] at hsymbol
        rw [himported.kept symbol hsymbol.2, hposition, if_neg hsymbol.1]

end Fold

/-! ## The snapshot in the projection -/

/-- The projection of an account shows the snapshot of the broker: its cash is in the Unallocated
sleeve, its holdings are in the Unmanaged sleeve, and there is nothing else. -/
structure BrokerSnapshot.ShownBy (s : BrokerSnapshot) (acc : AccountProjection Decimal)
    (unallocated unmanaged : UUID) : Prop where
  cash : (acc.sleeve unallocated.text).cash.Shows s.cash
  held : ∀ h ∈ s.holdings, ((acc.sleeve unmanaged.text).position h.symbol).qty.Shows h.qty
  noCash : ∀ id, id ≠ unallocated.text → (acc.sleeve id).cash = zero
  noPosition : ∀ id symbol, (id = unmanaged.text → symbol ∉ s.holdings.map (·.symbol)) →
    (acc.sleeve id).position symbol = .empty

/-- The numbers of the snapshot are in the range of the ledger's arithmetic, the cash is not
negative, and no symbol is listed twice. -/
def BrokerSnapshot.isPlain (s : BrokerSnapshot) : Bool :=
  s.cash.isShort ∧ (le zero s.cash).toOption = some true ∧
    (∀ h ∈ s.holdings, h.qty.isShort ∧ h.avgPrice.isShort) ∧ (s.holdings.map (·.symbol)).Nodup

section Snapshot

variable {s : BrokerSnapshot}

theorem positionSeeds_eq {unmanaged : UUID} {hs : List BrokerHolding}
    (hshort : ∀ h ∈ hs, h.qty.isShort = true) :
    positionSeeds unmanaged hs =
      .ok ((hs.filter fun h => h.qty.toRat ≠ 0).map (positionSeed unmanaged)) := by
  induction hs with
  | nil => rfl
  | cons h hs ih =>
    have hfinite := (Decimal.isShort_fits (hshort h List.mem_cons_self)).1
    have hzero : eq h.qty zero = .ok (decide (h.qty.toRat = 0)) := by
      have hval : (zero : Decimal).toRat = 0 := Decimal.toRat_eq_zero.mpr rfl
      rw [← hval]
      exact Decimal.eq_finite hfinite rfl
    have hrest := ih fun x hx => hshort x (.tail _ hx)
    by_cases hqty : h.qty.toRat = 0
    · simp [positionSeeds, hzero, hqty, hrest]
    · simp [positionSeeds, hzero, hqty, hrest]

/-- The seeds of a plain snapshot. -/
theorem planBackfill_eq {unallocated unmanaged : UUID} (hplain : s.isPlain = true) :
    planBackfill s unallocated unmanaged =
      .ok ((if 0 < s.cash.toRat then [cashSeed unallocated s.cash] else []) ++
        (s.holdings.filter fun h => h.qty.toRat ≠ 0).map (positionSeed unmanaged)) := by
  simp only [BrokerSnapshot.isPlain, decide_eq_true_eq] at hplain
  have hfunded : lt zero s.cash = .ok (decide (0 < s.cash.toRat)) := by
    have hval : (zero : Decimal).toRat = 0 := Decimal.toRat_eq_zero.mpr rfl
    rw [← hval]
    exact Decimal.lt_finite rfl (Decimal.isShort_fits hplain.1).1
  have hpositions := @positionSeeds_eq unmanaged s.holdings fun h hh => (hplain.2.2.1 h hh).1
  by_cases hcash : 0 < s.cash.toRat
  · simp [planBackfill, hfunded, hpositions, hcash]
  · simp [planBackfill, hfunded, hpositions, hcash]

theorem cash_nonneg_of_isPlain (hplain : s.isPlain = true) : 0 ≤ s.cash.toRat := by
  simp only [BrokerSnapshot.isPlain, decide_eq_true_eq] at hplain
  have hval : (zero : Decimal).toRat = 0 := Decimal.toRat_eq_zero.mpr rfl
  have hle : le zero s.cash = .ok (decide (0 ≤ s.cash.toRat)) := by
    rw [← hval]
    exact Decimal.le_finite rfl (Decimal.isShort_fits hplain.1).1
  have hcash := hplain.2.1
  rw [hle] at hcash
  simpa [Except.toOption] using hcash

/-- The fold over the seeds of the holdings, once the cash is in. -/
theorem shownBy_of_cash {env : Platform} {tenant account unallocated unmanaged : UUID}
    {events : List LedgerEvent} {state : FoldState Decimal} {shown : Decimal}
    (hplain : s.isPlain = true) (hne : unallocated ≠ unmanaged) (hshown : shown.Shows s.cash)
    (hstate : ∀ id, state.acc.sleeve id =
      if id = unallocated.text then { SleeveProjection.empty with cash := shown } else .empty)
    (haccepted : ∀ h ∈ s.holdings, h.qty.toRat ≠ 0 →
      Accepted env (seedAppend env tenant account (positionSeed unmanaged h)))
    (hbooked : BookedSeeds ((s.holdings.filter fun h => h.qty.toRat ≠ 0).map (positionSeed unmanaged))
      events) :
    s.ShownBy (foldInto state events).acc unallocated unmanaged := by
  simp only [BrokerSnapshot.isPlain, decide_eq_true_eq] at hplain
  have htext : unmanaged.text ≠ unallocated.text := fun heq => hne (UUID.text_injective heq).symm
  have hposition : ∀ id symbol, (state.acc.sleeve id).position symbol = .empty := by
    intro id symbol
    rw [hstate]
    split_ifs <;> rfl
  have hunmanaged : state.acc.sleeve unmanaged.text = .empty := by rw [hstate, if_neg htext]
  have himported : ImportedHoldings unmanaged.text (s.holdings.filter fun h => h.qty.toRat ≠ 0)
      state.acc (foldInto state events).acc := by
    have hseeds : ∀ h ∈ s.holdings.filter fun h => h.qty.toRat ≠ 0,
        Accepted env (seedAppend env tenant account (positionSeed unmanaged h)) := by
      intro h hh
      rw [List.mem_filter, decide_eq_true_eq] at hh
      exact haccepted h hh.1 hh.2
    refine fold_positionSeeds hseeds (fun h hh => ?_) ?_ (fun h _ => hposition _ _) hbooked
    · exact hplain.2.2.1 h (List.mem_filter.mp hh).1
    · exact hplain.2.2.2.sublist (List.filter_sublist.map _)
  have hsymbols : ∀ symbol, symbol ∉ s.holdings.map (·.symbol) →
      symbol ∉ (s.holdings.filter fun h => h.qty.toRat ≠ 0).map (·.symbol) :=
    fun symbol hsymbol hmem => hsymbol ((List.filter_sublist.map _).subset hmem)
  refine ⟨?_, fun h hh => ?_, fun id hid => ?_, fun id symbol hsymbol => ?_⟩
  · rw [himported.others _ htext.symm, hstate, if_pos rfl]
    exact hshown
  · by_cases hqty : h.qty.toRat = 0
    · -- a holding of quantity zero has no seed, and no other holding has its symbol
      have hnone : h.symbol ∉ (s.holdings.filter fun h => h.qty.toRat ≠ 0).map (·.symbol) := by
        rintro hmem
        obtain ⟨x, hx, hsame⟩ := List.mem_map.mp hmem
        rw [List.mem_filter, decide_eq_true_eq] at hx
        exact hx.2 ((List.inj_on_of_nodup_map hplain.2.2.2 hx.1 hh hsame) ▸ hqty)
      rw [himported.kept _ hnone, hposition]
      exact ⟨rfl, (Decimal.toRat_eq_zero.mpr rfl).trans hqty.symm⟩
    · exact himported.held h (List.mem_filter.mpr ⟨hh, decide_eq_true hqty⟩)
  · by_cases hself : id = unmanaged.text
    · rw [hself, himported.cash, hunmanaged]
      rfl
    · rw [himported.others id hself, hstate, if_neg hid]
      rfl
  · by_cases hself : id = unmanaged.text
    · rw [hself, himported.kept symbol (hsymbols symbol (hsymbol hself)), hposition]
    · rw [himported.others id hself, hposition]

/-- The fold over the seeds of a plain snapshot shows the snapshot. -/
theorem fold_seeds_shownBy {env : Platform} {tenant account unallocated unmanaged : UUID}
    {seeds : List PlannedEvent} {events : List LedgerEvent} (hplain : s.isPlain = true)
    (hne : unallocated ≠ unmanaged) (hplan : planBackfill s unallocated unmanaged = .ok seeds)
    (haccepted : ∀ seed ∈ seeds, Accepted env (seedAppend env tenant account seed))
    (hbooked : BookedSeeds seeds events) : s.ShownBy (fold events) unallocated unmanaged := by
  have hempty : ∀ id, (FoldState.empty : FoldState Decimal).acc.sleeve id = .empty := fun _ => rfl
  rw [planBackfill_eq hplain, Except.ok.injEq] at hplan
  subst hplan
  have hholdings : ∀ h ∈ s.holdings, h.qty.toRat ≠ 0 →
      Accepted env (seedAppend env tenant account (positionSeed unmanaged h)) := fun h hh hqty =>
    haccepted _ (List.mem_append_right _ (List.mem_map_of_mem
      (List.mem_filter.mpr ⟨hh, decide_eq_true hqty⟩)))
  by_cases hcash : 0 < s.cash.toRat
  · rw [if_pos hcash, List.singleton_append] at hbooked
    have hfunded := haccepted (cashSeed unallocated s.cash) (by simp [hcash])
    cases hbooked with
    | cons hev hrest =>
      obtain ⟨sequence, rfl⟩ := hev
      have hshort : s.cash.isShort = true := by
        simp only [BrokerSnapshot.isPlain, decide_eq_true_eq] at hplain
        exact hplain.1
      obtain ⟨shown, hshown, hstep⟩ :=
        @foldEvent_cashSeed .empty env tenant account unallocated s.cash hfunded hshort rfl sequence
      rw [fold, foldInto_cons]
      refine shownBy_of_cash hplain hne hshown (fun id => ?_) hholdings hrest
      rw [hstep, hempty]
  · rw [if_neg hcash, List.nil_append] at hbooked
    have hzero : s.cash.toRat = 0 := le_antisymm (not_lt.mp hcash) (cash_nonneg_of_isPlain hplain)
    have hshown : (zero : Decimal).Shows s.cash :=
      ⟨rfl, (Decimal.toRat_eq_zero.mpr rfl).trans hzero.symm⟩
    refine shownBy_of_cash hplain hne hshown (fun id => ?_) hholdings hbooked
    rw [hempty]
    split_ifs <;> rfl

end Snapshot

/-! ## The first call -/

/-- Every row belongs to an account. -/
structure AccountTables.Consistent (tables : AccountTables) : Prop where
  events : ∀ row ∈ tables.ledger.events, row.accountId ∈ tables.accounts.map (·.id)
  sleeves : ∀ s ∈ tables.ledger.sleeves, s.accountId ∈ tables.accounts.map (·.id)

section Sleeves

variable {db db' : Database} {tenant account : UUID}

theorem getSleeveByType_eq_none {type : SleeveType}
    (h : ∀ s ∈ db.sleeves, ¬(s.accountId = account ∧ s.type = type)) :
    db.getSleeveByType tenant account type = none := by
  rw [Database.getSleeveByType, List.find?_eq_none]
  intro s hs
  simp only [decide_eq_true_eq]
  exact fun hfound => h s hs ⟨hfound.2.1, hfound.2.2.1⟩

/-- The base sleeve of an account that has none of the type. -/
theorem ensureBaseSleeve_new {type : SleeveType} {fresh : UUID} {sleeve : Sleeve}
    (hnone : ∀ s ∈ db.sleeves, ¬(s.accountId = account ∧ s.type = type))
    (h : ensureBaseSleeve db tenant account type fresh = .ok (db', sleeve)) :
    sleeve = newSleeve tenant account type none fresh ∧ db'.events = db.events ∧
      db'.sleeves = db.sleeves ++ [sleeve] := by
  simp only [ensureBaseSleeve, getSleeveByType_eq_none hnone, bind_eq_ok, pure_eq_ok,
    Except.ok.injEq, Prod.mk.injEq] at h
  obtain ⟨_, hadd, rfl, rfl⟩ := h
  refine ⟨rfl, addSleeve_events hadd, ?_⟩
  unfold Database.addSleeve at hadd
  split_ifs at hadd
  cases hadd
  rfl

/-- The base sleeves of a new account. -/
def baseSleeves (tenant account : UUID) (ids : ℕ → UUID) : List Sleeve :=
  [newSleeve tenant account .unallocated none (ids 0), newSleeve tenant account .manual none (ids 1),
    newSleeve tenant account .unmanaged none (ids 2)]

theorem ensureBaseSleeves_new {ids : ℕ → UUID} {base : List Sleeve}
    (hnone : ∀ s ∈ db.sleeves, s.accountId ≠ account)
    (h : ensureBaseSleeves db tenant account ids = .ok (db', base)) :
    base = baseSleeves tenant account ids ∧ db'.events = db.events ∧
      db'.sleeves = db.sleeves ++ base := by
  simp only [ensureBaseSleeves, bind_eq_ok, pure_eq_ok] at h
  obtain ⟨⟨db₁, u⟩, h₁, ⟨db₂, m⟩, h₂, ⟨db₃, n⟩, h₃, h⟩ := h
  cases h
  obtain ⟨rfl, hevents₁, hsleeves₁⟩ :=
    ensureBaseSleeve_new (fun s hs hfound => hnone s hs hfound.1) h₁
  obtain ⟨rfl, hevents₂, hsleeves₂⟩ := by
    refine ensureBaseSleeve_new (fun s hs hfound => ?_) h₂
    rw [hsleeves₁, List.mem_append, List.mem_singleton] at hs
    rcases hs with hs | rfl
    · exact hnone s hs hfound.1
    · cases hfound.2
  obtain ⟨rfl, hevents₃, hsleeves₃⟩ := by
    refine ensureBaseSleeve_new (fun s hs hfound => ?_) h₃
    rw [hsleeves₂, hsleeves₁, List.mem_append, List.mem_append, List.mem_singleton,
      List.mem_singleton] at hs
    rcases hs with (hs | rfl) | rfl
    · exact hnone s hs hfound.1
    · cases hfound.2
    · cases hfound.2
  refine ⟨rfl, hevents₃.trans (hevents₂.trans hevents₁), ?_⟩
  rw [hsleeves₃, hsleeves₂, hsleeves₁, List.append_assoc, List.append_assoc]
  rfl

/-- The account has its base sleeves. -/
def HasBaseSleeves (db : Database) (tenant account : UUID) : Prop :=
  ∀ type ∈ [SleeveType.unallocated, .manual, .unmanaged],
    (db.getSleeveByType tenant account type).isSome

theorem ensureBaseSleeves_present (h : HasBaseSleeves db tenant account) (ids : ℕ → UUID) :
    ∃ base, ensureBaseSleeves db tenant account ids = .ok (db, base) := by
  obtain ⟨u, hu⟩ := Option.isSome_iff_exists.mp (h .unallocated (by simp))
  obtain ⟨m, hm⟩ := Option.isSome_iff_exists.mp (h .manual (by simp))
  obtain ⟨n, hn⟩ := Option.isSome_iff_exists.mp (h .unmanaged (by simp))
  exact ⟨[u, m, n], by simp [ensureBaseSleeves, ensureBaseSleeve, hu, hm, hn]⟩

theorem getSleeveByType_base {ids : ℕ → UUID} (hnone : ∀ s ∈ db.sleeves, s.accountId ≠ account)
    (hsleeves : db'.sleeves = db.sleeves ++ baseSleeves tenant account ids) :
    db'.getSleeveByType tenant account .unallocated =
        some (newSleeve tenant account .unallocated none (ids 0)) ∧
      db'.getSleeveByType tenant account .manual =
        some (newSleeve tenant account .manual none (ids 1)) ∧
      db'.getSleeveByType tenant account .unmanaged =
        some (newSleeve tenant account .unmanaged none (ids 2)) := by
  have hold : ∀ type, db.getSleeveByType tenant account type = none := fun type =>
    getSleeveByType_eq_none fun s hs hfound => hnone s hs hfound.1
  unfold Database.getSleeveByType at hold ⊢
  rw [hsleeves]
  simp only [List.find?_append, hold, Option.none_or]
  simp [baseSleeves, newSleeve]

end Sleeves

section Appends

variable {env : Platform} {tenant account : UUID} {fault : ℕ → Option PyError} {db db' : Database}
  {n : ℕ} {seeds : List PlannedEvent}

/-- The seeds have ids of their own that the log does not have yet. -/
def NewSeeds (env : Platform) (account : UUID) (db : Database) (seeds : List PlannedEvent) : Prop :=
  (seeds.map fun seed => backfillEventId env account seed.dedupKey).Nodup ∧
    ∀ seed ∈ seeds, db.findEvent (backfillEventId env account seed.dedupKey) = none

theorem NewSeeds.tail {seed : PlannedEvent} (h : NewSeeds env account db (seed :: seeds))
    (hnone : db.findEvent (seedAppend env tenant account seed).eventId = none) :
    NewSeeds env account (db.insertRow _ hnone) seeds := by
  obtain ⟨hnodup, hnew⟩ := h
  rw [List.map_cons, List.nodup_cons] at hnodup
  refine ⟨hnodup.2, fun other hother => ?_⟩
  have hold := hnew other (.tail _ hother)
  rw [Database.findEvent_eq_none] at hold ⊢
  have hne : backfillEventId env account other.dedupKey ≠ backfillEventId env account seed.dedupKey :=
    fun heq => hnodup.1 (heq ▸ List.mem_map_of_mem hother)
  simp only [Database.insertRow, List.map_append, List.mem_append, not_or]
  exact ⟨hold, by simpa [Database.newRow, seedAppend] using hne⟩

/-- The append of a new seed inserts its row. -/
theorem append_seed {seed : PlannedEvent} {inserted : Bool}
    (hnew : NewSeeds env account db (seed :: seeds))
    (h : db.append env (seedAppend env tenant account seed) = .ok (db', inserted)) :
    ∃ hnone, Accepted env (seedAppend env tenant account seed) ∧
      db' = db.insertRow (seedAppend env tenant account seed) hnone := by
  obtain ⟨haccepted, ⟨hnone, hrow, -⟩ | ⟨row, hrow, -⟩⟩ := append_eq_ok h
  · exact ⟨hnone, haccepted, hrow⟩
  · cases (hnew.2 seed List.mem_cons_self).symm.trans hrow

/-- Seeds that are appended are in the log, each once and in order. -/
theorem appendSeeds_booked (hnew : NewSeeds env account db seeds)
    (h : appendSeeds env tenant account fault db n seeds = (db', none)) :
    db'.sleeves = db.sleeves ∧
      (∀ seed ∈ seeds, Accepted env (seedAppend env tenant account seed)) ∧
      ∃ events, BookedSeeds seeds events ∧
        db'.readAccountEvents tenant account = db.readAccountEvents tenant account ++ events := by
  induction seeds generalizing db n with
  | nil =>
    cases h
    exact ⟨rfl, nofun, [], .nil, (List.append_nil _).symm⟩
  | cons seed seeds ih =>
    rw [appendSeeds] at h
    split at h
    · cases h
    · cases happend : db.append env (seedAppend env tenant account seed) with
      | error e =>
        rw [happend] at h
        cases h
      | ok appended =>
        obtain ⟨next, inserted⟩ := appended
        rw [happend, Attempt.guarded_ok] at h
        obtain ⟨hnone, haccepted, rfl⟩ := append_seed hnew happend
        obtain ⟨hsleeves, hrest, events, hbooked, hread⟩ := ih (hnew.tail hnone) h
        refine ⟨hsleeves, ?_, seed.booked db.nextSequence :: events, .cons ⟨_, rfl⟩ hbooked, ?_⟩
        · intro other hother
          rcases List.mem_cons.mp hother with rfl | hother
          · exact haccepted
          · exact hrest other hother
        · have hinserted : (db.insertRow _ hnone).readAccountEvents tenant account =
              db.readAccountEvents tenant account ++ [seed.booked db.nextSequence] := by
            simp [Database.readAccountEvents, Database.insertRow, Database.newRow, seedAppend,
              PlannedEvent.booked]
          rw [hread, hinserted, List.append_assoc]
          rfl

/-- What stops the appends of new seeds that the writer accepts is a fault from outside. -/
theorem appendSeeds_fault {e : PyError} (hnew : NewSeeds env account db seeds)
    (haccepted : ∀ seed ∈ seeds, Accepted env (seedAppend env tenant account seed))
    (h : appendSeeds env tenant account fault db n seeds = (db', some e)) :
    ∃ i, i < n + seeds.length ∧ fault i = some e := by
  induction seeds generalizing db n with
  | nil => cases h
  | cons seed seeds ih =>
    rw [appendSeeds] at h
    split at h
    next e' hfault =>
      cases h
      exact ⟨n, by simp, hfault⟩
    · have hown : OwnConflict db (seedAppend env tenant account seed) := fun row hrow => by
        cases (hnew.2 seed List.mem_cons_self).symm.trans hrow
      obtain ⟨⟨next, inserted⟩, happend⟩ :=
        append_isOk_iff.mpr ⟨haccepted seed List.mem_cons_self, hown⟩
      obtain ⟨hnone, -, rfl⟩ := append_seed hnew happend
      rw [happend, Attempt.guarded_ok] at h
      obtain ⟨i, hi, hfault⟩ := ih (hnew.tail hnone) (fun x hx => haccepted x (.tail _ hx)) h
      exact ⟨i, by rw [List.length_cons]; omega, hfault⟩

end Appends

/-! ## Calls -/

/-- `LedgerWriter.append` passes its checks. -/
def writerAccepts (env : Platform) (a : LedgerAppend) : Bool :=
  (buildPostings (D := Decimal) a.eventType a.data >>= assertBalanced).isOk && Database.stores env a

theorem writerAccepts_iff {env : Platform} {a : LedgerAppend} :
    writerAccepts env a = true ↔ Accepted env a := by
  rw [writerAccepts, Bool.and_eq_true]
  constructor
  · rintro ⟨hbalanced, hstores⟩
    cases hcheck : buildPostings (D := Decimal) a.eventType a.data >>= assertBalanced with
    | error e =>
      rw [hcheck] at hbalanced
      cases hbalanced
    | ok u =>
      rw [bind_eq_ok] at hcheck
      exact ⟨hcheck, hstores⟩
  · rintro ⟨⟨ps, hbuild, hbalanced⟩, hstores⟩
    rw [hbuild, ok_bind, hbalanced]
    exact ⟨rfl, hstores⟩

section Calls

variable (env : Platform) (tenant credentials : UUID)

/-- The seeds of a snapshot can all be booked: the writer accepts them, their ids are new, and no
append raises what leaves the transaction open. -/
def seedsBookable (tables : AccountTables) (call : OnboardingCall) (s : BrokerSnapshot) : Bool :=
  match planBackfill s (call.sleeveIds 0) (call.sleeveIds 2) with
  | .error _ => false
  | .ok seeds =>
    (seeds.map fun seed => backfillEventId env call.accountId seed.dedupKey).Nodup ∧
    (∀ seed ∈ seeds, writerAccepts env (seedAppend env tenant call.accountId seed) ∧
      (tables.ledger.findEvent (backfillEventId env call.accountId seed.dedupKey)).isNone) ∧
    ∀ n < seeds.length, (call.appendFault n).all PyError.aborts

/-- A call that finds no account reads the broker, or fails as a whole; the broker account is known
and not booked yet, and the snapshot can be booked. -/
def firstCallReads (tables : AccountTables) (call : OnboardingCall) : Bool :=
  match tables.getAccountByCredentials tenant credentials, call.snapshot with
  | some _, _ => true
  | none, .error e => e.aborts
  | none, .ok s =>
    s.brokerAccountId.isSome ∧ tables.relinked tenant s.brokerAccountId = none ∧ s.isPlain ∧
      seedsBookable env tenant tables call s

variable {env tenant credentials} {tables tables' : AccountTables} {call : OnboardingCall}

/-- The account of the credentials is booked as the snapshot has it: every seed is in the log once,
in order and with nothing else, and the projection shows the snapshot. -/
structure SeededWith (tenant credentials : UUID) (tables : AccountTables) (s : BrokerSnapshot)
    (account : Account) (unallocated unmanaged : Sleeve) : Prop where
  byCredentials : tables.getAccountByCredentials tenant credentials = some account
  hasUnallocated : tables.ledger.getSleeveByType tenant account.id .unallocated = some unallocated
  hasUnmanaged : tables.ledger.getSleeveByType tenant account.id .unmanaged = some unmanaged
  shown : s.ShownBy (tables.ledger.projectAccount tenant account.id) unallocated.id unmanaged.id
  once : ∃ seeds, planBackfill s unallocated.id unmanaged.id = .ok seeds ∧
    BookedSeeds seeds (tables.ledger.readAccountEvents tenant account.id)

/-- A call finds the account of the credentials complete. -/
def AccountComplete (tenant credentials : UUID) (tables : AccountTables) : Prop :=
  ∃ account, tables.getAccountByCredentials tenant credentials = some account ∧
    account.alpacaAccountId.isSome ∧ HasBaseSleeves tables.ledger tenant account.id

/-- The end of a call writes nothing when the base sleeves are there. -/
theorem finishCall_present {account : Account}
    (hbase : HasBaseSleeves tables.ledger tenant account.id) :
    finishCall tenant tables call account =
      match call.commitFault with
      | some e => .error e
      | none => .ok tables := by
  obtain ⟨base, hensure⟩ := ensureBaseSleeves_present hbase call.laterSleeveIds
  simp only [finishCall, hensure, ok_bind]
  cases call.commitFault <;> rfl

/-- A call that finds the account complete changes nothing. -/
theorem onboardingStep_complete (h : AccountComplete tenant credentials tables) :
    onboardingStep env tenant credentials tables call = some tables := by
  obtain ⟨account, haccount, hbroker, hbase⟩ := h
  simp only [onboardingStep, getOrCreateAccount, haccount, hbroker, if_true,
    finishCall_present hbase]
  cases call.commitFault <;> rfl

theorem addAccount_eq {account : Account} (h : tables.addAccount account = .ok tables') :
    tables' = { tables with accounts := tables.accounts ++ [account] } ∧
      account.id ∉ tables.accounts.map (·.id) := by
  unfold AccountTables.addAccount at h
  split_ifs at h with htaken
  cases h
  refine ⟨rfl, fun hmem => htaken ?_⟩
  obtain ⟨a, ha, hid⟩ := List.mem_map.mp hmem
  rw [List.any_eq_true]
  exact ⟨a, ha, by simp [hid]⟩

theorem addAccount_aborts {account : Account} {e : PyError}
    (h : tables.addAccount account = .error e) : e.aborts = true := by
  unfold AccountTables.addAccount at h
  split_ifs at h
  cases h
  rfl

theorem addSleeve_aborts {db : Database} {sleeve : Sleeve} {e : PyError}
    (h : db.addSleeve sleeve = .error e) : e.aborts = true := by
  unfold Database.addSleeve at h
  split_ifs at h
  cases h
  rfl

/-- The errors of a computation are those of its two steps. -/
theorem aborts_of_bind {α β : Type} {x : Except PyError α} {f : α → Except PyError β} {e : PyError}
    (hfirst : ∀ e', x = .error e' → e'.aborts = true)
    (hsecond : ∀ a e', f a = .error e' → e'.aborts = true) (h : x >>= f = .error e) :
    e.aborts = true := by
  cases x with
  | error e' =>
    cases h
    exact hfirst e rfl
  | ok a => exact hsecond a e h

theorem ensureBaseSleeve_aborts {db : Database} {account fresh : UUID} {type : SleeveType}
    {e : PyError} (h : ensureBaseSleeve db tenant account type fresh = .error e) :
    e.aborts = true := by
  unfold ensureBaseSleeve at h
  split at h
  · cases h
  · exact aborts_of_bind (fun _ => addSleeve_aborts) (fun _ _ hpure => by cases hpure) h

theorem bootstrap_aborts {broker : Option String} {fresh : UUID} {ids : ℕ → UUID} {e : PyError}
    (hnone : tables.getAccountByCredentials tenant credentials = none)
    (hrelinked : tables.relinked tenant broker = none)
    (h : tables.bootstrap tenant credentials broker fresh ids = .error e) : e.aborts = true := by
  unfold AccountTables.bootstrap at h
  refine aborts_of_bind (fun e' hresolve => ?_) (fun a e' hsleeves => ?_) h
  · simp only [AccountTables.resolveAccount, hnone, hrelinked] at hresolve
    exact aborts_of_bind (fun _ => addAccount_aborts) (fun _ _ hpure => by cases hpure) hresolve
  · refine aborts_of_bind (fun e'' hbase => ?_) (fun _ _ hpure => by cases hpure) hsleeves
    unfold ensureBaseSleeves at hbase
    refine aborts_of_bind (fun _ => ensureBaseSleeve_aborts) (fun _ _ => ?_) hbase
    refine aborts_of_bind (fun _ => ensureBaseSleeve_aborts) (fun _ _ => ?_)
    exact aborts_of_bind (fun _ => ensureBaseSleeve_aborts) (fun _ _ hpure => by cases hpure)

/-- What a new account and its sleeves leave. -/
structure NewAccount (tables tables' : AccountTables) (account : Account) (ids : ℕ → UUID) : Prop where
  accounts : tables'.accounts = tables.accounts ++ [account]
  events : tables'.ledger.events = tables.ledger.events
  sleeves : tables'.ledger.sleeves =
    tables.ledger.sleeves ++ baseSleeves account.tenantId account.id ids
  fresh : account.id ∉ tables.accounts.map (·.id)

theorem bootstrap_new {broker : Option String} {fresh : UUID} {ids : ℕ → UUID} {account : Account}
    {created : Bool} {base : List Sleeve} (hconsistent : tables.Consistent)
    (hnone : tables.getAccountByCredentials tenant credentials = none)
    (hrelinked : tables.relinked tenant broker = none)
    (h : tables.bootstrap tenant credentials broker fresh ids =
      .ok (tables', account, created, base)) :
    account = ⟨fresh, tenant, credentials, broker⟩ ∧ created = true ∧
      base = baseSleeves tenant fresh ids ∧ NewAccount tables tables' account ids := by
  simp only [AccountTables.bootstrap, AccountTables.resolveAccount, hnone, hrelinked, bind_eq_ok,
    pure_eq_ok] at h
  obtain ⟨⟨added, account', created'⟩, ⟨added', hadd, hresolved⟩, ⟨ledger, base'⟩, hbase, h⟩ := h
  cases hresolved
  cases h
  obtain ⟨rfl, hfresh⟩ := addAccount_eq hadd
  have hsleeves : ∀ s ∈ tables.ledger.sleeves, s.accountId ≠ fresh :=
    fun s hs heq => hfresh (heq ▸ hconsistent.sleeves s hs)
  obtain ⟨rfl, hevents, hadded⟩ := ensureBaseSleeves_new hsleeves hbase
  exact ⟨rfl, rfl, rfl, rfl, hevents, hadded, hfresh⟩

/-- The condition on the seeds, in the tables with the new account. -/
theorem newSeeds_of_bookable {s : BrokerSnapshot} {seeds : List PlannedEvent} {db : Database}
    (hevents : db.events = tables.ledger.events)
    (hplan : planBackfill s (call.sleeveIds 0) (call.sleeveIds 2) = .ok seeds)
    (h : seedsBookable env tenant tables call s = true) :
    NewSeeds env call.accountId db seeds ∧
      (∀ seed ∈ seeds, Accepted env (seedAppend env tenant call.accountId seed)) ∧
      ∀ n < seeds.length, ∀ e, call.appendFault n = some e → e.aborts = true := by
  simp only [seedsBookable, hplan, decide_eq_true_eq] at h
  obtain ⟨hnodup, hseeds, hfault⟩ := h
  refine ⟨⟨hnodup, fun seed hseed => ?_⟩, fun seed hseed => ?_, fun n hn e he => ?_⟩
  · have hnone := (hseeds seed hseed).2
    rw [Option.isNone_iff_eq_none, Database.findEvent] at hnone
    rw [Database.findEvent, hevents]
    exact hnone
  · exact writerAccepts_iff.mp (hseeds seed hseed).1
  · simpa [he] using hfault n hn

/-- The book of a new account after all its seeds. -/
theorem seededWith_of_new {s : BrokerSnapshot} {seeds : List PlannedEvent} {ledger : Database}
    {account : Account} (hconsistent : tables.Consistent)
    (hnone : tables.getAccountByCredentials tenant credentials = none)
    (htenant : account.tenantId = tenant) (hcredentials : account.credentialsId = credentials)
    (hid : account.id = call.accountId) (hplain : s.isPlain = true)
    (hnew : NewAccount tables tables' account call.sleeveIds)
    (hplan : planBackfill s (call.sleeveIds 0) (call.sleeveIds 2) = .ok seeds)
    (hseeds : NewSeeds env call.accountId tables'.ledger seeds)
    (happend : appendSeeds env tenant call.accountId call.appendFault tables'.ledger 0 seeds =
      (ledger, none)) :
    HasBaseSleeves ledger tenant account.id ∧
      SeededWith tenant credentials { tables' with ledger } s account
        (newSleeve tenant account.id .unallocated none (call.sleeveIds 0))
        (newSleeve tenant account.id .unmanaged none (call.sleeveIds 2)) := by
  obtain ⟨hsleeves, haccepted, events, hbooked, hread⟩ := appendSeeds_booked hseeds happend
  have hothers : ∀ x ∈ tables.ledger.sleeves, x.accountId ≠ account.id :=
    fun x hx heq => hnew.fresh (heq ▸ hconsistent.sleeves x hx)
  have hadded : ledger.sleeves = tables.ledger.sleeves ++ baseSleeves tenant account.id call.sleeveIds := by
    rw [hsleeves, hnew.sleeves, htenant]
  obtain ⟨hunallocated, hmanual, hunmanaged⟩ := getSleeveByType_base hothers hadded
  have hempty : tables'.ledger.readAccountEvents tenant call.accountId = [] := by
    rw [Database.readAccountEvents, hnew.events, List.map_eq_nil_iff, List.filter_eq_nil_iff]
    intro row hrow
    simp only [decide_eq_true_eq]
    exact fun hfound => hnew.fresh (hid ▸ hfound.2 ▸ hconsistent.events row hrow)
  rw [hempty, List.nil_append] at hread
  have hids : call.sleeveIds 0 ≠ call.sleeveIds 2 := by
    have hunique := ledger.uniqueSleeves
    rw [hadded, List.map_append] at hunique
    have hbase := (List.nodup_append.mp hunique).2.1
    simp only [baseSleeves, newSleeve, List.map_cons, List.map_nil, List.nodup_cons] at hbase
    exact fun heq => hbase.1 (by simp [heq])
  refine ⟨fun type htype => ?_, ?_, hunallocated, hunmanaged, ?_, seeds, hplan, ?_⟩
  · simp only [List.mem_cons, List.not_mem_nil, or_false] at htype
    rcases htype with rfl | rfl | rfl
    · simp [hunallocated]
    · simp [hmanual]
    · simp [hunmanaged]
  · unfold AccountTables.getAccountByCredentials at hnone ⊢
    rw [hnew.accounts, List.find?_append, hnone, Option.none_or]
    simp [htenant, hcredentials]
  · rw [Database.projectAccount, hid, hread]
    exact fold_seeds_shownBy hplain hids hplan haccepted hbooked
  · rw [hid, hread]
    exact hbooked

/-- A first call that commits has booked the snapshot. -/
theorem first_call_seeds (hconsistent : tables.Consistent)
    (hnone : tables.getAccountByCredentials tenant credentials = none)
    (hok : firstCallReads env tenant credentials tables call = true)
    (h : getOrCreateAccount env tenant credentials tables call = .ok tables') :
    AccountComplete tenant credentials tables' ∧ ∃ s account unallocated unmanaged,
      call.snapshot = .ok s ∧
        SeededWith tenant credentials tables' s account unallocated unmanaged := by
  simp only [getOrCreateAccount, hnone] at h
  unfold backfillCall onboard at h
  cases hsnapshot : call.snapshot with
  | error e =>
    have haborts : e.aborts = true := by simpa [firstCallReads, hnone, hsnapshot] using hok
    simp [hsnapshot, haborts] at h
  | ok s =>
    simp only [firstCallReads, hnone, hsnapshot, decide_eq_true_eq] at hok
    obtain ⟨hbroker, hrelinked, hplain, hbookable⟩ := hok
    simp only [hsnapshot] at h
    cases hboot : tables.bootstrap tenant credentials s.brokerAccountId call.accountId call.sleeveIds with
    | error e => simp [hboot, bootstrap_aborts hnone hrelinked hboot] at h
    | ok result =>
      obtain ⟨added, account, created, base⟩ := result
      obtain ⟨rfl, rfl, rfl, hnew⟩ := bootstrap_new hconsistent hnone hrelinked hboot
      obtain ⟨seeds, hplan⟩ : ∃ seeds, planBackfill s (call.sleeveIds 0) (call.sleeveIds 2) =
          .ok seeds := ⟨_, planBackfill_eq hplain⟩
      obtain ⟨hseeds, haccepted, hfault⟩ := newSeeds_of_bookable hnew.events hplan hbookable
      simp only [hboot, seedBook, baseSleeves, newSleeve, hplan, Attempt.guarded_ok] at h
      rcases happend : appendSeeds env tenant call.accountId call.appendFault added.ledger 0 seeds with
        ⟨ledger, _ | e⟩
      · simp only [happend] at h
        obtain ⟨hbase, hseeded⟩ := seededWith_of_new hconsistent hnone rfl rfl rfl hplain hnew hplan
          hseeds happend
        rw [finishCall_present hbase] at h
        split at h <;> cases h
        exact ⟨⟨_, hseeded.byCredentials, hbroker, hbase⟩, s, _, _, _, rfl, hseeded⟩
      · obtain ⟨i, hi, hraised⟩ := appendSeeds_fault hseeds haccepted happend
        have haborts := hfault i (by omega) e hraised
        simp [happend, haborts] at h

/-- A run leaves the tables as they were, or the account complete. -/
theorem onboarding_run {calls : List OnboardingCall} (hconsistent : tables.Consistent)
    (hnone : tables.getAccountByCredentials tenant credentials = none)
    (hmeets : Transition.Meets (onboardingStep env tenant credentials)
      (fun tables call => firstCallReads env tenant credentials tables call = true) tables calls)
    (hrun : Transition.run (onboardingStep env tenant credentials) tables calls = some tables') :
    tables' = tables ∨ AccountComplete tenant credentials tables' ∧
      ∃ s account unallocated unmanaged,
        SeededWith tenant credentials tables' s account unallocated unmanaged := by
  refine Transition.run_invariant (I := fun t => t = tables ∨ AccountComplete tenant credentials t ∧
    ∃ s account unallocated unmanaged,
      SeededWith tenant credentials t s account unallocated unmanaged)
    (fun t call t' hinv hok hstep => ?_) (.inl rfl) hmeets hrun
  rcases hinv with rfl | hcomplete
  · cases hcall : getOrCreateAccount env tenant credentials t call with
    | error e =>
      simp only [onboardingStep, hcall, Option.some.injEq] at hstep
      exact .inl hstep.symm
    | ok after =>
      simp only [onboardingStep, hcall, Option.some.injEq] at hstep
      subst hstep
      obtain ⟨hcomplete, s, account, u, m, -, hseeded⟩ := first_call_seeds hconsistent hnone hok hcall
      exact .inr ⟨hcomplete, s, account, u, m, hseeded⟩
  · rw [onboardingStep_complete hcomplete.1, Option.some.injEq] at hstep
    exact .inr (hstep ▸ hcomplete)

/-- If every call that finds no account reads the broker (or fails as a whole), the broker account is
not booked yet, and its snapshot can be booked, then the calls write nothing or all the seeds once;
and once a call that has read a snapshot has returned, the projection shows that snapshot. -/
theorem accounts_seeded_once {calls : List OnboardingCall} (hconsistent : tables.Consistent)
    (hnone : tables.getAccountByCredentials tenant credentials = none)
    (hmeets : Transition.Meets (onboardingStep env tenant credentials)
      (fun tables call => firstCallReads env tenant credentials tables call = true) tables calls)
    (hrun : Transition.run (onboardingStep env tenant credentials) tables calls = some tables') :
    (tables' = tables ∨ ∃ s account unallocated unmanaged,
        SeededWith tenant credentials tables' s account unallocated unmanaged) ∧
      ∀ before call after tables₁ tables₂ s, calls = before ++ [call] ++ after →
        Transition.run (onboardingStep env tenant credentials) tables before = some tables₁ →
        readSnapshot tenant credentials tables₁ call = some s →
        getOrCreateAccount env tenant credentials tables₁ call = .ok tables₂ →
        ∃ account unallocated unmanaged,
          SeededWith tenant credentials tables' s account unallocated unmanaged := by
  refine ⟨(onboarding_run hconsistent hnone hmeets hrun).imp_right And.right, ?_⟩
  rintro before call after tables₁ tables₂ s rfl hbefore hread hreturns
  rw [List.append_assoc] at hmeets hrun
  have hrest := Transition.meets_of_append hmeets hbefore
  rw [Transition.run_append, hbefore, Option.bind_some, List.singleton_append, Transition.run,
    onboardingStep, hreturns, Option.bind_some] at hrun
  rcases onboarding_run hconsistent hnone (Transition.meets_left hmeets) hbefore with rfl | hcomplete
  · obtain ⟨hcomplete, s', account, u, m, hsnapshot, hseeded⟩ :=
      first_call_seeds hconsistent hnone hrest.1 hreturns
    have hsame : s' = s := by simpa [readSnapshot, hnone, hsnapshot, Except.toOption] using hread
    have hkept : tables' = tables₂ := by
      refine Transition.run_invariant (I := fun t => t = tables₂) (fun t c t' heq _ hstep => ?_) rfl
        (hrest.2 tables₂ (by rw [onboardingStep, hreturns])) hrun
      rw [heq, onboardingStep_complete hcomplete, Option.some.injEq] at hstep
      exact hstep.symm
    exact ⟨account, u, m, hkept ▸ hsame ▸ hseeded⟩
  · obtain ⟨⟨account, haccount, hbroker, -⟩, -⟩ := hcomplete
    simp [readSnapshot, haccount, hbroker] at hread

end Calls

namespace Sample

/-- The digests of the ids of the two seeds. -/
def onboardingPlatform : Platform where
  digest key :=
    if key = "00000000-0000-0000-0000-000000000002:backfill:cash" then
      0x27beb86f47e670cc2029d6d5f417db07
    else if key = "00000000-0000-0000-0000-000000000002:backfill:pos:AAPL" then
      0x9b9e0b76117fe4555c79e061ab29adbe
    else 0
  storesTimestamp _ := true

def onboardingTenant : UUID := 1
def onboardingCredentials : UUID := 9

def noAccounts : AccountTables := ⟨[], ⟨[], [], by simp, by simp⟩⟩

theorem noAccounts_consistent : noAccounts.Consistent := ⟨nofun, nofun⟩

/-- The broker holds 100.50 in cash and three shares. -/
def brokerState : BrokerSnapshot where
  cash := .finite false 10050 (-2)
  holdings := [⟨"AAPL", .finite false 3 0, .finite false 18525 (-2)⟩]
  brokerAccountId := some "alpaca-1"

def onboardingCall (snapshot : Except PyError BrokerSnapshot) (first : Fin 900) : OnboardingCall where
  snapshot
  appendFault _ := none
  commitFault := none
  accountId := ⟨first, by omega⟩
  sleeveIds n := ⟨first + 1 + n % 10, by omega⟩
  laterAccountId := ⟨first + 20, by omega⟩
  laterSleeveIds n := ⟨first + 21 + n % 10, by omega⟩

def brokerUp : OnboardingCall := onboardingCall (.ok brokerState) 2

/-- The same call while the broker does not answer. -/
def brokerDown : OnboardingCall := onboardingCall (.error (.service .runtime "broker unavailable")) 100

end Sample

theorem accounts_seeded_once_from_broker :
    ∃ tables', Transition.run (onboardingStep Sample.onboardingPlatform Sample.onboardingTenant
        Sample.onboardingCredentials) Sample.noAccounts [Sample.brokerUp, Sample.brokerDown] =
        some tables' ∧
      ∃ account unallocated unmanaged, SeededWith Sample.onboardingTenant
        Sample.onboardingCredentials tables' Sample.brokerState account unallocated unmanaged := by
  obtain ⟨hsome, hreturns⟩ :
      (Transition.run (onboardingStep Sample.onboardingPlatform Sample.onboardingTenant
        Sample.onboardingCredentials) Sample.noAccounts [Sample.brokerUp, Sample.brokerDown]).isSome =
          true ∧
      (getOrCreateAccount Sample.onboardingPlatform Sample.onboardingTenant
        Sample.onboardingCredentials Sample.noAccounts Sample.brokerUp).toOption.isSome = true := by
    decide
  obtain ⟨tables', hrun⟩ := Option.isSome_iff_exists.mp hsome
  cases hcall : getOrCreateAccount Sample.onboardingPlatform Sample.onboardingTenant
      Sample.onboardingCredentials Sample.noAccounts Sample.brokerUp with
  | error e =>
    rw [hcall] at hreturns
    cases hreturns
  | ok tables₂ =>
    exact ⟨tables', hrun, (accounts_seeded_once Sample.noAccounts_consistent rfl (by decide)
      hrun).2 [] Sample.brokerUp [Sample.brokerDown] Sample.noAccounts tables₂ Sample.brokerState rfl
        rfl rfl hcall⟩

/-- The first call cannot read the broker and leaves an account without seeds; the second call reads
it and returns, and nothing is seeded. -/
theorem account_never_seeded :
    ∃ tables₁ tables₂, Transition.run (onboardingStep Sample.onboardingPlatform
        Sample.onboardingTenant Sample.onboardingCredentials) Sample.noAccounts [Sample.brokerDown] =
        some tables₁ ∧
      readSnapshot Sample.onboardingTenant Sample.onboardingCredentials tables₁ Sample.brokerUp =
        some Sample.brokerState ∧
      getOrCreateAccount Sample.onboardingPlatform Sample.onboardingTenant
        Sample.onboardingCredentials tables₁ Sample.brokerUp = .ok tables₂ ∧
      ¬∃ account unallocated unmanaged, SeededWith Sample.onboardingTenant
        Sample.onboardingCredentials tables₂ Sample.brokerState account unallocated unmanaged := by
  have hcalls : (Transition.run (onboardingStep Sample.onboardingPlatform Sample.onboardingTenant
      Sample.onboardingCredentials) Sample.noAccounts [Sample.brokerDown]).map (fun tables₁ =>
        ((readSnapshot Sample.onboardingTenant Sample.onboardingCredentials tables₁
          Sample.brokerUp).isSome,
        (getOrCreateAccount Sample.onboardingPlatform Sample.onboardingTenant
          Sample.onboardingCredentials tables₁ Sample.brokerUp).toOption.map fun tables₂ =>
            tables₂.ledger.events.length)) = some (true, some 0) := by
    decide
  obtain ⟨tables₁, hfirst, hsecond⟩ := Option.map_eq_some_iff.mp hcalls
  rw [Prod.mk.injEq, Option.map_eq_some_iff] at hsecond
  obtain ⟨hread, tables₂, hreturns, hempty⟩ := hsecond
  refine ⟨tables₁, tables₂, hfirst, ?_, ?_, ?_⟩
  · unfold readSnapshot at hread ⊢
    split at hread
    · rfl
    · split_ifs at hread ⊢
      · cases hread
      · rfl
  · cases hcall : getOrCreateAccount Sample.onboardingPlatform Sample.onboardingTenant
      Sample.onboardingCredentials tables₁ Sample.brokerUp with
    | error e =>
      rw [hcall] at hreturns
      cases hreturns
    | ok after =>
      rw [hcall] at hreturns
      exact congrArg _ (Option.some.inj hreturns)
  · rintro ⟨account, unallocated, unmanaged, hseeded⟩
    obtain ⟨seeds, hplan, hbooked⟩ := hseeded.once
    rw [Database.readAccountEvents, List.length_eq_zero_iff.mp hempty] at hbooked
    cases hbooked
    have hplanned : (planBackfill Sample.brokerState unallocated.id unmanaged.id).map List.length =
        .ok 2 := rfl
    rw [hplan] at hplanned
    cases hplanned

end LlamaTrade
