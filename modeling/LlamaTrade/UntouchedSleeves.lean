import LlamaTrade.ExactPositions
import LlamaTrade.DecimalRounding
import LlamaTrade.EnrichedSells

/-!
# Sleeves that an event leaves alone

The legs of an event name the sleeves that its payload does, and the reservation of an event
touches the sleeve of the payload or of the pending entry. Every other sleeve is the same
after the event, also when the event raises and stays half applied.
-/

namespace LlamaTrade

open Arithmetic

/-- The keys under which the payload of an event names the sleeves of its legs. -/
def sleeveKeys : LedgerEventType → List String
  | .capitalAllocated | .capitalTransferred => ["from_sleeve_id", "to_sleeve_id"]
  | .sleeveClosed => ["sleeve_id", "to_position_sleeve_id", "to_cash_sleeve_id"]
  | .fundsDeposited | .fundsWithdrawn | .orderFilled | .dividendReceived | .interestAccrued
  | .feeCharged | .splitApplied | .symbolChanged | .externalTradeDetected => ["sleeve_id"]
  | _ => []

section Legs

variable {D : Type} [Arithmetic D] {data : Payload} {ps : List (Posting D)} {p : Posting D}
  {id : String}

theorem rehomePostings_names {frm dest : String} {entries : List Json}
    (h : rehomePostings frm dest entries = .ok ps) (hp : p ∈ ps) (hid : p.sleeveId = some id) :
    id = frm ∨ id = dest := by
  induction entries generalizing ps with
  | nil =>
    cases h
    cases hp
  | cons entry entries ih =>
    simp only [rehomePostings, rehomePosting, bind_eq_ok] at h
    obtain ⟨legs, ⟨symbol, -, qty, -, cost, -, costOut, -, qtyOut, -, hlegs⟩, others, hothers,
      hps⟩ := h
    cases hlegs
    cases hps
    rcases List.mem_append.mp hp with hp | hp
    · simp only [List.mem_cons, List.not_mem_nil, or_false] at hp
      rcases hp with rfl | rfl
      · exact .inl (Option.some.inj hid).symm
      · exact .inr (Option.some.inj hid).symm
    · exact ih hothers hp

theorem sleeveClosedPostings_names (h : sleeveClosedPostings data = .ok ps) (hp : p ∈ ps)
    (hid : p.sleeveId = some id) : ∃ key ∈ sleeveKeys .sleeveClosed, data.text key = .ok id := by
  simp only [sleeveClosedPostings, bind_eq_ok] at h
  obtain ⟨frm, hfrm, moved, hmoved, cash, -, isZero, -, h⟩ := h
  have hmovedNames : p ∈ moved → ∃ key ∈ sleeveKeys .sleeveClosed, data.text key = .ok id := by
    intro hp
    unfold closedPositionLegs at hmoved
    split_ifs at hmoved
    · simp only [bind_eq_ok] at hmoved
      obtain ⟨dest, hdest, entries, -, hmoved⟩ := hmoved
      rcases rehomePostings_names hmoved hp hid with rfl | rfl
      · exact ⟨"sleeve_id", by simp [sleeveKeys], hfrm⟩
      · exact ⟨"to_position_sleeve_id", by simp [sleeveKeys], hdest⟩
    · cases hmoved
      cases hp
  split_ifs at h
  · cases h
    exact hmovedNames hp
  · simp only [bind_eq_ok] at h
    obtain ⟨dest, hdest, out, -, h⟩ := h
    cases h
    rcases List.mem_append.mp hp with hp | hp
    · exact hmovedNames hp
    · simp only [List.mem_cons, List.not_mem_nil, or_false] at hp
      rcases hp with rfl | rfl
      · cases hid
        exact ⟨"sleeve_id", by simp [sleeveKeys], hfrm⟩
      · cases hid
        exact ⟨"to_cash_sleeve_id", by simp [sleeveKeys], hdest⟩

theorem orderFilledPostings_names (h : orderFilledPostings data = .ok ps) (hp : p ∈ ps)
    (hid : p.sleeveId = some id) : data.text "sleeve_id" = .ok id := by
  simp only [orderFilledPostings, buyPostings, sellPostings, bind_eq_ok] at h
  obtain ⟨sleeve, hsleeve, symbol, -, side, -, qty, -, price, -, fees, -, notional, -, h⟩ := h
  have hsame : p.sleeveId = some sleeve := by
    split_ifs at h
    · simp only [bind_eq_ok] at h
      obtain ⟨sum, -, out, -, h⟩ := h
      cases h
      simp only [List.mem_cons, List.not_mem_nil, or_false] at hp
      rcases hp with rfl | rfl | rfl <;> rfl
    · simp only [bind_eq_ok] at h
      obtain ⟨cost, -, a, -, b, -, c, -, d, -, e, -, f, -, h⟩ := h
      cases h
      simp only [List.mem_cons, List.not_mem_nil, or_false] at hp
      rcases hp with rfl | rfl | rfl <;> rfl
  rw [hsleeve, ← Option.some.inj (hid.symm.trans hsame)]

/-- Every leg's sleeve is named by the payload. -/
theorem buildPostings_names {t : LedgerEventType} (h : buildPostings t data = .ok ps) (hp : p ∈ ps)
    (hid : p.sleeveId = some id) : ∃ key ∈ sleeveKeys t, data.text key = .ok id := by
  cases t with
  | orderFilled => exact ⟨"sleeve_id", by simp [sleeveKeys], orderFilledPostings_names h hp hid⟩
  | sleeveClosed => exact sleeveClosedPostings_names h hp hid
  | capitalAllocated | capitalTransferred =>
    simp only [buildPostings, bind_eq_ok] at h
    obtain ⟨amount, -, frm, hfrm, dest, hdest, out, -, h⟩ := h
    cases h
    simp only [List.mem_cons, List.not_mem_nil, or_false] at hp
    rcases hp with rfl | rfl
    · cases hid
      exact ⟨"from_sleeve_id", by simp [sleeveKeys], hfrm⟩
    · cases hid
      exact ⟨"to_sleeve_id", by simp [sleeveKeys], hdest⟩
  | fundsDeposited | fundsWithdrawn | dividendReceived | interestAccrued | feeCharged =>
    simp only [buildPostings, bind_eq_ok] at h
    obtain ⟨amount, -, sleeve, hsleeve, out, -, h⟩ := h
    cases h
    refine ⟨"sleeve_id", by simp [sleeveKeys], ?_⟩
    simp only [List.mem_cons, List.not_mem_nil, or_false] at hp
    rcases hp with rfl | rfl
    · cases hid <;> exact hsleeve
    · cases hid <;> exact hsleeve
  | splitApplied =>
    simp only [buildPostings, bind_eq_ok] at h
    obtain ⟨sleeve, hsleeve, symbol, -, delta, -, h⟩ := h
    cases h
    rw [List.mem_singleton] at hp
    subst hp
    cases hid
    exact ⟨"sleeve_id", by simp [sleeveKeys], hsleeve⟩
  | symbolChanged =>
    simp only [buildPostings, bind_eq_ok] at h
    obtain ⟨sleeve, hsleeve, old, -, new, -, qty, -, cost, -, a, -, b, -, h⟩ := h
    cases h
    refine ⟨"sleeve_id", by simp [sleeveKeys], ?_⟩
    simp only [List.mem_cons, List.not_mem_nil, or_false] at hp
    rcases hp with rfl | rfl
    · cases hid
      exact hsleeve
    · cases hid
      exact hsleeve
  | externalTradeDetected =>
    simp only [buildPostings, bind_eq_ok] at h
    obtain ⟨sleeve, hsleeve, symbol, -, qty, -, price, -, notional, -, out, -, h⟩ := h
    cases h
    refine ⟨"sleeve_id", by simp [sleeveKeys], ?_⟩
    simp only [List.mem_cons, List.not_mem_nil, or_false] at hp
    rcases hp with rfl | rfl
    · cases hid
    · cases hid
      exact hsleeve
  | _ =>
    cases h
    cases hp

end Legs

/-! ## The frame of an event -/

section Frame

variable {D : Type} [Arithmetic D] {acc : AccountProjection D} {id : String}

theorem sleeve_setSleeve_of_ne {other : String} (h : id ≠ other) (s : SleeveProjection D) :
    (acc.setSleeve other s).sleeve id = acc.sleeve id := by
  rw [sleeve_setSleeve, if_neg h]

theorem applyPosting_sleeve {p : Posting D} (h : p.sleeveId ≠ some id) :
    (applyPosting acc p).1.sleeve id = acc.sleeve id := by
  obtain ⟨sleeveId, bucket, amount, symbol, qty⟩ := p
  cases sleeveId with
  | none => rfl
  | some other =>
    have hne : id ≠ other := fun heq => h (by rw [heq])
    unfold applyPosting
    dsimp only
    cases bucket with
    | cash =>
      dsimp only
      cases add (acc.sleeve other).cash amount with
      | error e => simp [sleeve_setSleeve_of_ne hne]
      | ok cash => simp [sleeve_setSleeve_of_ne hne]
    | pnl =>
      dsimp only
      cases neg amount >>= add (acc.sleeve other).realizedPnl with
      | error e => simp [sleeve_setSleeve_of_ne hne]
      | ok pnl => simp [sleeve_setSleeve_of_ne hne]
    | external => exact sleeve_setSleeve_of_ne hne _
    | position =>
      cases symbol with
      | none => exact sleeve_setSleeve_of_ne hne _
      | some symbol =>
        dsimp only
        cases add ((acc.sleeve other).position symbol).costBasis amount with
        | error e => simp [sleeve_setSleeve_of_ne hne]
        | ok cost =>
          cases qty with
          | none => simp [sleeve_setSleeve_of_ne hne]
          | some qty =>
            dsimp only [Attempt.guarded_ok]
            cases add ((acc.sleeve other).position symbol).qty qty with
            | error e => simp [sleeve_setSleeve_of_ne hne]
            | ok sum => simp [sleeve_setSleeve_of_ne hne]

theorem applyPostings_sleeve {ps : List (Posting D)} (h : ∀ p ∈ ps, p.sleeveId ≠ some id) :
    (applyPostings acc ps).1.sleeve id = acc.sleeve id := by
  induction ps generalizing acc with
  | nil => rfl
  | cons p ps ih =>
    obtain ⟨hp, hps⟩ := List.forall_mem_cons.mp h
    rw [applyPostings]
    rcases hstep : applyPosting acc p with ⟨next, _ | e⟩
    · rw [Attempt.andThen_none, ih hps, ← @applyPosting_sleeve D _ acc id p hp, hstep]
    · rw [Attempt.andThen_some, ← @applyPosting_sleeve D _ acc id p hp, hstep]

end Frame

/-! ## Empty sleeves -/

/-- The number zero, in any of its spellings. -/
def Decimal.IsZero (x : Decimal) : Prop := x.isFinite = true ∧ x.toRat = 0

theorem Decimal.isZero_zero : (zero : Decimal).IsZero := ⟨rfl, Decimal.toRat_eq_zero.mpr rfl⟩

theorem Decimal.isZero_of_eq {x : Decimal} (h : eq x zero = .ok true) : x.IsZero := by
  have hx : x.isFinite := Decimal.isFinite_of_eq_zero h
  have hval := (Decimal.eq_finite hx Decimal.isZero_zero.1).symm.trans h
  rw [Decimal.isZero_zero.2] at hval
  exact ⟨hx, of_decide_eq_true (Except.ok.inj hval)⟩

/-- No cash, nothing reserved and no position. -/
structure SleeveProjection.IsEmpty (s : SleeveProjection Decimal) : Prop where
  cash : s.cash.IsZero
  reserved : s.reserved.IsZero
  positions : ∀ (symbol : String) (pos : PositionState Decimal), s.positions[symbol]? = some pos →
    pos.qty.IsZero

/-- The reservation of an event leaves the sleeve empty: a submission names another sleeve,
and the pending entry of a terminal event is of another sleeve or has no amount. -/
def ReservationSpares (s : FoldState Decimal) (t : LedgerEventType) (data : Payload)
    (id : String) : Prop :=
  ∀ coid, present data "client_order_id" = some coid →
    (t = .orderSubmitted → ∀ x, present data "sleeve_id" = some x → x.pyStr ≠ id) ∧
    (releasesReservation t →
      ∀ amount, s.res.pending[coid.pyStr]? = some (id, amount) → amount.IsZero)

theorem reservationSpares_of_none {s : FoldState Decimal} {t : LedgerEventType} {data : Payload}
    {id : String} (h : present data "client_order_id" = none) : ReservationSpares s t data id := by
  intro coid hcoid
  rw [h] at hcoid
  cases hcoid

theorem sub_isZero {x y z : Decimal} (hx : x.IsZero) (hy : y.IsZero) (h : sub x y = .ok z) :
    z.IsZero := by
  have hneg : y.copyNegate.isFinite := y.copyNegate_isFinite.trans hy.1
  have hfits : defaultContext.Fits (x.toRat + y.copyNegate.toRat) := by
    rw [hx.2, Decimal.toRat_copyNegate, hy.2, neg_zero, add_zero]
    exact Context.fits_zero defaultContext_range
  obtain ⟨z', hadd, hz, hval⟩ := Decimal.add_of_fits hx.1 hneg hfits
  cases (show sub x y = .ok z' from (Decimal.sub_finite hx.1 hy.1).trans hadd).symm.trans h
  rw [hx.2, Decimal.toRat_copyNegate, hy.2, neg_zero, add_zero] at hval
  exact ⟨hz, hval⟩

theorem applyReservation_isEmpty {s : FoldState Decimal} {t : LedgerEventType} {data : Payload}
    {id : String} (hspares : ReservationSpares s t data id) (h : (s.acc.sleeve id).IsEmpty) :
    ((applyReservation s t data).1.acc.sleeve id).IsEmpty := by
  unfold applyReservation
  split
  · exact h
  · rename_i coid hcoid
    obtain ⟨hnamed, hpending⟩ := hspares coid hcoid
    split_ifs with hsubmitted hreleases
    · unfold reserve
      split_ifs
      · exact h
      · split
        · exact h
        · rename_i sleeve hsleeve
          have hne : id ≠ sleeve.pyStr := (hnamed hsubmitted.1 sleeve hsleeve).symm
          cases parse (D := Decimal) (data.get "reserved").pyStr with
          | error e => exact h
          | ok amount =>
            simp only [Attempt.guarded_ok]
            cases add (s.acc.sleeve sleeve.pyStr).reserved amount with
            | error e => simpa [sleeve_setSleeve_of_ne hne] using h
            | ok reserved => simpa [sleeve_setSleeve_of_ne hne] using h
    · simp only [release]
      split
      · exact h
      · rename_i other amount hentry
        by_cases hid : id = other
        · subst hid
          cases hsub : sub (s.acc.sleeve id).reserved amount with
          | error e => simpa [sleeve_setSleeve] using h
          | ok reserved =>
            have hreserved := sub_isZero h.reserved (hpending hreleases amount hentry) hsub
            simpa [sleeve_setSleeve] using
              (⟨h.cash, hreserved, h.positions⟩ :
                SleeveProjection.IsEmpty { s.acc.sleeve id with reserved })
        · cases sub (s.acc.sleeve other).reserved amount with
          | error e => simpa [sleeve_setSleeve_of_ne hid] using h
          | ok reserved => simpa [sleeve_setSleeve_of_ne hid] using h
    · exact h

/-- An event that names other sleeves, and whose reservation does, leaves an empty sleeve
empty. -/
theorem foldEvent_isEmpty {s : FoldState Decimal} {t : LedgerEventType} {data : Payload}
    {id : String} {seq : ℕ} (hkeys : ∀ key ∈ sleeveKeys t, data.text key ≠ .ok id)
    (hspares : ReservationSpares s t data id) (h : (s.acc.sleeve id).IsEmpty) :
    ((foldEvent s ⟨seq, t.value, data⟩).acc.sleeve id).IsEmpty := by
  rw [foldEvent_acc_sleeve]
  unfold applyEvent
  rw [LedgerEventType.coerce_value, Attempt.guarded_ok]
  cases hp : validatedPostings (D := Decimal) t data with
  | error e => exact h
  | ok postings =>
    have hlegs : ∀ p ∈ postings, p.sleeveId ≠ some id := by
      intro p hmem hid
      obtain ⟨key, hkey, htext⟩ := buildPostings_names (build_of_validated hp) hmem hid
      exact hkeys key hkey htext
    have hreserved := @applyReservation_isEmpty s t data id hspares h
    rw [Attempt.guarded_ok]
    rcases hres : applyReservation s t data with ⟨s₁, _ | e⟩
    · rw [hres] at hreserved
      rw [Attempt.andThen_none]
      dsimp only
      rw [applyPostings_sleeve hlegs]
      exact hreserved
    · rw [hres] at hreserved
      exact hreserved

end LlamaTrade
