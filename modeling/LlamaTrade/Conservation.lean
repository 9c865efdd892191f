import LlamaTrade.DictSums
import LlamaTrade.DecimalRounding
import LlamaTrade.ExactPositions

/-!
# Conservation of value

The value of an account is the sum over its sleeves of cash and position cost less realized
profit. Every builder gives legs that either stand at the account boundary or move a
balance, so an applied event whose legs add up to zero changes the value by what crosses
the boundary. The balances are rounded sums, and a leg that raises leaves the legs before it
applied, so this is exact only when no addition of the event rounds or raises.
-/

namespace LlamaTrade

open Arithmetic

/-! ## Every builder's legs -/

/-- A leg stands at the account boundary or names the sleeve it moves, and a position leg
names its symbol. -/
def Posting.WellFormed {D : Type} (p : Posting D) : Prop :=
  (p.sleeveId = none ↔ p.bucket = .external) ∧ (p.bucket = .position → p.symbol ≠ none)

section Builders

variable {D : Type} [Arithmetic D]

theorem rehomePostings_wellFormed {frm dest : String} {entries : List Json}
    {ps : List (Posting D)} (h : rehomePostings frm dest entries = .ok ps) :
    ∀ p ∈ ps, p.WellFormed := by
  induction entries generalizing ps with
  | nil =>
    cases h
    simp
  | cons entry entries ih =>
    simp only [rehomePostings, rehomePosting, bind_eq_ok] at h
    obtain ⟨legs, ⟨symbol, -, qty, -, cost, -, costOut, -, qtyOut, -, hlegs⟩, others, hothers, hps⟩ :=
      h
    cases hlegs
    cases hps
    intro p hp
    rcases List.mem_append.mp hp with hp | hp
    · simp only [List.mem_cons, List.not_mem_nil, or_false] at hp
      rcases hp with rfl | rfl <;> simp [Posting.WellFormed]
    · exact ih hothers p hp

theorem sleeveClosedPostings_wellFormed {data : Payload} {ps : List (Posting D)}
    (h : sleeveClosedPostings data = .ok ps) : ∀ p ∈ ps, p.WellFormed := by
  simp only [sleeveClosedPostings, bind_eq_ok] at h
  obtain ⟨frm, -, moved, hmoved, cash, -, isZero, -, h⟩ := h
  have hwell : ∀ p ∈ moved, p.WellFormed := by
    unfold closedPositionLegs at hmoved
    split_ifs at hmoved
    · simp only [bind_eq_ok] at hmoved
      obtain ⟨dest, -, entries, -, hmoved⟩ := hmoved
      exact rehomePostings_wellFormed hmoved
    · cases hmoved
      simp
  split_ifs at h
  · cases h
    exact hwell
  · simp only [bind_eq_ok] at h
    obtain ⟨dest, -, out, -, h⟩ := h
    cases h
    intro p hp
    rcases List.mem_append.mp hp with hp | hp
    · exact hwell p hp
    · simp only [List.mem_cons, List.not_mem_nil, or_false] at hp
      rcases hp with rfl | rfl <;> simp [Posting.WellFormed]

theorem orderFilledPostings_wellFormed {data : Payload} {ps : List (Posting D)}
    (h : orderFilledPostings data = .ok ps) : ∀ p ∈ ps, p.WellFormed := by
  simp only [orderFilledPostings, buyPostings, sellPostings, bind_eq_ok] at h
  obtain ⟨sleeve, -, symbol, -, side, -, qty, -, price, -, fees, -, notional, -, h⟩ := h
  split_ifs at h
  · simp only [bind_eq_ok] at h
    obtain ⟨sum, -, out, -, h⟩ := h
    cases h
    simp [Posting.WellFormed]
  · simp only [bind_eq_ok] at h
    obtain ⟨cost, -, a, -, b, -, c, -, d, -, e, -, f, -, h⟩ := h
    cases h
    simp [Posting.WellFormed]

theorem buildPostings_wellFormed {t : LedgerEventType} {data : Payload} {ps : List (Posting D)}
    (h : buildPostings t data = .ok ps) : ∀ p ∈ ps, p.WellFormed := by
  cases t with
  | orderFilled => exact orderFilledPostings_wellFormed h
  | sleeveClosed => exact sleeveClosedPostings_wellFormed h
  | capitalAllocated | capitalTransferred =>
    simp only [buildPostings, bind_eq_ok] at h
    obtain ⟨amount, -, frm, -, dest, -, out, -, h⟩ := h
    cases h
    simp [Posting.WellFormed]
  | fundsDeposited | fundsWithdrawn | dividendReceived | interestAccrued | feeCharged =>
    simp only [buildPostings, bind_eq_ok] at h
    obtain ⟨amount, -, sleeve, -, out, -, h⟩ := h
    cases h
    simp [Posting.WellFormed]
  | splitApplied =>
    simp only [buildPostings, bind_eq_ok] at h
    obtain ⟨sleeve, -, symbol, -, delta, -, h⟩ := h
    cases h
    simp [Posting.WellFormed]
  | symbolChanged =>
    simp only [buildPostings, bind_eq_ok] at h
    obtain ⟨sleeve, -, old, -, new, -, qty, -, cost, -, a, -, b, -, h⟩ := h
    cases h
    simp [Posting.WellFormed]
  | externalTradeDetected =>
    simp only [buildPostings, bind_eq_ok] at h
    obtain ⟨sleeve, -, symbol, -, qty, -, price, -, notional, -, out, -, h⟩ := h
    cases h
    simp [Posting.WellFormed]
  | _ =>
    cases h
    simp

end Builders

/-! ## The value of an account -/

section Value

variable {D : Type} [Arithmetic D] (val : D → ℚ)

def SleeveProjection.value (s : SleeveProjection D) : ℚ :=
  val s.cash + Dict.total (fun p : PositionState D => val p.costBasis) s.positions -
    val s.realizedPnl

def AccountProjection.value (acc : AccountProjection D) : ℚ :=
  Dict.total (fun s : SleeveProjection D => s.value val) acc.sleeves

variable {val} (hzero : val zero = 0)

include hzero

theorem value_setPosition (s : SleeveProjection D) (symbol : String) (p : PositionState D) :
    (s.setPosition symbol p).value val =
      s.value val - val (s.position symbol).costBasis + val p.costBasis := by
  have hempty : (fun p : PositionState D => val p.costBasis) .empty = 0 := hzero
  have htotal := Dict.total_insert (fun p : PositionState D => val p.costBasis) s.positions symbol p
  rw [Dict.elim_getD _ s.positions symbol hempty] at htotal
  simp only [SleeveProjection.value, SleeveProjection.setPosition, SleeveProjection.position, htotal]
  ring

theorem value_setSleeve (acc : AccountProjection D) (id : String) (s : SleeveProjection D) :
    (acc.setSleeve id s).value val = acc.value val - (acc.sleeve id).value val + s.value val := by
  have hempty : (fun s : SleeveProjection D => s.value val) .empty = 0 := by
    simp [SleeveProjection.value, SleeveProjection.empty, hzero]
  have htotal := Dict.total_insert (fun s : SleeveProjection D => s.value val) acc.sleeves id s
  rw [Dict.elim_getD _ acc.sleeves id hempty] at htotal
  exact htotal

/-- The value does not read the reserved cash. -/
theorem value_setSleeve_reserved (acc : AccountProjection D) (id : String) (reserved : D) :
    (acc.setSleeve id { acc.sleeve id with reserved }).value val = acc.value val := by
  rw [value_setSleeve hzero]
  simp [SleeveProjection.value]

theorem value_setSleeve_self (acc : AccountProjection D) (id : String) :
    (acc.setSleeve id (acc.sleeve id)).value val = acc.value val :=
  value_setSleeve_reserved hzero acc id (acc.sleeve id).reserved

theorem applyReservation_value (s : FoldState D) (t : LedgerEventType) (data : Payload) :
    (applyReservation s t data).1.acc.value val = s.acc.value val := by
  unfold applyReservation
  split
  · rfl
  · rename_i coid _
    split_ifs
    · unfold reserve
      split_ifs
      · rfl
      · split
        · rfl
        · rename_i id _
          cases parse (D := D) (data.get "reserved").pyStr with
          | error e => rfl
          | ok amount =>
            simp only [Attempt.guarded_ok]
            cases add (s.acc.sleeve id.pyStr).reserved amount with
            | error e => exact value_setSleeve_self hzero _ _
            | ok reserved => exact value_setSleeve_reserved hzero _ _ _
    · simp only [release]
      split
      · rfl
      · rename_i id amount _
        cases sub (s.acc.sleeve id).reserved amount with
        | error e => exact value_setSleeve_self hzero _ _
        | ok reserved => exact value_setSleeve_reserved hzero _ _ _
    · rfl

end Value

/-! ## Exact legs -/

section Legs

/-- The balance and the amount are finite and their sum needs no rounding. -/
def SumFits (x y : Decimal) : Prop :=
  x.isFinite ∧ y.isFinite ∧ defaultContext.Fits (x.toRat + y.toRat)

/-- The balance a leg moves takes its amount without rounding, and the shares it moves can
be added. -/
def LegExact (acc : AccountProjection Decimal) (p : Posting Decimal) : Prop :=
  match p.sleeveId, p.bucket, p.symbol with
  | some id, .cash, _ => SumFits (acc.sleeve id).cash p.amount
  | some id, .pnl, _ =>
    defaultContext.Fits p.amount.toRat ∧ SumFits (acc.sleeve id).realizedPnl p.amount.copyNegate
  | some id, .position, some symbol =>
    SumFits ((acc.sleeve id).position symbol).costBasis p.amount ∧
      ∀ qty, p.qty = some qty → ∃ sum, add ((acc.sleeve id).position symbol).qty qty = .ok sum
  | _, _, _ => True

def LegsExact : AccountProjection Decimal → List (Posting Decimal) → Prop
  | _, [] => True
  | acc, p :: ps => LegExact acc p ∧ LegsExact (applyPosting acc p).1 ps

/-- What a leg adds to the value of the account. -/
def legValue (p : Posting Decimal) : ℚ := if p.bucket = .external then 0 else p.amount.toRat

/-- What a leg moves across the account boundary. -/
def legExternal (p : Posting Decimal) : ℚ := if p.bucket = .external then p.amount.toRat else 0

theorem legValue_add_legExternal (p : Posting Decimal) :
    legValue p + legExternal p = p.amount.toRat := by
  unfold legValue legExternal
  split_ifs <;> ring

abbrev accountValue (acc : AccountProjection Decimal) : ℚ := acc.value Decimal.toRat

theorem toRat_zero : (zero : Decimal).toRat = 0 := by
  simp [zero, Decimal.zero, Decimal.toRat, PyText.signed]

theorem add_of_sumFits {x y : Decimal} (h : SumFits x y) :
    ∃ z, add x y = .ok z ∧ z.toRat = x.toRat + y.toRat := by
  obtain ⟨z, hadd, -, hval⟩ := Decimal.add_of_fits h.1 h.2.1 h.2.2
  exact ⟨z, hadd, hval⟩

/-- An exact leg is applied and adds its amount to the account, unless it stands at the
boundary. -/
theorem applyPosting_value {acc : AccountProjection Decimal} {p : Posting Decimal}
    (hwell : p.WellFormed) (h : LegExact acc p) :
    (applyPosting acc p).2 = none ∧
      accountValue (applyPosting acc p).1 = accountValue acc + legValue p := by
  obtain ⟨sleeveId, bucket, amount, symbol, qty⟩ := p
  cases sleeveId with
  | none =>
    have hexternal : bucket = .external := hwell.1.mp rfl
    simp [applyPosting, legValue, hexternal]
  | some id =>
    cases bucket with
    | external => exact absurd (hwell.1.mpr rfl) (by simp)
    | cash =>
      obtain ⟨cash, hadd, hval⟩ := add_of_sumFits h
      simp only [applyPosting, hadd, Attempt.guarded_ok, accountValue, value_setSleeve toRat_zero,
        sleeve_setSleeve, if_true, SleeveProjection.value, hval, legValue, true_and]
      simp only [reduceCtorEq, if_false]
      ring
    | pnl =>
      obtain ⟨hfits, hfinite, hnegFinite, hsum⟩ := h
      have hamount : amount.isFinite := by
        cases amount with
        | finite s c e => rfl
        | infinity s => cases hnegFinite
        | nan s g d => cases hnegFinite
      obtain ⟨loss, hneg, hloss, hlossVal⟩ := Decimal.neg_of_fits hamount hfits
      rw [Decimal.toRat_copyNegate, ← hlossVal] at hsum
      obtain ⟨pnl, hadd, -, hval⟩ := Decimal.add_of_fits hfinite hloss hsum
      have hpnl : (neg amount >>= add (acc.sleeve id).realizedPnl) = .ok pnl := by
        rw [show neg amount = .ok loss from hneg]
        exact hadd
      simp only [applyPosting, hpnl, Attempt.guarded_ok, accountValue, value_setSleeve toRat_zero,
        sleeve_setSleeve, if_true, SleeveProjection.value, hval, hlossVal, legValue, true_and]
      simp only [reduceCtorEq, if_false]
      ring
    | position =>
      cases symbol with
      | none => exact absurd rfl (hwell.2 rfl)
      | some symbol =>
        obtain ⟨hcost, hqty⟩ := h
        obtain ⟨cost, hadd, hval⟩ := add_of_sumFits hcost
        cases qty with
        | none =>
          simp only [applyPosting, hadd, Attempt.guarded_ok, accountValue,
            value_setSleeve toRat_zero, sleeve_setSleeve, if_true, value_setPosition toRat_zero,
            hval, legValue, true_and]
          simp only [reduceCtorEq, if_false]
          ring
        | some qty =>
          obtain ⟨sum, hsum⟩ := hqty qty rfl
          simp only [applyPosting, hadd, hsum, Attempt.guarded_ok, accountValue,
            value_setSleeve toRat_zero, sleeve_setSleeve, if_true, value_setPosition toRat_zero,
            hval, legValue, true_and]
          simp only [reduceCtorEq, if_false]
          ring

theorem applyPostings_value {acc : AccountProjection Decimal} {ps : List (Posting Decimal)}
    (hwell : ∀ p ∈ ps, p.WellFormed) (h : LegsExact acc ps) :
    (applyPostings acc ps).2 = none ∧
      accountValue (applyPostings acc ps).1 = accountValue acc + (ps.map legValue).sum := by
  induction ps generalizing acc with
  | nil => simp [applyPostings]
  | cons p ps ih =>
    obtain ⟨hnone, hvalue⟩ := applyPosting_value (hwell p (by simp)) h.1
    have hpair : applyPosting acc p = ((applyPosting acc p).1, none) := by rw [← hnone]
    rw [applyPostings, hpair, Attempt.andThen_none]
    obtain ⟨hrest, hsum⟩ := ih (fun q hq => hwell q (by simp [hq])) h.2
    refine ⟨hrest, ?_⟩
    rw [hsum, hvalue, List.map_cons, List.sum_cons, add_assoc]

end Legs

/-! ## Whole streams -/

section Streams

/-- The legs of an event that passes validation. -/
def validLegs (ev : LedgerEvent) : List (Posting Decimal) :=
  match LedgerEventType.coerce ev.eventType with
  | .error _ => []
  | .ok t =>
    match validatedPostings t ev.data with
    | .error _ => []
    | .ok postings => postings

/-- What an event moves across the boundary; nothing when it is skipped. -/
def eventExternal (s : FoldState Decimal) (ev : LedgerEvent) : ℚ :=
  if (applyEvent s ev).2 = none then ((validLegs ev).map legExternal).sum else 0

/-- The external amounts of the events of a stream that are applied. -/
def appliedExternal : FoldState Decimal → List LedgerEvent → ℚ
  | _, [] => 0
  | s, ev :: events => eventExternal s ev + appliedExternal (foldEvent s ev) events

/-- The legs of the event, read exactly, add up to zero, and its additions to the balances
are exact. Nothing is asked of an event that is refused before it touches a balance. -/
def EventExact (s : FoldState Decimal) (ev : LedgerEvent) : Prop :=
  ∀ t s₁, LedgerEventType.coerce ev.eventType = .ok t →
    applyReservation s t ev.data = (s₁, none) →
      ((validLegs ev).map fun p => p.amount.toRat).sum = 0 ∧ LegsExact s₁.acc (validLegs ev)

theorem foldEvent_accountValue (s : FoldState Decimal) (ev : LedgerEvent) :
    accountValue (foldEvent s ev).acc = accountValue (applyEvent s ev).1.acc := by
  unfold foldEvent
  obtain ⟨s₁, err⟩ := applyEvent s ev
  cases err <;> rfl

/-- An exact event changes the value by what it moves across the boundary. -/
theorem foldEvent_value {s : FoldState Decimal} {ev : LedgerEvent} (h : EventExact s ev) :
    accountValue (foldEvent s ev).acc = accountValue s.acc - eventExternal s ev := by
  rw [foldEvent_accountValue]
  cases ht : LedgerEventType.coerce ev.eventType with
  | error e => simp [eventExternal, applyEvent, ht]
  | ok t =>
    cases hp : validatedPostings (D := Decimal) t ev.data with
    | error e => simp [eventExternal, applyEvent, ht, hp]
    | ok postings =>
      have hlegs : validLegs ev = postings := by simp [validLegs, ht, hp]
      have hvalue := applyReservation_value toRat_zero s t ev.data
      rcases hres : applyReservation s t ev.data with ⟨s₁, _ | e⟩
      · obtain ⟨hbalanced, hexact⟩ := h t s₁ ht hres
        rw [hlegs] at hbalanced hexact
        obtain ⟨hnone, happly⟩ := applyPostings_value (buildPostings_wellFormed (build_of_validated hp)) hexact
        have hevent : applyEvent s ev =
            ({ s₁ with acc := (applyPostings s₁.acc postings).1 }, none) := by
          simp [applyEvent, ht, hp, hres, hnone]
        have hsplit : (postings.map legValue).sum + (postings.map legExternal).sum = 0 := by
          rw [← List.sum_map_add]
          simpa only [legValue_add_legExternal] using hbalanced
        rw [hres] at hvalue
        simp only [eventExternal, hevent, if_true, hlegs, happly]
        rw [show accountValue s₁.acc = accountValue s.acc from hvalue]
        linarith
      · rw [hres] at hvalue
        simpa [eventExternal, applyEvent, ht, hp, hres] using hvalue

theorem appliedExternal_append (s : FoldState Decimal) (es fs : List LedgerEvent) :
    appliedExternal s (es ++ fs) = appliedExternal s es + appliedExternal (foldInto s es) fs := by
  induction es generalizing s with
  | nil => simp [appliedExternal]
  | cons ev es ih => rw [List.cons_append, appliedExternal, ih, appliedExternal,
      foldInto_cons, add_assoc]

/-- Conservation: along a stream of exact events the value of the account is minus what the
applied events moved across its boundary. -/
theorem value_conserved {events : List LedgerEvent}
    (h : ∀ done ev, done ++ [ev] <+: events → EventExact (foldInto .empty done) ev) :
    ∀ done, done <+: events →
      accountValue (foldInto (.empty : FoldState Decimal) done).acc =
        -appliedExternal .empty done := by
  intro done hdone
  induction done using List.reverseRecOn with
  | nil => simp [appliedExternal, accountValue, AccountProjection.value, FoldState.empty,
      AccountProjection.empty]
  | append_singleton done ev ih =>
    have hbefore := ih ((List.prefix_append done [ev]).trans hdone)
    rw [foldInto_append, foldInto_cons, foldInto_nil, foldEvent_value (h done ev hdone), hbefore,
      appliedExternal_append]
    simp only [appliedExternal]
    ring

/-- A deposit of 1000 and a buy of ten shares at 50 with a fee of 1. -/
def depositAndBuy : List LedgerEvent :=
  [⟨1, "funds_deposited", [("sleeve_id", .str "u"), ("amount", .str "1000")]⟩,
    ⟨2, "order_filled", [("sleeve_id", .str "u"), ("symbol", .str "SPY"), ("side", .str "buy"),
      ("qty", .str "10"), ("price", .str "50"), ("fees", .str "1")]⟩]

theorem fits_int {n : ℤ} (h : n.natAbs < 10 ^ 28) : defaultContext.Fits n :=
  ⟨n, 0, h, by decide, by decide, by simp⟩

theorem sumFits_of_eq {x y : Decimal} {m n : ℤ} (hx : x.isFinite ∧ x.toRat = m)
    (hy : y.isFinite ∧ y.toRat = n) (h : (m + n).natAbs < 10 ^ 28) : SumFits x y := by
  refine ⟨hx.1, hy.1, ?_⟩
  rw [hx.2, hy.2, ← Int.cast_add]
  exact fits_int h

theorem value_conserved_depositAndBuy :
    (∀ done ev, done ++ [ev] <+: depositAndBuy → EventExact (foldInto .empty done) ev) ∧
      accountValue (foldInto (.empty : FoldState Decimal) depositAndBuy).acc =
        -appliedExternal .empty depositAndBuy := by
  have hdeposit : EventExact (foldInto .empty (depositAndBuy.take 0)) depositAndBuy[0] := by
    rintro t s₁ ht hres
    cases ht
    cases hres
    have hlegs : validLegs depositAndBuy[0] =
        [⟨none, .external, .finite true 1000 0, none, none⟩,
          ⟨some "u", .cash, .finite false 1000 0, none, none⟩] := by decide
    rw [hlegs]
    refine ⟨by decide +kernel, trivial, ?_, trivial⟩
    exact @sumFits_of_eq _ _ 0 1000 (by decide +kernel) (by decide +kernel) (by decide)
  have hbuy : EventExact (foldInto .empty (depositAndBuy.take 1)) depositAndBuy[1] := by
    rintro t s₁ ht hres
    cases ht
    cases hres
    have hlegs : validLegs depositAndBuy[1] =
        [⟨some "u", .cash, .finite true 501 0, none, none⟩,
          ⟨some "u", .position, .finite false 500 0, some "SPY", some (.finite false 10 0)⟩,
          ⟨some "u", .pnl, .finite false 1 0, none, none⟩] := by decide
    rw [hlegs]
    refine ⟨by decide +kernel, ?_, ⟨?_, ?_⟩, ⟨?_, ?_⟩, trivial⟩
    · exact @sumFits_of_eq _ _ 1000 (-501) (by decide +kernel) (by decide +kernel) (by decide)
    · exact @sumFits_of_eq _ _ 0 500 (by decide +kernel) (by decide +kernel) (by decide)
    · intro qty hqty
      cases hqty
      exact ⟨.finite false 10 0, by decide⟩
    · have hone : (Decimal.finite false 1 0).toRat = ((1 : ℤ) : ℚ) := by decide +kernel
      exact hone ▸ fits_int (by decide)
    · exact @sumFits_of_eq _ _ 0 (-1) (by decide +kernel) (by decide +kernel) (by decide)
  have hexact : ∀ done ev, done ++ [ev] <+: depositAndBuy →
      EventExact (foldInto .empty done) ev := by
    intro done ev hprefix
    have htake := List.prefix_iff_eq_take.mp hprefix
    rw [List.length_append, List.length_singleton] at htake
    have hlen : done.length + 1 ≤ 2 := by simpa [depositAndBuy] using hprefix.length_le
    rcases done with _ | ⟨a, _ | ⟨b, rest⟩⟩
    · obtain ⟨rfl⟩ : ev = depositAndBuy[0] := by simpa [depositAndBuy] using htake
      exact hdeposit
    · have hboth : a = depositAndBuy[0] ∧ ev = depositAndBuy[1] := by
        simpa [depositAndBuy] using htake
      obtain ⟨rfl, rfl⟩ := hboth
      exact hbuy
    · simp only [List.length_cons] at hlen
      omega
  exact ⟨hexact, value_conserved hexact _ (List.prefix_refl _)⟩

/-- The event by which a sleeve hands ten of cost and infinitely many shares to another. -/
def infiniteClose (sequence : ℕ) (frm dest : String) : LedgerEvent :=
  { sequence
    eventType := "sleeve_closed"
    data := [("sleeve_id", .str frm), ("to_position_sleeve_id", .str dest),
      ("positions", .list [.obj [("symbol", .str "SPY"), ("qty", .str "Infinity"),
        ("cost_basis", .str "10")]])] }

/-- The second close raises on the shares after it has taken the cost: it is skipped and
counted as poison, and ten of cost are gone. -/
theorem skipped_close_loses_value :
    (foldInto (.empty : FoldState Decimal)
        [infiniteClose 1 "a" "b", infiniteClose 2 "b" "a"]).acc.poisonEvents = 1 ∧
      accountValue (foldInto (.empty : FoldState Decimal)
        [infiniteClose 1 "a" "b", infiniteClose 2 "b" "a"]).acc = -10 ∧
      -appliedExternal .empty [infiniteClose 1 "a" "b", infiniteClose 2 "b" "a"] = 0 := by
  refine ⟨by decide, by decide +kernel, by decide +kernel⟩

end Streams

end LlamaTrade
