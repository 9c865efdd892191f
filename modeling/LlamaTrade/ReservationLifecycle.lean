import LlamaTrade.Conservation
import LlamaTrade.RestartEquivalence
import LlamaTrade.RoundedBalances
import LlamaTrade.SkippedEvents

/-!
# The lifecycle of a reservation

A submission earmarks cash of its sleeve, and the first terminal event of its order gives it
back, in whichever order the two arrive. What a sleeve has reserved is at every point the sum
of its pending reservations, and these are the orders of the stream without a terminal event.
-/

namespace LlamaTrade

open Arithmetic

/-! ## Statement -/

/-- The order, the sleeve and the amount of a submission that can be read. -/
def reservation (ev : LedgerEvent) : Option (String × String × Decimal) :=
  match LedgerEventType.coerce ev.eventType with
  | .ok .orderSubmitted =>
    if ev.data.has "reserved" then
      match present ev.data "client_order_id", present ev.data "sleeve_id",
        parse (D := Decimal) (ev.data.get "reserved").pyStr with
      | some coid, some sleeve, .ok amount => some (coid.pyStr, sleeve.pyStr, amount)
      | _, _, _ => none
    else none
  | _ => none

def reservations (events : List LedgerEvent) : List (String × String × Decimal) :=
  events.filterMap reservation

/-- The orders with a terminal event that is applied. -/
def appliedTerminalIds : FoldState Decimal → List LedgerEvent → List String
  | _, [] => []
  | s, ev :: events =>
    (if (applyEvent s ev).2 = none then (terminalId Decimal ev).toList else []) ++
      appliedTerminalIds (foldEvent s ev) events

/-- The part of a reservation that is held against a sleeve. -/
def heldAgainst (id : String) (entry : String × Decimal) : ℚ :=
  if entry.1 = id then entry.2.toRat else 0

/-- The amounts of the orders of a stream without an applied terminal event. -/
def openReserved (events : List LedgerEvent) (id : String) : ℚ :=
  (((reservations events).filter fun r => r.1 ∉ appliedTerminalIds .empty events).map
    fun r => heldAgainst id r.2).sum

/-- The entries of a sleeve in the map of pending reservations. -/
def pendingReserved (s : FoldState Decimal) (id : String) : ℚ :=
  s.res.pending.total (heldAgainst id)

/-- The additions that a leg makes to its sleeve do not raise. -/
def LegDefined (acc : AccountProjection Decimal) (p : Posting Decimal) : Prop :=
  match p.sleeveId, p.bucket, p.symbol with
  | some id, .cash, _ => ∃ sum, add (acc.sleeve id).cash p.amount = .ok sum
  | some id, .pnl, _ => ∃ sum, (neg p.amount >>= add (acc.sleeve id).realizedPnl) = .ok sum
  | some id, .position, some symbol =>
    (∃ sum, add ((acc.sleeve id).position symbol).costBasis p.amount = .ok sum) ∧
      ∀ qty, p.qty = some qty → ∃ sum, add ((acc.sleeve id).position symbol).qty qty = .ok sum
  | _, _, _ => True

def LegsDefined : AccountProjection Decimal → List (Posting Decimal) → Prop
  | _, [] => True
  | acc, p :: ps => LegDefined acc p ∧ LegsDefined (applyPosting acc p).1 ps

/-- The amount that an event reserves or gives back is finite and is added to the reserved cash
without rounding, and the legs of a terminal event of one of the submitted orders do not raise. -/
structure ReservesExactly (ids : List String) (s : FoldState Decimal) (ev : LedgerEvent) : Prop where
  reserves : ∀ coid sleeve amount, reservation ev = some (coid, sleeve, amount) →
    coid ∉ s.res.terminal → SumFits (s.acc.sleeve sleeve).reserved amount
  releases : ∀ coid, terminalId Decimal ev = some coid → coid ∈ ids →
    ∀ sleeve amount, s.res.pending[coid]? = some (sleeve, amount) →
      SumFits (s.acc.sleeve sleeve).reserved amount.copyNegate
  fills : ∀ coid, terminalId Decimal ev = some coid → coid ∈ ids →
    LegsDefined (release s coid).1.acc (validLegs ev)

/-! ## One event -/

theorem applyPostings_reserved (acc : AccountProjection Decimal) (ps : List (Posting Decimal))
    (id : String) : ((applyPostings acc ps).1.sleeve id).reserved = (acc.sleeve id).reserved := by
  have hstep : ∀ p ∈ ps, ∀ s s' : SleeveProjection Decimal, LegEffect s p s' →
      s.reserved = (acc.sleeve id).reserved → s'.reserved = (acc.sleeve id).reserved := by
    intro p _ s s' heffect hs
    rw [← hs]
    cases heffect <;> rfl
  exact applyPostings_induction hstep rfl

theorem applyPosting_of_legDefined {acc : AccountProjection Decimal} {p : Posting Decimal}
    (h : LegDefined acc p) : (applyPosting acc p).2 = none := by
  obtain ⟨sleeveId, bucket, amount, symbol, qty⟩ := p
  cases sleeveId with
  | none => rfl
  | some id =>
    cases bucket with
    | cash =>
      obtain ⟨sum, hsum⟩ := h
      simp only [applyPosting, hsum, Attempt.guarded_ok]
    | pnl =>
      obtain ⟨sum, hsum⟩ := h
      simp only [applyPosting, hsum, Attempt.guarded_ok]
    | external => rfl
    | position =>
      cases symbol with
      | none => rfl
      | some symbol =>
        obtain ⟨⟨sum, hsum⟩, hqty⟩ := h
        simp only [applyPosting, hsum, Attempt.guarded_ok]
        cases qty with
        | none => rfl
        | some qty =>
          obtain ⟨moved, hmoved⟩ := hqty qty rfl
          simp only [hmoved, Attempt.guarded_ok]

theorem applyPostings_of_legsDefined {acc : AccountProjection Decimal}
    {ps : List (Posting Decimal)} (h : LegsDefined acc ps) : (applyPostings acc ps).2 = none := by
  induction ps generalizing acc with
  | nil => rfl
  | cons p ps ih =>
    have hp := applyPosting_of_legDefined h.1
    have hps := ih h.2
    rw [applyPostings]
    rcases hstep : applyPosting acc p with ⟨next, _ | e⟩
    · rw [hstep] at hps
      exact hps
    · rw [hstep] at hp
      cases hp

theorem validatedPostings_orderSubmitted (data : Payload) :
    validatedPostings (D := Decimal) .orderSubmitted data = .ok [] := rfl

theorem submittedId_of_reservation {ev : LedgerEvent} {r : String × String × Decimal}
    (h : reservation ev = some r) : submittedId ev = some r.1 := by
  unfold reservation at h
  split at h
  · rename_i ht
    have hid : submittedId ev = (present ev.data "client_order_id").map (·.pyStr) := by
      simp only [submittedId, ht]
    split_ifs at h
    split at h
    · rename_i coid sleeve amount hcoid _ _
      cases h
      simp [hid, hcoid]
    · cases h
  · cases h

/-- A submission that can be read does what `reserve` does with it. -/
theorem applyEvent_of_reservation (s : FoldState Decimal) {ev : LedgerEvent}
    {coid sleeve : String} {amount : Decimal} (h : reservation ev = some (coid, sleeve, amount)) :
    applyEvent s ev = if coid ∈ s.res.terminal then (s, none) else
      Attempt.guarded { s with acc := s.acc.setSleeve sleeve (s.acc.sleeve sleeve) }
        (add (s.acc.sleeve sleeve).reserved amount) fun reserved =>
          ({ acc := s.acc.setSleeve sleeve { s.acc.sleeve sleeve with reserved }
             res := { s.res with pending := s.res.pending.insert coid (sleeve, amount) } }, none) := by
  unfold reservation at h
  split at h
  · rename_i ht
    split_ifs at h with hhas
    split at h
    · rename_i coid' sleeve' _ hcoid hsleeve hparse
      cases h
      have hres : applyReservation s .orderSubmitted ev.data = reserve s coid'.pyStr ev.data := by
        simp [applyReservation, hcoid, hhas]
      rw [applyEvent, ht, Attempt.guarded_ok, validatedPostings_orderSubmitted, Attempt.guarded_ok,
        hres]
      simp only [reserve, hsleeve, hparse, Attempt.guarded_ok]
      split_ifs
      · rfl
      · cases add (s.acc.sleeve sleeve'.pyStr).reserved amount <;> rfl
    · cases h
  · cases h

/-- A terminal event releases before its legs are applied. -/
theorem applyEvent_of_terminal (s : FoldState Decimal) {ev : LedgerEvent} {coid : String}
    (h : terminalId Decimal ev = some coid) :
    applyEvent s ev = (release s coid).andThen fun s =>
      ({ s with acc := (applyPostings s.acc (validLegs ev)).1 },
        (applyPostings s.acc (validLegs ev)).2) := by
  unfold terminalId at h
  unfold validLegs applyEvent
  split at h
  · cases h
  · rename_i t ht
    split at h
    · cases h
    · rename_i ps hps
      simp only [releasedId] at h
      split_ifs at h with hreleases
      obtain ⟨x, hcoid, rfl⟩ := Option.map_eq_some_iff.mp h
      have hnot : t ≠ .orderSubmitted := by
        rintro rfl
        cases hreleases
      have hres : applyReservation s t ev.data = release s x.pyStr := by
        simp [applyReservation, hcoid, hnot, hreleases]
      simp only [ht, hps, hres, Attempt.guarded_ok]

theorem applyReservation_idle {s : FoldState Decimal} {t : LedgerEventType} {ev : LedgerEvent}
    (ht : LedgerEventType.coerce ev.eventType = .ok t) (hres : reservation ev = none)
    (hreleased : releasedId t ev.data = none) : (applyReservation s t ev.data).1 = s := by
  unfold applyReservation
  cases hcoid : present ev.data "client_order_id" with
  | none => rfl
  | some coid =>
    simp only
    split_ifs with hsubmitted hreleases
    · obtain ⟨rfl, hhas⟩ := hsubmitted
      simp only [reservation, ht, hhas, if_true, hcoid] at hres
      unfold reserve
      split_ifs
      · rfl
      · cases hsleeve : present ev.data "sleeve_id" with
        | none => rfl
        | some sleeve =>
          cases hparse : parse (D := Decimal) (ev.data.get "reserved").pyStr with
          | error e => rfl
          | ok amount => simp [hsleeve, hparse] at hres
    · simp [releasedId, hreleases, hcoid] at hreleased
    · rfl

/-- Any other event leaves the reservations as they are. -/
theorem applyEvent_idle (s : FoldState Decimal) {ev : LedgerEvent} (hres : reservation ev = none)
    (hterminal : terminalId Decimal ev = none) : (applyEvent s ev).1.res = s.res ∧
      ∀ id, ((applyEvent s ev).1.acc.sleeve id).reserved = (s.acc.sleeve id).reserved := by
  unfold applyEvent
  cases ht : LedgerEventType.coerce ev.eventType with
  | error e => exact ⟨rfl, fun _ => rfl⟩
  | ok t =>
    rw [Attempt.guarded_ok]
    cases hps : validatedPostings (D := Decimal) t ev.data with
    | error e => exact ⟨rfl, fun _ => rfl⟩
    | ok ps =>
      have hreleased : releasedId t ev.data = none := by simpa [terminalId, ht, hps] using hterminal
      have hidle := applyReservation_idle (s := s) ht hres hreleased
      rw [Attempt.guarded_ok]
      rcases hstep : applyReservation s t ev.data with ⟨s₁, _ | e⟩
      · rw [hstep] at hidle
        obtain rfl : s₁ = s := hidle
        exact ⟨rfl, fun id => applyPostings_reserved s₁.acc ps id⟩
      · rw [hstep] at hidle
        obtain rfl : s₁ = s := hidle
        exact ⟨rfl, fun _ => rfl⟩

theorem foldEvent_res (s : FoldState Decimal) (ev : LedgerEvent) :
    (foldEvent s ev).res = (applyEvent s ev).1.res := by
  unfold foldEvent
  obtain ⟨s₁, _ | e⟩ := applyEvent s ev <;> rfl

/-! ## The reserved cash and the pending reservations -/

/-- Every sleeve has reserved what the pending reservations hold against it. -/
def ReservedMatches (s : FoldState Decimal) : Prop :=
  ∀ id, (s.acc.sleeve id).reserved.isFinite ∧
    (s.acc.sleeve id).reserved.toRat = pendingReserved s id

theorem reservedMatches_empty : ReservedMatches .empty := by
  intro id
  refine ⟨rfl, ?_⟩
  rw [pendingReserved]
  exact toRat_zero.trans (Dict.total_empty _).symm

theorem sub_of_sumFits {x y : Decimal} (h : SumFits x y.copyNegate) :
    ∃ z, sub x y = .ok z ∧ z.isFinite ∧ z.toRat = x.toRat - y.toRat := by
  have hy : y.isFinite := y.copyNegate_isFinite.symm.trans h.2.1
  obtain ⟨z, hadd, hfinite, hval⟩ := Decimal.add_of_fits h.1 h.2.1 h.2.2
  refine ⟨z, (Decimal.sub_finite h.1 hy).trans hadd, hfinite, ?_⟩
  rw [hval, Decimal.toRat_copyNegate, sub_eq_add_neg]

/-- Setting the reserved cash of a sleeve to what it holds pending keeps the match. -/
theorem reservedMatches_setSleeve {s : FoldState Decimal} (h : ReservedMatches s) {id : String}
    {reserved : Decimal} {res : ReservationState Decimal} (hfinite : reserved.isFinite)
    (hval : reserved.toRat = res.pending.total (heldAgainst id))
    (hother : ∀ other, other ≠ id →
      res.pending.total (heldAgainst other) = pendingReserved s other) :
    ReservedMatches ⟨s.acc.setSleeve id { s.acc.sleeve id with reserved }, res⟩ := by
  intro other
  rw [pendingReserved, sleeve_setSleeve]
  split_ifs with heq
  · subst heq
    exact ⟨hfinite, hval⟩
  · rw [hother other heq]
    exact h other

theorem foldEvent_reservedMatches (s : FoldState Decimal) (ev : LedgerEvent) :
    ReservedMatches (foldEvent s ev) ↔ ReservedMatches (applyEvent s ev).1 := by
  simp only [ReservedMatches, pendingReserved, foldEvent_acc_sleeve, foldEvent_res]

section Release

variable {s : FoldState Decimal} {coid : String}
  (hfits : ∀ sleeve amount, s.res.pending[coid]? = some (sleeve, amount) →
    SumFits (s.acc.sleeve sleeve).reserved amount.copyNegate)

include hfits

theorem release_done : (release s coid).2 = none := by
  unfold release
  cases hpending : s.res.pending[coid]? with
  | none => rfl
  | some entry =>
    obtain ⟨reserved, hsub, -⟩ := sub_of_sumFits (hfits entry.1 entry.2 hpending)
    simp only [hsub, Attempt.guarded_ok]

theorem release_matches (h : ReservedMatches s) : ReservedMatches (release s coid).1 ∧
    ∀ c, (release s coid).1.res.pending[c]? = if c = coid then none else s.res.pending[c]? := by
  unfold release
  cases hpending : s.res.pending[coid]? with
  | none =>
    refine ⟨h, fun c => ?_⟩
    split_ifs with hc
    · rw [hc]
      exact hpending
    · rfl
  | some entry =>
    obtain ⟨sleeve, amount⟩ := entry
    obtain ⟨reserved, hsub, hfinite, hval⟩ := sub_of_sumFits (hfits sleeve amount hpending)
    have htotal : ∀ id, Dict.total (heldAgainst id) (s.res.pending.erase coid) =
        pendingReserved s id - heldAgainst id (sleeve, amount) := fun id =>
      Dict.total_erase hpending
    simp only [hsub, Attempt.guarded_ok]
    refine ⟨reservedMatches_setSleeve h hfinite ?_ ?_, ?_⟩
    · rw [hval, htotal, (h sleeve).2, heldAgainst, if_pos rfl]
    · intro other hother
      rw [htotal, heldAgainst, if_neg fun heq => hother heq.symm, sub_zero]
    · intro c
      rw [Std.ExtTreeMap.getElem?_erase]
      by_cases hc : c = coid
      · simp [hc]
      · have hcompare : ¬ compare coid c = .eq := by simpa using fun heq => hc heq.symm
        simp [hc, hcompare]

/-- A terminal event takes its order out of the pending ones. -/
theorem foldEvent_releases (h : ReservedMatches s) {ev : LedgerEvent}
    (hev : terminalId Decimal ev = some coid) :
    ReservedMatches (foldEvent s ev) ∧ ∀ c, (foldEvent s ev).res.pending[c]? =
      if c = coid then none else s.res.pending[c]? := by
  have hdone := release_done hfits
  obtain ⟨hmatches, hpending⟩ := release_matches hfits h
  have happly := applyEvent_of_terminal s hev
  rcases hrelease : release s coid with ⟨s₁, _ | e⟩
  · rw [hrelease] at happly hmatches hpending
    rw [Attempt.andThen_none] at happly
    rw [foldEvent_reservedMatches, foldEvent_res, happly]
    refine ⟨fun id => ?_, hpending⟩
    rw [pendingReserved, applyPostings_reserved]
    exact hmatches id
  · rw [hrelease] at hdone
    cases hdone

/-- A terminal event whose legs do not raise is applied. -/
theorem applyEvent_applied {ev : LedgerEvent} (hev : terminalId Decimal ev = some coid)
    (hlegs : LegsDefined (release s coid).1.acc (validLegs ev)) : (applyEvent s ev).2 = none := by
  have hdone := release_done hfits
  rw [applyEvent_of_terminal s hev]
  rcases hrelease : release s coid with ⟨s₁, _ | e⟩
  · rw [hrelease] at hlegs
    exact applyPostings_of_legsDefined hlegs
  · rw [hrelease] at hdone
    cases hdone

end Release

/-- A new order is reserved and pending. -/
theorem foldEvent_reserves {s : FoldState Decimal} {ev : LedgerEvent} {coid sleeve : String}
    {amount : Decimal} (h : ReservedMatches s) (hev : reservation ev = some (coid, sleeve, amount))
    (hterminal : coid ∉ s.res.terminal) (hnew : s.res.pending[coid]? = none)
    (hfits : SumFits (s.acc.sleeve sleeve).reserved amount) :
    ReservedMatches (foldEvent s ev) ∧ ∀ c, (foldEvent s ev).res.pending[c]? =
      if c = coid then some (sleeve, amount) else s.res.pending[c]? := by
  obtain ⟨reserved, hadd, hfinite, hval⟩ := Decimal.add_of_fits hfits.1 hfits.2.1 hfits.2.2
  have happly := applyEvent_of_reservation s hev
  rw [if_neg hterminal, show add (s.acc.sleeve sleeve).reserved amount = .ok reserved from hadd,
    Attempt.guarded_ok] at happly
  have htotal : ∀ id, Dict.total (heldAgainst id) (s.res.pending.insert coid (sleeve, amount)) =
      pendingReserved s id + heldAgainst id (sleeve, amount) := by
    intro id
    rw [Dict.total_insert, hnew, Option.elim_none, sub_zero, pendingReserved]
  rw [foldEvent_reservedMatches, foldEvent_res, happly]
  refine ⟨reservedMatches_setSleeve h hfinite ?_ ?_, ?_⟩
  · rw [hval, htotal, (h sleeve).2, heldAgainst, if_pos rfl]
  · intro other hother
    rw [htotal, heldAgainst, if_neg fun heq => hother heq.symm, add_zero]
  · intro c
    rw [Std.ExtTreeMap.getElem?_insert]
    by_cases hc : c = coid
    · simp [hc]
    · have hcompare : ¬ compare coid c = .eq := by simpa using fun heq => hc heq.symm
      simp [hc, hcompare]

/-! ## Streams -/

theorem mem_appliedTerminalIds {ids : List String} {s : FoldState Decimal}
    {events : List LedgerEvent} (hmeets : Transition.Meets foldStep (ReservesExactly ids) s events)
    {c : String} (hc : c ∈ ids) :
    c ∈ appliedTerminalIds s events ↔ c ∈ terminalIds Decimal events := by
  induction events generalizing s with
  | nil => exact Iff.rfl
  | cons ev events ih =>
    have hrest := ih (hmeets.2 _ rfl)
    have hfirst : c ∈ (if (applyEvent s ev).2 = none then (terminalId Decimal ev).toList else []) ↔
        terminalId Decimal ev = some c := by
      constructor
      · intro h
        split_ifs at h
        · simpa using h
        · cases h
      · intro h
        have happlied := applyEvent_applied (hmeets.1.releases c h hc) h (hmeets.1.fills c h hc)
        simp [happlied, h]
    rw [appliedTerminalIds, List.mem_append, hfirst, hrest, terminalIds, terminalIds]
    cases hterminal : terminalId Decimal ev with
    | none => simp [hterminal]
    | some coid => simp [hterminal, eq_comm]

theorem map_fst_reservations_sublist (events : List LedgerEvent) :
    ((reservations events).map Prod.fst).Sublist (events.filterMap submittedId) := by
  induction events with
  | nil => exact List.Sublist.refl _
  | cons ev events ih =>
    rw [reservations, List.filterMap_cons, List.filterMap_cons]
    cases hev : reservation ev with
    | none =>
      cases submittedId ev with
      | none => exact ih
      | some c => exact ih.cons c
    | some r =>
      rw [submittedId_of_reservation hev]
      exact ih.cons_cons r.1

/-- What the fold of a stream has reserved: the orders without a terminal event are pending. -/
structure Lifecycle (events : List LedgerEvent) : Prop where
  reserved : ReservedMatches (foldInto .empty events)
  pending : ∀ c entry, (foldInto .empty events).res.pending[c]? = some entry ↔
    (c, entry) ∈ reservations events ∧ c ∉ terminalIds Decimal events

theorem reservations_concat (done : List LedgerEvent) (ev : LedgerEvent) :
    reservations (done ++ [ev]) = reservations done ++ (reservation ev).toList := by
  rw [reservations, List.filterMap_append, List.filterMap_cons]
  cases reservation ev <;> rfl

theorem terminalIds_concat (done : List LedgerEvent) (ev : LedgerEvent) :
    terminalIds Decimal (done ++ [ev]) =
      terminalIds Decimal done ++ (terminalId Decimal ev).toList := by
  rw [terminalIds, List.filterMap_append, List.filterMap_cons]
  cases terminalId Decimal ev <;> rfl

theorem terminalId_of_reservation {ev : LedgerEvent} {r : String × String × Decimal}
    (h : reservation ev = some r) : terminalId Decimal ev = none := by
  unfold reservation at h
  split at h
  · rename_i ht
    rw [terminalId, ht]
    rfl
  · cases h

section Step

variable {ids : List String} {done : List LedgerEvent} {ev : LedgerEvent} (h : Lifecycle done)
  (hev : ReservesExactly ids (foldInto .empty done) ev)

include h

theorem Lifecycle.idle (hres : reservation ev = none) (hterminal : terminalId Decimal ev = none) :
    Lifecycle (done ++ [ev]) := by
  obtain ⟨hres', hreserved⟩ := applyEvent_idle (foldInto .empty done) hres hterminal
  refine ⟨?_, fun c entry => ?_⟩
  · rw [foldInto_append, foldInto_cons, foldInto_nil, foldEvent_reservedMatches]
    intro id
    rw [pendingReserved, hres', hreserved]
    exact h.reserved id
  · rw [foldInto_append, foldInto_cons, foldInto_nil, foldEvent_res, hres', reservations_concat,
      terminalIds_concat, hres, hterminal, h.pending]
    simp

include hev

theorem Lifecycle.reserves {coid sleeve : String} {amount : Decimal}
    (hres : reservation ev = some (coid, sleeve, amount))
    (htracked : coid ∈ (foldInto (D := Decimal) .empty done).res.terminal ↔
      coid ∈ terminalIds Decimal done)
    (hnew : ∀ r ∈ reservations done, r.1 ≠ coid) : Lifecycle (done ++ [ev]) := by
  have hids : terminalIds Decimal (done ++ [ev]) = terminalIds Decimal done := by
    rw [terminalIds_concat, terminalId_of_reservation hres]
    simp
  have hmem : ∀ c entry, (c, entry) ∈ reservations (done ++ [ev]) ↔
      (c, entry) ∈ reservations done ∨ c = coid ∧ entry = (sleeve, amount) := by
    intro c entry
    simp [reservations_concat, hres]
  by_cases hterminal : coid ∈ (foldInto (D := Decimal) .empty done).res.terminal
  · have hsame : foldInto (D := Decimal) .empty (done ++ [ev]) = foldInto .empty done := by
      rw [foldInto_append, foldInto_cons, foldInto_nil, foldEvent,
        applyEvent_of_reservation _ hres, if_pos hterminal]
    refine ⟨hsame ▸ h.reserved, fun c entry => ?_⟩
    rw [hsame, h.pending, hmem, hids, or_and_right, or_iff_left]
    rintro ⟨⟨rfl, -⟩, hc⟩
    exact hc (htracked.mp hterminal)
  · have hfresh : ∀ entry, (coid, entry) ∉ reservations done := fun entry hr => hnew _ hr rfl
    have hnone : (foldInto (D := Decimal) .empty done).res.pending[coid]? = none := by
      rw [Option.eq_none_iff_forall_ne_some]
      intro entry hentry
      exact hfresh entry ((h.pending coid entry).mp hentry).1
    obtain ⟨hreserved, hpending⟩ := foldEvent_reserves h.reserved hres hterminal hnone
      (hev.reserves coid sleeve amount hres hterminal)
    refine ⟨?_, fun c entry => ?_⟩
    · rw [foldInto_append]
      exact hreserved
    · rw [foldInto_append, foldInto_cons, foldInto_nil, hpending, hmem, hids]
      split_ifs with hc
      · subst hc
        simp [hfresh, htracked.not.mp hterminal, eq_comm]
      · simp [hc, h.pending]

theorem Lifecycle.releases {coid : String} (hterminal : terminalId Decimal ev = some coid)
    (hids : ∀ r ∈ reservations done, r.1 ∈ ids) : Lifecycle (done ++ [ev]) := by
  have hres : reservation ev = none := by
    cases hr : reservation ev with
    | none => rfl
    | some r =>
      rw [terminalId_of_reservation hr] at hterminal
      cases hterminal
  have hfits : ∀ sleeve amount,
      (foldInto (D := Decimal) .empty done).res.pending[coid]? = some (sleeve, amount) →
        SumFits ((foldInto (D := Decimal) .empty done).acc.sleeve sleeve).reserved
          amount.copyNegate := by
    intro sleeve amount hentry
    have hcoid := hids _ ((h.pending coid _).mp hentry).1
    exact hev.releases coid hterminal hcoid sleeve amount hentry
  obtain ⟨hreserved, hpending⟩ := foldEvent_releases hfits h.reserved hterminal
  refine ⟨?_, fun c entry => ?_⟩
  · rw [foldInto_append]
    exact hreserved
  · rw [foldInto_append, foldInto_cons, foldInto_nil, hpending, reservations_concat, hres,
      terminalIds_concat, hterminal]
    split_ifs with hc
    · simp [hc]
    · simp [hc, h.pending]

end Step

/-- The reservations of a stream that submits every order once. -/
theorem lifecycle_of_meets {ids : List String} {events : List LedgerEvent}
    (honce : (events.filterMap submittedId).Nodup)
    (hroom : (terminalIds Decimal events).toFinset.card ≤ terminalTracked)
    (hids : ∀ r ∈ reservations events, r.1 ∈ ids)
    (hmeets : Transition.Meets foldStep (ReservesExactly ids) .empty events) :
    Lifecycle events := by
  induction events using List.reverseRecOn with
  | nil =>
    refine ⟨reservedMatches_empty, fun c entry => ?_⟩
    simp [reservations, FoldState.empty, ReservationState.empty]
  | append_singleton done ev ih =>
    have hroomDone : (terminalIds Decimal done).toFinset.card ≤ terminalTracked := by
      refine (Finset.card_le_card fun c hc => ?_).trans hroom
      rw [List.mem_toFinset] at hc ⊢
      rw [terminalIds_concat]
      exact List.mem_append_left _ hc
    have hidsDone : ∀ r ∈ reservations done, r.1 ∈ ids := by
      intro r hr
      apply hids
      rw [reservations_concat]
      exact List.mem_append_left _ hr
    have hev := (Transition.meets_of_append hmeets (run_foldStep _ done)).1
    have hdone := ih (honce.sublist (by simp [List.filterMap_append])) hroomDone hidsDone
      (Transition.meets_left hmeets)
    cases hterminal : terminalId Decimal ev with
    | some coid => exact hdone.releases hev hterminal hidsDone
    | none =>
      cases hres : reservation ev with
      | none => exact hdone.idle hres hterminal
      | some r =>
        refine hdone.reserves hev hres (mem_foldInto_terminal_iff hroomDone r.1) ?_
        have hnodup := honce.sublist (map_fst_reservations_sublist _)
        rw [reservations_concat, hres, List.map_append, List.nodup_append'] at hnodup
        intro r' hr' heq
        exact hnodup.2.2 (List.mem_map_of_mem hr') (by simp [heq])

/-- The pending reservations are those of the orders without an applied terminal event. -/
theorem Lifecycle.openReserved_eq {events : List LedgerEvent} (h : Lifecycle events)
    (honce : (events.filterMap submittedId).Nodup)
    (happlied : ∀ r ∈ reservations events, r.1 ∈ appliedTerminalIds .empty events ↔
      r.1 ∈ terminalIds Decimal events) (id : String) :
    openReserved events id = pendingReserved (foldInto .empty events) id := by
  have hnodup : (reservations events).Nodup :=
    (honce.sublist (map_fst_reservations_sublist events)).of_map _
  have hperm : ((reservations events).filter fun r => r.1 ∉ appliedTerminalIds .empty events).Perm
      (foldInto (D := Decimal) .empty events).res.pending.toList := by
    refine (List.perm_ext_iff_of_nodup (hnodup.filter _) (Dict.nodup_toList _)).mpr ?_
    rintro ⟨c, entry⟩
    rw [Std.ExtTreeMap.mem_toList_iff_getElem?_eq_some, h.pending, List.mem_filter]
    refine and_congr_right fun hr => ?_
    simp [happlied _ hr]
  exact (hperm.map fun r => heldAgainst id r.2).sum_eq

/-- **Reservation lifecycle.** A stream submits every order at most once and has no more
terminal ids than are tracked. Where its reservations and releases are exact and the terminal
events of its orders are applied, every sleeve has reserved the amounts of its orders without a
terminal event, which are its pending ones. -/
theorem reserved_eq_open_orders {events : List LedgerEvent}
    (honce : (events.filterMap submittedId).Nodup)
    (hroom : (terminalIds Decimal events).toFinset.card ≤ terminalTracked)
    (hmeets : Transition.Meets foldStep (ReservesExactly ((reservations events).map Prod.fst))
      .empty events) (id : String) :
    ((fold (D := Decimal) events).sleeve id).reserved.isFinite ∧
    ((fold (D := Decimal) events).sleeve id).reserved.toRat = openReserved events id ∧
    ((fold (D := Decimal) events).sleeve id).reserved.toRat =
      pendingReserved (foldInto .empty events) id := by
  have hlife := lifecycle_of_meets honce hroom (fun r hr => List.mem_map_of_mem hr) hmeets
  have hopen := hlife.openReserved_eq honce
    (fun r hr => mem_appliedTerminalIds hmeets (List.mem_map_of_mem hr)) id
  obtain ⟨hfinite, hval⟩ := hlife.reserved id
  exact ⟨hfinite, hval.trans hopen.symm, hval⟩

namespace Sample

/-- A fill of an order in sleeve `a`. -/
def fillOf (coid side price : String) : LedgerEvent where
  sequence := 1
  eventType := LedgerEventType.orderFilled.value
  data := [("sleeve_id", .str "a"), ("client_order_id", .str coid), ("symbol", .str "SPY"),
    ("side", .str side), ("qty", .str "1"), ("price", .str price), ("cost_basis", .str "0")]

/-- Order `late` is cancelled before its submission arrives, `open` stays open, and `filled` is
submitted and filled. -/
def orders : List LedgerEvent :=
  [cancelEvent 1 "late", submitEvent 2 "late" "a" "50", submitEvent 3 "open" "a" "100",
    submitEvent 4 "filled" "a" "30", fillOf "filled" "buy" "30"]

/-- The fill of order `o` pays out as much as the sleeve holds, which is close to the largest
number there is. -/
def overflowingFill : List LedgerEvent :=
  [depositOf "9E999999", submitEvent 2 "o" "a" "100", fillOf "o" "sell" "9E999999"]

end Sample

theorem reservesExactly_submitEvent {ids : List String} {s : FoldState Decimal} {seq : ℕ}
    {coid sleeve reserved : String} {amount : Decimal}
    (hparse : parse (D := Decimal) reserved = .ok amount)
    (hfits : SumFits (s.acc.sleeve sleeve).reserved amount) :
    ReservesExactly ids s (submitEvent seq coid sleeve reserved) := by
  have hres : reservation (submitEvent seq coid sleeve reserved) = some (coid, sleeve, amount) := by
    have hread : parse (D := Decimal)
        ((submitEvent seq coid sleeve reserved).data.get "reserved").pyStr = .ok amount := hparse
    rw [reservation, hread]
    rfl
  have hterminal := terminalId_of_reservation hres
  refine ⟨fun coid' sleeve' amount' h _ => ?_, fun coid' h => ?_, fun coid' h => ?_⟩
  · rw [hres] at h
    cases h
    exact hfits
  · rw [hterminal] at h
    cases h
  · rw [hterminal] at h
    cases h

theorem reservesExactly_cancelEvent {ids : List String} {s : FoldState Decimal} {seq : ℕ}
    {coid : String} (hnew : s.res.pending[coid]? = none) :
    ReservesExactly ids s (cancelEvent seq coid) := by
  have hterminal : terminalId Decimal (cancelEvent seq coid) = some coid := rfl
  refine ⟨?_, fun coid' h _ sleeve amount hentry => ?_, fun _ _ _ => trivial⟩
  · intro coid' sleeve amount h
    cases h
  · rw [hterminal] at h
    cases h
    rw [hnew] at hentry
    cases hentry

theorem Sample.filled_evaluated :
    terminalId Decimal (Sample.fillOf "filled" "buy" "30") = some "filled" ∧
    (foldInto (D := Decimal) .empty (Sample.orders.take 4)).res.pending["filled"]? =
      some ("a", .finite false 30 0) ∧
    validLegs (Sample.fillOf "filled" "buy" "30") =
      [⟨some "a", .cash, .finite true 30 0, none, none⟩,
        ⟨some "a", .position, .finite false 30 0, some "SPY", some (.finite false 1 0)⟩,
        ⟨some "a", .pnl, .finite false 0 0, none, none⟩] := by
  decide +kernel

theorem reservesExactly_filled : ReservesExactly ((reservations Sample.orders).map Prod.fst)
    (foldInto .empty (Sample.orders.take 4)) (Sample.fillOf "filled" "buy" "30") := by
  obtain ⟨hterminal, hpending, hlegs⟩ := Sample.filled_evaluated
  refine ⟨?_, fun coid h _ sleeve amount hentry => ?_, fun coid h _ => ?_⟩
  · intro coid sleeve amount h
    cases h
  · rw [hterminal] at h
    cases h
    rw [hpending] at hentry
    cases hentry
    exact @sumFits_of_eq _ _ 130 (-30) (by decide +kernel) (by decide +kernel) (by decide)
  · rw [hterminal] at h
    cases h
    rw [hlegs]
    refine ⟨⟨.finite true 30 0, by decide +kernel⟩, ⟨⟨.finite false 30 0, by decide +kernel⟩, ?_⟩,
      ⟨.finite false 0 0, by decide +kernel⟩, trivial⟩
    intro qty hqty
    cases hqty
    exact ⟨.finite false 1 0, by decide +kernel⟩

theorem meets_orders : Transition.Meets foldStep
    (ReservesExactly ((reservations Sample.orders).map Prod.fst)) .empty Sample.orders := by
  refine ⟨?_, fun _ h₁ => ?_⟩
  · apply reservesExactly_cancelEvent
    decide +kernel
  cases h₁
  refine ⟨?_, fun _ h₂ => ?_⟩
  · apply reservesExactly_submitEvent (show parse "50" = .ok (Decimal.finite false 50 0) by decide)
    exact @sumFits_of_eq _ _ 0 50 (by decide +kernel) (by decide +kernel) (by decide)
  cases h₂
  refine ⟨?_, fun _ h₃ => ?_⟩
  · apply reservesExactly_submitEvent (show parse "100" = .ok (Decimal.finite false 100 0) by decide)
    exact @sumFits_of_eq _ _ 0 100 (by decide +kernel) (by decide +kernel) (by decide)
  cases h₃
  refine ⟨?_, fun _ h₄ => ?_⟩
  · apply reservesExactly_submitEvent (show parse "30" = .ok (Decimal.finite false 30 0) by decide)
    exact @sumFits_of_eq _ _ 100 30 (by decide +kernel) (by decide +kernel) (by decide)
  cases h₄
  exact ⟨reservesExactly_filled, fun _ _ => trivial⟩

/-- Only the open order is reserved. -/
theorem reserved_eq_open_orders_late_cancelled_filled :
    (Sample.orders.filterMap submittedId).Nodup ∧
    (terminalIds Decimal Sample.orders).toFinset.card ≤ terminalTracked ∧
    ((fold (D := Decimal) Sample.orders).sleeve "a").reserved.toRat = 100 ∧
    openReserved Sample.orders "a" = 100 ∧
    pendingReserved (foldInto .empty Sample.orders) "a" = 100 := by
  obtain ⟨honce, htwo, hreserved⟩ : (Sample.orders.filterMap submittedId).Nodup ∧
      (terminalIds Decimal Sample.orders).toFinset.card = 2 ∧
      ((fold (D := Decimal) Sample.orders).sleeve "a").reserved.toRat = 100 := by decide +kernel
  have hroom : (terminalIds Decimal Sample.orders).toFinset.card ≤ terminalTracked := by
    rw [htwo, terminalTracked]
    decide
  obtain ⟨-, hopen, hpending⟩ := reserved_eq_open_orders honce hroom meets_orders "a"
  exact ⟨honce, hroom, hreserved, hopen.symm.trans hreserved, hpending.symm.trans hreserved⟩

/-- The fill is skipped, but its order is no longer reserved. -/
theorem skipped_fill_releases :
    (Sample.overflowingFill.filterMap submittedId).Nodup ∧
    (terminalIds Decimal Sample.overflowingFill).toFinset.card ≤ terminalTracked ∧
    ((fold (D := Decimal) Sample.overflowingFill).sleeve "a").reserved.toRat = 0 ∧
    openReserved Sample.overflowingFill "a" = 100 := by
  obtain ⟨hone, honce, hreserved, hopen⟩ :
      (terminalIds Decimal Sample.overflowingFill).toFinset.card = 1 ∧
      (Sample.overflowingFill.filterMap submittedId).Nodup ∧
      ((fold (D := Decimal) Sample.overflowingFill).sleeve "a").reserved.toRat = 0 ∧
      openReserved Sample.overflowingFill "a" = 100 := by decide +kernel
  refine ⟨honce, ?_, hreserved, hopen⟩
  rw [hone, terminalTracked]
  decide

end LlamaTrade
