import LlamaTrade.ExactPositions
import LlamaTrade.EnrichedSells

/-!
# Rounded balances

Every balance of the projection is the result of an addition, so a finite one fits the
precision of the context and can be negated without rounding.
-/

namespace LlamaTrade

open Arithmetic

/-! ## What a leg does to a sleeve -/

/-- The states in which a leg can leave a sleeve, also one that raises halfway. -/
inductive LegEffect {D : Type} [Arithmetic D] (s : SleeveProjection D) (p : Posting D) :
    SleeveProjection D → Prop
  | same : LegEffect s p s
  | cash {cash : D} (hbucket : p.bucket = .cash) (h : add s.cash p.amount = .ok cash) :
    LegEffect s p { s with cash }
  | pnl (realizedPnl : D) : LegEffect s p { s with realizedPnl }
  | touched (symbol : String) : LegEffect s p (s.setPosition symbol (s.position symbol))
  | cost {symbol : String} {costBasis : D}
    (hcost : add (s.position symbol).costBasis p.amount = .ok costBasis) :
    LegEffect s p (s.setPosition symbol { s.position symbol with costBasis })
  | moved {symbol : String} {costBasis moved qty : D}
    (hcost : add (s.position symbol).costBasis p.amount = .ok costBasis)
    (hqty : add (s.position symbol).qty moved = .ok qty) :
    LegEffect s p (s.setPosition symbol ⟨qty, costBasis⟩)

section Effects

variable {D : Type} [Arithmetic D]

theorem applyPosting_effect (acc : AccountProjection D) (p : Posting D) (id : String) :
    LegEffect (acc.sleeve id) p ((applyPosting acc p).1.sleeve id) := by
  obtain ⟨sleeveId, bucket, amount, symbol, qty⟩ := p
  cases sleeveId with
  | none => exact .same
  | some other =>
    have hstored : ∀ s, LegEffect (acc.sleeve other) ⟨some other, bucket, amount, symbol, qty⟩ s →
        ∀ acc' : AccountProjection D, (∀ x, x ≠ other → acc'.sleeve x = acc.sleeve x) →
          acc'.sleeve other = s →
            LegEffect (acc.sleeve id) ⟨some other, bucket, amount, symbol, qty⟩ (acc'.sleeve id) := by
      intro s hs acc' hother hsame
      by_cases hid : id = other
      · rw [hid, hsame]
        exact hs
      · rw [hother id hid]
        exact .same
    unfold applyPosting
    cases bucket with
    | cash =>
      cases hadd : add (acc.sleeve other).cash amount with
      | error e =>
        refine hstored _ .same _ ?_ ?_ <;> simp +contextual [hadd, sleeve_setSleeve]
      | ok cash =>
        refine hstored _ (.cash rfl hadd) _ ?_ ?_ <;> simp +contextual [hadd, sleeve_setSleeve]
    | pnl =>
      cases hadd : neg amount >>= add (acc.sleeve other).realizedPnl with
      | error e =>
        refine hstored _ .same _ ?_ ?_ <;> simp +contextual [hadd, sleeve_setSleeve]
      | ok realizedPnl =>
        refine hstored _ (.pnl realizedPnl) _ ?_ ?_ <;>
          simp +contextual [hadd, sleeve_setSleeve]
    | external => refine hstored _ .same _ ?_ ?_ <;> simp +contextual [sleeve_setSleeve]
    | position =>
      cases symbol with
      | none => refine hstored _ .same _ ?_ ?_ <;> simp +contextual [sleeve_setSleeve]
      | some symbol =>
        cases hcost : add ((acc.sleeve other).position symbol).costBasis amount with
        | error e =>
          refine hstored _ (.touched symbol) _ ?_ ?_ <;>
            simp +contextual [hcost, sleeve_setSleeve]
        | ok costBasis =>
          cases qty with
          | none =>
            refine hstored _ (.cost hcost) _ ?_ ?_ <;>
              simp +contextual [hcost, sleeve_setSleeve]
          | some moved =>
            cases hqty : add ((acc.sleeve other).position symbol).qty moved with
            | error e =>
              refine hstored _ (.cost hcost) _ ?_ ?_ <;>
                simp +contextual [hcost, hqty, sleeve_setSleeve]
            | ok qty =>
              refine hstored _ (.moved hcost hqty) _ ?_ ?_ <;>
                simp +contextual [hcost, hqty, sleeve_setSleeve]

/-- What each leg keeps of a sleeve, the legs of an event keep. -/
theorem applyPostings_induction {P : SleeveProjection D → Prop} {id : String}
    {ps : List (Posting D)} (hstep : ∀ p ∈ ps, ∀ s s', LegEffect s p s' → P s → P s')
    {acc : AccountProjection D} (h : P (acc.sleeve id)) :
    P ((applyPostings acc ps).1.sleeve id) := by
  induction ps generalizing acc with
  | nil => exact h
  | cons p ps ih =>
    obtain ⟨hp, hps⟩ := List.forall_mem_cons.mp hstep
    have hnext := hp _ _ (applyPosting_effect acc p id) h
    rw [applyPostings]
    rcases heq : applyPosting acc p with ⟨next, _ | e⟩
    · rw [heq] at hnext
      exact ih hps hnext
    · rw [heq] at hnext
      exact hnext

/-- A reservation moves the reserved cash only. -/
theorem applyReservation_sleeve (s : FoldState D) (t : LedgerEventType) (data : Payload)
    (id : String) : ∃ reserved,
      (applyReservation s t data).1.acc.sleeve id = { s.acc.sleeve id with reserved } := by
  have hset : ∀ other reserved, ∃ reserved',
      (s.acc.setSleeve other { s.acc.sleeve other with reserved }).sleeve id =
        { s.acc.sleeve id with reserved := reserved' } := by
    intro other reserved
    rw [sleeve_setSleeve]
    split_ifs with hid
    · exact ⟨reserved, by rw [hid]⟩
    · exact ⟨_, rfl⟩
  unfold applyReservation
  split
  · exact ⟨_, rfl⟩
  · split_ifs
    · unfold reserve
      split_ifs
      · exact ⟨_, rfl⟩
      · split
        · exact ⟨_, rfl⟩
        · rename_i sleeve hsleeve
          cases parse (D := D) (data.get "reserved").pyStr with
          | error e => exact ⟨_, rfl⟩
          | ok amount =>
            simp only [Attempt.guarded_ok]
            cases add (s.acc.sleeve sleeve.pyStr).reserved amount with
            | error e => exact hset sleeve.pyStr _
            | ok reserved => exact hset sleeve.pyStr _
    · simp only [release]
      split
      · exact ⟨_, rfl⟩
      · rename_i other amount hentry
        cases sub (s.acc.sleeve other).reserved amount with
        | error e => exact hset other _
        | ok reserved => exact hset other _
    · exact ⟨_, rfl⟩

end Effects

/-! ## Rounded sleeves -/

/-- A finite number that the context represents. -/
def Decimal.Rounded (x : Decimal) : Prop := x.isFinite → defaultContext.Fits x.toRat

theorem Decimal.rounded_zero : (zero : Decimal).Rounded := fun _ => by
  rw [show (zero : Decimal).toRat = 0 from Decimal.toRat_eq_zero.mpr rfl]
  exact Context.fits_zero defaultContext_range

theorem Decimal.rounded_add {x y z : Decimal} (h : Arithmetic.add x y = .ok z) : z.Rounded := by
  intro hz
  obtain ⟨hx, hy⟩ := Decimal.isFinite_of_add h hz
  exact (Decimal.add_fits defaultContext_range hx hy h).2

structure SleeveProjection.Rounded (s : SleeveProjection Decimal) : Prop where
  cash : s.cash.Rounded
  qty : ∀ symbol, (s.position symbol).qty.Rounded
  costBasis : ∀ symbol, (s.position symbol).costBasis.Rounded

theorem SleeveProjection.rounded_empty : (SleeveProjection.empty (D := Decimal)).Rounded :=
  ⟨Decimal.rounded_zero, fun _ => Decimal.rounded_zero, fun _ => Decimal.rounded_zero⟩

theorem SleeveProjection.Rounded.setPosition {s : SleeveProjection Decimal} (h : s.Rounded)
    {symbol : String} {pos : PositionState Decimal} (hqty : pos.qty.Rounded)
    (hcost : pos.costBasis.Rounded) : (s.setPosition symbol pos).Rounded := by
  refine ⟨h.cash, fun sy => ?_, fun sy => ?_⟩
  · rw [position_setPosition]
    split_ifs
    · exact hqty
    · exact h.qty sy
  · rw [position_setPosition]
    split_ifs
    · exact hcost
    · exact h.costBasis sy

theorem SleeveProjection.Rounded.leg {s s' : SleeveProjection Decimal} {p : Posting Decimal}
    (heffect : LegEffect s p s') (h : s.Rounded) : s'.Rounded := by
  cases heffect with
  | same => exact h
  | cash _ hadd => exact ⟨Decimal.rounded_add hadd, h.qty, h.costBasis⟩
  | pnl => exact ⟨h.cash, h.qty, h.costBasis⟩
  | touched symbol => exact h.setPosition (h.qty symbol) (h.costBasis symbol)
  | cost hcost => exact h.setPosition (h.qty _) (Decimal.rounded_add hcost)
  | moved hcost hqty => exact h.setPosition (Decimal.rounded_add hqty) (Decimal.rounded_add hcost)

theorem applyPostings_rounded {acc : AccountProjection Decimal} {id : String}
    (h : (acc.sleeve id).Rounded) (ps : List (Posting Decimal)) :
    ((applyPostings acc ps).1.sleeve id).Rounded :=
  applyPostings_induction (fun _ _ _ _ heffect hs => hs.leg heffect) h

theorem foldEvent_rounded {s : FoldState Decimal} {id : String} (h : (s.acc.sleeve id).Rounded)
    (ev : LedgerEvent) : ((foldEvent s ev).acc.sleeve id).Rounded := by
  rw [foldEvent_acc_sleeve]
  unfold applyEvent
  cases LedgerEventType.coerce ev.eventType with
  | error e => exact h
  | ok t =>
    rw [Attempt.guarded_ok]
    cases validatedPostings (D := Decimal) t ev.data with
    | error e => exact h
    | ok postings =>
      obtain ⟨reserved, hreserved⟩ := applyReservation_sleeve s t ev.data id
      have hnext : ((applyReservation s t ev.data).1.acc.sleeve id).Rounded := by
        rw [hreserved]
        exact ⟨h.cash, h.qty, h.costBasis⟩
      rw [Attempt.guarded_ok]
      rcases hres : applyReservation s t ev.data with ⟨s₁, _ | e⟩
      · rw [hres] at hnext
        exact applyPostings_rounded hnext postings
      · rw [hres] at hnext
        exact hnext

theorem foldInto_rounded {s : FoldState Decimal} {id : String} (h : (s.acc.sleeve id).Rounded)
    (events : List LedgerEvent) : ((foldInto s events).acc.sleeve id).Rounded := by
  induction events generalizing s with
  | nil => exact h
  | cons ev events ih =>
    rw [foldInto_cons]
    exact ih (foldEvent_rounded h ev)

theorem fold_rounded (events : List LedgerEvent) (id : String) :
    ((fold (D := Decimal) events).sleeve id).Rounded := by
  apply foldInto_rounded
  exact SleeveProjection.rounded_empty

end LlamaTrade
