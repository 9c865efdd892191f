import LlamaTrade.ExactPositions

/-!
# Counting poison events

The count of poison events goes up by one exactly when an event raises. So a fold that ends
with the count it began with has applied every event on the way.
-/

namespace LlamaTrade

open Arithmetic

section Count

variable {D : Type} [Arithmetic D]

theorem applyPosting_poison (acc : AccountProjection D) (p : Posting D) :
    (applyPosting acc p).1.poisonEvents = acc.poisonEvents := by
  obtain ⟨sleeveId, bucket, amount, symbol, qty⟩ := p
  cases sleeveId with
  | none => rfl
  | some id =>
    unfold applyPosting
    dsimp only
    cases bucket with
    | cash => cases add (acc.sleeve id).cash amount <;> rfl
    | pnl => cases neg amount >>= add (acc.sleeve id).realizedPnl <;> rfl
    | external => rfl
    | position =>
      cases symbol with
      | none => rfl
      | some symbol =>
        dsimp only
        cases add ((acc.sleeve id).position symbol).costBasis amount with
        | error e => rfl
        | ok cost =>
          cases qty with
          | none => rfl
          | some qty =>
            dsimp only [Attempt.guarded_ok]
            cases add ((acc.sleeve id).position symbol).qty qty <;> rfl

theorem applyPostings_poison (acc : AccountProjection D) (ps : List (Posting D)) :
    (applyPostings acc ps).1.poisonEvents = acc.poisonEvents := by
  induction ps generalizing acc with
  | nil => rfl
  | cons p ps ih =>
    have hstep := applyPosting_poison acc p
    rw [applyPostings]
    rcases heq : applyPosting acc p with ⟨next, _ | e⟩
    · rw [heq] at hstep
      exact (ih next).trans hstep
    · rw [heq] at hstep
      exact hstep

theorem applyReservation_poison (s : FoldState D) (t : LedgerEventType) (data : Payload) :
    (applyReservation s t data).1.acc.poisonEvents = s.acc.poisonEvents := by
  unfold applyReservation
  split
  · rfl
  · split_ifs
    · unfold reserve
      split_ifs
      · rfl
      · split
        · rfl
        · rename_i sleeve _
          cases parse (D := D) (data.get "reserved").pyStr with
          | error e => rfl
          | ok amount =>
            simp only [Attempt.guarded_ok]
            cases add (s.acc.sleeve sleeve.pyStr).reserved amount <;> rfl
    · simp only [release]
      split
      · rfl
      · rename_i other amount _
        cases sub (s.acc.sleeve other).reserved amount <;> rfl
    · rfl

theorem applyEvent_poison (s : FoldState D) (ev : LedgerEvent) :
    (applyEvent s ev).1.acc.poisonEvents = s.acc.poisonEvents := by
  unfold applyEvent
  cases LedgerEventType.coerce ev.eventType with
  | error e => rfl
  | ok t =>
    rw [Attempt.guarded_ok]
    cases validatedPostings (D := D) t ev.data with
    | error e => rfl
    | ok postings =>
      have hres := applyReservation_poison s t ev.data
      rw [Attempt.guarded_ok]
      rcases heq : applyReservation s t ev.data with ⟨s₁, _ | e⟩
      · rw [heq] at hres
        exact (applyPostings_poison s₁.acc postings).trans hres
      · rw [heq] at hres
        exact hres

/-- An event is counted as poison exactly when its body raises. -/
theorem foldEvent_poison (s : FoldState D) (ev : LedgerEvent) :
    (foldEvent s ev).acc.poisonEvents =
      s.acc.poisonEvents + if (applyEvent s ev).2 = none then 0 else 1 := by
  have hbody := applyEvent_poison s ev
  unfold foldEvent
  rcases heq : applyEvent s ev with ⟨s₁, _ | e⟩
  · rw [heq] at hbody
    simpa using hbody
  · rw [heq] at hbody
    simpa using hbody

theorem foldInto_poison_le (s : FoldState D) (events : List LedgerEvent) :
    s.acc.poisonEvents ≤ (foldInto s events).acc.poisonEvents := by
  induction events generalizing s with
  | nil => exact le_rfl
  | cons ev events ih =>
    refine le_trans ?_ (ih (foldEvent s ev))
    rw [foldEvent_poison]
    split_ifs <;> omega

/-- A fold without a new poison event has none in its first step and none in the rest. -/
theorem foldInto_clean_cons {s : FoldState D} {ev : LedgerEvent} {events : List LedgerEvent}
    (h : (foldInto s (ev :: events)).acc.poisonEvents = s.acc.poisonEvents) :
    (applyEvent s ev).2 = none ∧ (foldEvent s ev).acc.poisonEvents = s.acc.poisonEvents ∧
      (foldInto (foldEvent s ev) events).acc.poisonEvents = (foldEvent s ev).acc.poisonEvents := by
  rw [foldInto_cons] at h
  have hstep := foldEvent_poison s ev
  have hrest := foldInto_poison_le (foldEvent s ev) events
  split_ifs at hstep with hnone
  · exact ⟨hnone, by omega, by omega⟩
  · omega

end Count

end LlamaTrade
