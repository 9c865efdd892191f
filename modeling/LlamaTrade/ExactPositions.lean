import LlamaTrade.LotBook
import Mathlib.Algebra.BigOperators.Group.List.Basic

/-!
# Positions in exact arithmetic

With exact numbers no addition raises, so the balance fold adds to each position the
sum of the position legs of an event that name it. Reservations move no positions.
-/

namespace LlamaTrade

section Positions

variable {D : Type} [Arithmetic D]

def AccountProjection.positionOf (acc : AccountProjection D) (sleeve symbol : String) :
    PositionState D :=
  (acc.sleeve sleeve).position symbol

theorem sleeve_setSleeve (acc : AccountProjection D) (id sleeve : String)
    (s : SleeveProjection D) :
    (acc.setSleeve id s).sleeve sleeve = if sleeve = id then s else acc.sleeve sleeve := by
  unfold AccountProjection.sleeve AccountProjection.setSleeve
  rw [Std.ExtTreeMap.getD_insert]
  by_cases h : sleeve = id
  · simp [h]
  · simp [h, Ne.symm h]

theorem position_setPosition (s : SleeveProjection D) (symbol sy : String)
    (p : PositionState D) :
    (s.setPosition symbol p).position sy = if sy = symbol then p else s.position sy := by
  unfold SleeveProjection.position SleeveProjection.setPosition
  rw [Std.ExtTreeMap.getD_insert]
  by_cases h : sy = symbol
  · simp [h]
  · simp [h, Ne.symm h]

theorem positionOf_setSleeve (acc : AccountProjection D) (id sleeve symbol : String)
    (s : SleeveProjection D) :
    (acc.setSleeve id s).positionOf sleeve symbol =
      if sleeve = id then s.position symbol else acc.positionOf sleeve symbol := by
  unfold AccountProjection.positionOf
  rw [sleeve_setSleeve]
  by_cases h : sleeve = id <;> simp [h]

/-- Storing a sleeve with unchanged positions moves no position. -/
theorem positionOf_setSleeve_same (acc : AccountProjection D) (id sleeve symbol : String)
    {s : SleeveProjection D} (h : s.positions = (acc.sleeve id).positions) :
    (acc.setSleeve id s).positionOf sleeve symbol = acc.positionOf sleeve symbol := by
  rw [positionOf_setSleeve]
  split_ifs with hid
  · subst hid
    simp [AccountProjection.positionOf, SleeveProjection.position, h]
  · rfl

theorem reserve_positionOf (s : FoldState D) (coid : String) (data : Payload)
    (sleeve symbol : String) :
    (reserve s coid data).1.acc.positionOf sleeve symbol = s.acc.positionOf sleeve symbol := by
  unfold reserve
  split_ifs
  · rfl
  · split
    · rfl
    · rename_i id _
      cases Arithmetic.parse (D := D) (data.get "reserved").pyStr with
      | error e => rfl
      | ok amount =>
        simp only [Attempt.guarded_ok]
        cases Arithmetic.add (s.acc.sleeve id.pyStr).reserved amount with
        | error e => exact positionOf_setSleeve_same _ _ _ _ rfl
        | ok reserved => exact positionOf_setSleeve_same _ _ _ _ rfl

theorem release_positionOf (s : FoldState D) (coid sleeve symbol : String) :
    (release s coid).1.acc.positionOf sleeve symbol = s.acc.positionOf sleeve symbol := by
  simp only [release]
  split
  · rfl
  · rename_i id amount _
    cases Arithmetic.sub (s.acc.sleeve id).reserved amount with
    | error e => exact positionOf_setSleeve_same s.acc id _ _ rfl
    | ok reserved => exact positionOf_setSleeve_same s.acc id _ _ rfl

theorem applyReservation_positionOf (s : FoldState D) (t : LedgerEventType) (data : Payload)
    (sleeve symbol : String) :
    (applyReservation s t data).1.acc.positionOf sleeve symbol =
      s.acc.positionOf sleeve symbol := by
  unfold applyReservation
  split
  · rfl
  · split_ifs
    · exact reserve_positionOf _ _ _ _ _
    · exact release_positionOf _ _ _ _
    · rfl

end Positions

/-! ## Exact legs -/

section Exact

variable {acc : AccountProjection ℚ} {sleeve symbol : String}

/-- The leg moves the position of the given sleeve and symbol. -/
def Posting.Moves (p : Posting ℚ) (sleeve symbol : String) : Prop :=
  p.bucket = .position ∧ p.sleeveId = some sleeve ∧ p.symbol = some symbol

instance (p : Posting ℚ) (sleeve symbol : String) : Decidable (p.Moves sleeve symbol) :=
  inferInstanceAs (Decidable (_ ∧ _))

def legQty (sleeve symbol : String) (p : Posting ℚ) : ℚ :=
  if p.Moves sleeve symbol then p.qty.getD 0 else 0

def legCost (sleeve symbol : String) (p : Posting ℚ) : ℚ :=
  if p.Moves sleeve symbol then p.amount else 0

theorem legs_of_not_moves {p : Posting ℚ} (h : ¬ p.Moves sleeve symbol) :
    legQty sleeve symbol p = 0 ∧ legCost sleeve symbol p = 0 := by
  simp [legQty, legCost, h]

/-- One leg never raises and moves the position it names. -/
theorem applyPosting_exact (acc : AccountProjection ℚ) (p : Posting ℚ) (sleeve symbol : String) :
    (applyPosting acc p).2 = none ∧
      (applyPosting acc p).1.positionOf sleeve symbol =
        ⟨(acc.positionOf sleeve symbol).qty + legQty sleeve symbol p,
          (acc.positionOf sleeve symbol).costBasis + legCost sleeve symbol p⟩ := by
  have hkeep : ∀ acc' : AccountProjection ℚ, ¬ p.Moves sleeve symbol →
      acc'.positionOf sleeve symbol = acc.positionOf sleeve symbol →
      acc'.positionOf sleeve symbol =
        ⟨(acc.positionOf sleeve symbol).qty + legQty sleeve symbol p,
          (acc.positionOf sleeve symbol).costBasis + legCost sleeve symbol p⟩ := by
    intro acc' hmoves heq
    rw [heq, (legs_of_not_moves hmoves).1, (legs_of_not_moves hmoves).2, add_zero, add_zero]
  obtain ⟨sleeveId, bucket, amount, sym, qty⟩ := p
  cases sleeveId with
  | none => exact ⟨rfl, hkeep acc (by simp [Posting.Moves]) rfl⟩
  | some id =>
    have hsame : ∀ s : SleeveProjection ℚ, s.positions = (acc.sleeve id).positions →
        ((acc.setSleeve id (acc.sleeve id)).setSleeve id s).positionOf sleeve symbol =
          acc.positionOf sleeve symbol := by
      intro s hs
      rw [positionOf_setSleeve_same _ _ _ _ (by rw [hs, sleeve_setSleeve, if_pos rfl]),
        positionOf_setSleeve_same _ _ _ _ rfl]
    cases bucket with
    | cash => exact ⟨rfl, hkeep _ (by simp [Posting.Moves]) (hsame _ rfl)⟩
    | pnl => exact ⟨rfl, hkeep _ (by simp [Posting.Moves]) (hsame _ rfl)⟩
    | external =>
      exact ⟨rfl, hkeep _ (by simp [Posting.Moves]) (positionOf_setSleeve_same _ _ _ _ rfl)⟩
    | position =>
      cases sym with
      | none =>
        exact ⟨rfl, hkeep _ (by simp [Posting.Moves]) (positionOf_setSleeve_same _ _ _ _ rfl)⟩
      | some sy =>
        have hstep : ∃ acc₁ : AccountProjection ℚ,
            (∀ sl, sl ≠ id → acc₁.sleeve sl = acc.sleeve sl) ∧
            applyPosting acc ⟨some id, .position, amount, some sy, qty⟩ =
              (acc₁.setSleeve id ((acc.sleeve id).setPosition sy
                ⟨((acc.sleeve id).position sy).qty + qty.getD 0,
                  ((acc.sleeve id).position sy).costBasis + amount⟩), none) := by
          cases qty with
          | none =>
            refine ⟨(acc.setSleeve id (acc.sleeve id)).setSleeve id _, ?_, by
              simp [applyPosting, add_zero]; rfl⟩
            intro sl hsl
            rw [sleeve_setSleeve, if_neg hsl, sleeve_setSleeve, if_neg hsl]
          | some q =>
            refine ⟨((acc.setSleeve id (acc.sleeve id)).setSleeve id _).setSleeve id _, ?_, rfl⟩
            intro sl hsl
            rw [sleeve_setSleeve, if_neg hsl, sleeve_setSleeve, if_neg hsl, sleeve_setSleeve,
              if_neg hsl]
        obtain ⟨acc₁, hother, hstep⟩ := hstep
        rw [hstep]
        refine ⟨rfl, ?_⟩
        simp only [positionOf_setSleeve, position_setPosition]
        by_cases hsl : sleeve = id
        · by_cases hsy : symbol = sy
          · simp [hsl, hsy, legQty, legCost, Posting.Moves, AccountProjection.positionOf]
          · have hmoves : ¬ (⟨some id, .position, amount, some sy, qty⟩ : Posting ℚ).Moves
                sleeve symbol := by simp [Posting.Moves, Ne.symm hsy]
            rw [(legs_of_not_moves hmoves).1, (legs_of_not_moves hmoves).2]
            simp [hsl, hsy, AccountProjection.positionOf]
        · have hmoves : ¬ (⟨some id, .position, amount, some sy, qty⟩ : Posting ℚ).Moves
              sleeve symbol := by simp [Posting.Moves, Ne.symm hsl]
          rw [(legs_of_not_moves hmoves).1, (legs_of_not_moves hmoves).2]
          simp [hsl, AccountProjection.positionOf, hother]

/-- The legs of an event never raise and add up on each position. -/
theorem applyPostings_exact (acc : AccountProjection ℚ) (ps : List (Posting ℚ))
    (sleeve symbol : String) :
    (applyPostings acc ps).2 = none ∧
      (applyPostings acc ps).1.positionOf sleeve symbol =
        ⟨(acc.positionOf sleeve symbol).qty + (ps.map (legQty sleeve symbol)).sum,
          (acc.positionOf sleeve symbol).costBasis + (ps.map (legCost sleeve symbol)).sum⟩ := by
  induction ps generalizing acc with
  | nil => simp [applyPostings]
  | cons p ps ih =>
    obtain ⟨hnone, hpos⟩ := applyPosting_exact acc p sleeve symbol
    have hpair : applyPosting acc p = ((applyPosting acc p).1, none) := by rw [← hnone]
    rw [applyPostings, hpair, Attempt.andThen_none]
    refine ⟨(ih _).1, ?_⟩
    rw [(ih _).2, hpos]
    simp [add_assoc]

theorem release_exact (s : FoldState ℚ) (coid : String) : (release s coid).2 = none := by
  simp only [release]
  split
  · rfl
  · rfl

/-- Only a submission, which has no legs, can raise while reserving. -/
theorem applyReservation_exact (s : FoldState ℚ) {t : LedgerEventType} (data : Payload)
    (h : t ≠ .orderSubmitted) : (applyReservation s t data).2 = none := by
  unfold applyReservation
  split
  · rfl
  · rw [if_neg (fun hsub => h hsub.1)]
    split_ifs
    · exact release_exact _ _
    · rfl

/-- The legs by which an event moves balances: none when it is skipped. -/
def eventLegs (ev : LedgerEvent) : List (Posting ℚ) :=
  match LedgerEventType.coerce ev.eventType with
  | .error _ => []
  | .ok t =>
    match validatedPostings t ev.data with
    | .error _ => []
    | .ok postings => postings

theorem foldEvent_acc_positionOf (s : FoldState ℚ) (ev : LedgerEvent) (sleeve symbol : String) :
    (foldEvent s ev).acc.positionOf sleeve symbol =
      (applyEvent s ev).1.acc.positionOf sleeve symbol := by
  unfold foldEvent
  obtain ⟨s₁, err⟩ := applyEvent s ev
  cases err <;> rfl

theorem foldEvent_positionOf (s : FoldState ℚ) (ev : LedgerEvent) (sleeve symbol : String) :
    (foldEvent s ev).acc.positionOf sleeve symbol =
      ⟨(s.acc.positionOf sleeve symbol).qty + ((eventLegs ev).map (legQty sleeve symbol)).sum,
        (s.acc.positionOf sleeve symbol).costBasis +
          ((eventLegs ev).map (legCost sleeve symbol)).sum⟩ := by
  rw [foldEvent_acc_positionOf]
  unfold applyEvent eventLegs
  cases ht : LedgerEventType.coerce ev.eventType with
  | error e => simp
  | ok t =>
    cases hp : validatedPostings (D := ℚ) t ev.data with
    | error e => simp [hp]
    | ok postings =>
      simp only [Attempt.guarded_ok, hp]
      have hpos := applyReservation_positionOf s t ev.data sleeve symbol
      rcases hres : applyReservation s t ev.data with ⟨s₁, _ | e⟩
      · rw [hres] at hpos
        rw [Attempt.andThen_none]
        have happly := (applyPostings_exact s₁.acc postings sleeve symbol).2
        rw [hpos] at happly
        exact happly
      · have hsub : t = .orderSubmitted := by
          by_contra hne
          have hnone := applyReservation_exact s ev.data hne
          rw [hres] at hnone
          cases hnone
        subst hsub
        have hnil : postings = [] := by
          cases hp
          rfl
        rw [hres] at hpos
        simp [hnil, hpos]

end Exact

end LlamaTrade
