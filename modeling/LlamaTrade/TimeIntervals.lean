import Mathlib.Data.List.Sort
import Mathlib.Data.Prod.Lex
import Mathlib.Order.Lattice
import Mathlib.Order.MinMax

/-!
# Time intervals

Half-open intervals of time (`store/intervals.py`): covered intervals are merged into a sorted list
with a gap between any two, and the parts of a window that they leave uncovered are what is still to
be fetched. Times are any linearly ordered type.
-/

namespace LlamaTrade

variable {T : Type} [LinearOrder T]

/-- `[start, end)`. -/
abbrev Interval (T : Type) := T × T

namespace Interval

def Contains (i : Interval T) (t : T) : Prop := i.1 ≤ t ∧ t < i.2

/-- A point of one of the intervals. -/
def Covers (is : List (Interval T)) (t : T) : Prop := ∃ i ∈ is, i.Contains t

/-- Intervals that are not empty, in order and with a gap between any two. -/
structure Separated (is : List (Interval T)) : Prop where
  nonempty : ∀ i ∈ is, i.1 < i.2
  apart : is.Pairwise fun i j => i.2 < j.1

/-- The order of tuples. -/
def lexLe (i j : Interval T) : Prop := toLex i ≤ toLex j

instance (i j : Interval T) : Decidable (lexLe i j) := inferInstanceAs (Decidable (toLex i ≤ toLex j))

/-- The loop of `merge`, with the last interval of the result so far. -/
def mergeFrom (last : Interval T) : List (Interval T) → List (Interval T)
  | [] => [last]
  | i :: is =>
    if i.1 ≤ last.2 then mergeFrom (if i.2 > last.2 then (last.1, i.2) else last) is
    else last :: mergeFrom i is

/-- `merge`. -/
def merge (intervals : List (Interval T)) : List (Interval T) :=
  match (intervals.filter fun i => i.1 < i.2).insertionSort lexLe with
  | [] => []
  | i :: is => mergeFrom i is

/-- What is left of the window behind the cursor. -/
def lastGap (cursor wholeEnd : T) : List (Interval T) :=
  if cursor < wholeEnd then [(cursor, wholeEnd)] else []

/-- The loop of `subtract`. -/
def gapsFrom (cursor wholeEnd : T) : List (Interval T) → List (Interval T)
  | [] => lastGap cursor wholeEnd
  | i :: is =>
    if i.2 ≤ cursor then gapsFrom cursor wholeEnd is
    else if i.1 ≥ wholeEnd then lastGap cursor wholeEnd
    else
      let gap := if i.1 > cursor then [(cursor, min i.1 wholeEnd)] else []
      let next := max cursor i.2
      gap ++ if next ≥ wholeEnd then lastGap next wholeEnd else gapsFrom next wholeEnd is

/-- `subtract`. -/
def subtract (whole : Interval T) (covered : List (Interval T)) : List (Interval T) :=
  if whole.1 ≥ whole.2 then [] else gapsFrom whole.1 whole.2 (merge covered)

/-! ## Merging -/

theorem covers_cons (i : Interval T) (is : List (Interval T)) (t : T) :
    Covers (i :: is) t ↔ i.Contains t ∨ Covers is t := by
  simp [Covers]

theorem Separated.cons {i : Interval T} {is : List (Interval T)} (hi : i.1 < i.2)
    (hgap : ∀ j ∈ is, i.2 < j.1) (h : Separated is) : Separated (i :: is) :=
  ⟨List.forall_mem_cons.mpr ⟨hi, h.nonempty⟩, List.pairwise_cons.mpr ⟨hgap, h.apart⟩⟩

theorem Separated.tail {i : Interval T} {is : List (Interval T)} (h : Separated (i :: is)) :
    Separated is :=
  ⟨(List.forall_mem_cons.mp h.nonempty).2, (List.pairwise_cons.mp h.apart).2⟩

/-- The loop keeps the points and begins where the last interval does. -/
theorem mergeFrom_spec {last : Interval T} {is : List (Interval T)} (hlast : last.1 < last.2)
    (hne : ∀ i ∈ is, i.1 < i.2) (hfrom : ∀ i ∈ is, last.1 ≤ i.1)
    (hsorted : is.Pairwise fun i j => i.1 ≤ j.1) :
    Separated (mergeFrom last is) ∧ (∀ i ∈ mergeFrom last is, last.1 ≤ i.1) ∧
      ∀ t, Covers (mergeFrom last is) t ↔ last.Contains t ∨ Covers is t := by
  induction is generalizing last with
  | nil =>
    refine ⟨⟨by simpa [mergeFrom] using hlast, List.pairwise_singleton _ _⟩, ?_, fun t => ?_⟩
    · simp [mergeFrom]
    · rw [mergeFrom, covers_cons]
  | cons i is ih =>
    rw [List.forall_mem_cons] at hne hfrom
    rw [List.pairwise_cons] at hsorted
    unfold mergeFrom
    by_cases htouch : i.1 ≤ last.2
    · rw [if_pos htouch]
      by_cases hlonger : i.2 > last.2
      · rw [if_pos hlonger]
        obtain ⟨hsep, hstart, hcovers⟩ :=
          @ih (last.1, i.2) (hlast.trans hlonger) hne.2 hfrom.2 hsorted.2
        refine ⟨hsep, hstart, fun t => ?_⟩
        rw [hcovers, covers_cons, ← or_assoc]
        refine or_congr_left ⟨fun ht => ?_, fun ht => ?_⟩
        · rcases lt_or_ge t last.2 with hlt | hge
          · exact .inl ⟨ht.1, hlt⟩
          · exact .inr ⟨htouch.trans hge, ht.2⟩
        · rcases ht with ht | ht
          · exact ⟨ht.1, ht.2.trans hlonger⟩
          · exact ⟨hfrom.1.trans ht.1, ht.2⟩
      · rw [if_neg hlonger]
        obtain ⟨hsep, hstart, hcovers⟩ := ih hlast hne.2 hfrom.2 hsorted.2
        refine ⟨hsep, hstart, fun t => ?_⟩
        rw [hcovers, covers_cons, ← or_assoc]
        refine or_congr_left ⟨.inl, fun ht => ht.elim id fun ht => ?_⟩
        exact ⟨hfrom.1.trans ht.1, ht.2.trans_le (not_lt.mp hlonger)⟩
    · rw [if_neg htouch]
      obtain ⟨hsep, hstart, hcovers⟩ := ih hne.1 hne.2 hsorted.1 hsorted.2
      refine ⟨hsep.cons hlast fun j hj => (not_le.mp htouch).trans_le (hstart j hj), ?_, fun t => ?_⟩
      · exact List.forall_mem_cons.mpr ⟨le_rfl, fun j hj => hfrom.1.trans (hstart j hj)⟩
      · rw [covers_cons, hcovers, covers_cons]

instance : Std.Total (lexLe (T := T)) := ⟨fun i j => le_total (toLex i) (toLex j)⟩

instance : IsTrans (Interval T) lexLe := ⟨fun _ _ _ => le_trans⟩

/-- Merging keeps the points, in separated intervals. -/
theorem merge_spec (intervals : List (Interval T)) :
    Separated (merge intervals) ∧ ∀ t, Covers (merge intervals) t ↔ Covers intervals t := by
  have hcovers : ∀ t, Covers ((intervals.filter fun i => i.1 < i.2).insertionSort lexLe) t ↔
      Covers intervals t := by
    intro t
    simp only [Covers, List.mem_insertionSort, List.mem_filter, decide_eq_true_eq]
    refine exists_congr fun i => ⟨fun h => ⟨h.1.1, h.2⟩, fun h => ⟨⟨h.1, ?_⟩, h.2⟩⟩
    exact h.2.1.trans_lt h.2.2
  have hne : ∀ i ∈ (intervals.filter fun i => i.1 < i.2).insertionSort lexLe, i.1 < i.2 := by
    intro i hi
    rw [List.mem_insertionSort, List.mem_filter] at hi
    exact of_decide_eq_true hi.2
  have hsorted : ((intervals.filter fun i => i.1 < i.2).insertionSort lexLe).Pairwise
      fun i j => i.1 ≤ j.1 := by
    refine (List.pairwise_insertionSort lexLe _).imp fun {i j} h => ?_
    exact (Prod.Lex.toLex_le_toLex.mp h).elim le_of_lt fun h => le_of_eq h.1
  unfold merge
  simp only [← hcovers]
  cases hitems : (intervals.filter fun i => i.1 < i.2).insertionSort lexLe with
  | nil => exact ⟨⟨by simp, List.Pairwise.nil⟩, fun _ => Iff.rfl⟩
  | cons i is =>
    rw [hitems] at hne hsorted
    rw [List.forall_mem_cons] at hne
    rw [List.pairwise_cons] at hsorted
    obtain ⟨hsep, -, hmerged⟩ := mergeFrom_spec hne.1 hne.2 hsorted.1 hsorted.2
    exact ⟨hsep, fun t => by rw [hmerged, covers_cons]⟩

/-! ## Gaps -/

theorem separated_lastGap (cursor wholeEnd : T) : Separated (lastGap cursor wholeEnd) := by
  unfold lastGap
  split_ifs with h
  · exact ⟨by simpa using h, List.pairwise_singleton _ _⟩
  · exact ⟨by simp, List.Pairwise.nil⟩

theorem covers_lastGap (cursor wholeEnd t : T) :
    Covers (lastGap cursor wholeEnd) t ↔ cursor ≤ t ∧ t < wholeEnd := by
  unfold lastGap
  split_ifs with h
  · simp [Covers, Contains]
  · simpa [Covers] using fun hle => (not_lt.mp h).trans hle

theorem start_lastGap {cursor wholeEnd : T} : ∀ i ∈ lastGap cursor wholeEnd, cursor ≤ i.1 := by
  intro i hi
  unfold lastGap at hi
  split_ifs at hi
  · rw [List.mem_singleton.mp hi]
  · cases hi

/-- The gaps behind the cursor are what the covered intervals leave. -/
theorem gapsFrom_spec (cursor wholeEnd : T) {is : List (Interval T)} (h : Separated is) :
    Separated (gapsFrom cursor wholeEnd is) ∧
      (∀ i ∈ gapsFrom cursor wholeEnd is, cursor ≤ i.1) ∧
      ∀ t, Covers (gapsFrom cursor wholeEnd is) t ↔ (cursor ≤ t ∧ t < wholeEnd) ∧ ¬ Covers is t := by
  induction is generalizing cursor with
  | nil =>
    refine ⟨separated_lastGap .., start_lastGap, fun t => ?_⟩
    rw [gapsFrom, covers_lastGap]
    simp [Covers]
  | cons i is ih =>
    have hi : i.1 < i.2 := h.nonempty i List.mem_cons_self
    have hlater : ∀ t, Covers is t → i.2 < t := by
      rintro t ⟨j, hj, ht⟩
      exact ((List.pairwise_cons.mp h.apart).1 j hj).trans_le ht.1
    simp only [covers_cons, not_or]
    unfold gapsFrom
    by_cases hpast : i.2 ≤ cursor
    · rw [if_pos hpast]
      obtain ⟨hsep, hstart, hcovers⟩ := ih cursor h.tail
      refine ⟨hsep, hstart, fun t => ?_⟩
      rw [hcovers]
      refine and_congr_right fun ht => (and_iff_right fun hin => ?_).symm
      exact absurd (hpast.trans ht.1) (not_le.mpr hin.2)
    · rw [if_neg hpast]
      by_cases hbeyond : i.1 ≥ wholeEnd
      · rw [if_pos hbeyond]
        refine ⟨separated_lastGap .., start_lastGap, fun t => ?_⟩
        rw [covers_lastGap]
        refine (and_iff_left_of_imp fun ht => ⟨fun hin => ?_, fun hin => ?_⟩).symm
        · exact absurd (hbeyond.trans hin.1) (not_le.mpr ht.2)
        · exact absurd (hbeyond.trans (hi.trans (hlater t hin)).le) (not_le.mpr ht.2)
      · rw [if_neg hbeyond]
        dsimp only
        rw [min_eq_left (not_le.mp hbeyond).le]
        -- what the loop does behind the covered interval
        obtain ⟨hsep, hstart, hcovers⟩ : ∃ hsep : Separated (if max cursor i.2 ≥ wholeEnd then
              lastGap (max cursor i.2) wholeEnd else gapsFrom (max cursor i.2) wholeEnd is),
            (∀ j ∈ if max cursor i.2 ≥ wholeEnd then lastGap (max cursor i.2) wholeEnd
              else gapsFrom (max cursor i.2) wholeEnd is, max cursor i.2 ≤ j.1) ∧
            ∀ t, Covers (if max cursor i.2 ≥ wholeEnd then lastGap (max cursor i.2) wholeEnd
              else gapsFrom (max cursor i.2) wholeEnd is) t ↔
                (max cursor i.2 ≤ t ∧ t < wholeEnd) ∧ ¬ Covers is t := by
          by_cases hend : max cursor i.2 ≥ wholeEnd
          · rw [if_pos hend]
            refine ⟨separated_lastGap .., start_lastGap, fun t => ?_⟩
            rw [covers_lastGap]
            refine (and_iff_left_of_imp fun ht => ?_).symm
            exact absurd (hend.trans ht.1) (not_le.mpr ht.2)
          · rw [if_neg hend]
            exact ⟨(ih _ h.tail).1, (ih _ h.tail).2⟩
        generalize (if max cursor i.2 ≥ wholeEnd then lastGap (max cursor i.2) wholeEnd
          else gapsFrom (max cursor i.2) wholeEnd is) = rest at hsep hstart hcovers ⊢
        have hpoints : ∀ t, (cursor ≤ t ∧ t < i.1) ∨ Covers rest t ↔
            (cursor ≤ t ∧ t < wholeEnd) ∧ ¬ i.Contains t ∧ ¬ Covers is t := by
          intro t
          rw [hcovers, max_le_iff]
          constructor
          · rintro (⟨hle, hlt⟩ | ⟨⟨⟨hle, hge⟩, hlt⟩, hnot⟩)
            · refine ⟨⟨hle, hlt.trans (not_le.mp hbeyond)⟩, fun hin => ?_, fun hin => ?_⟩
              · exact absurd hin.1 (not_le.mpr hlt)
              · exact absurd ((hlt.trans hi).trans (hlater t hin)) (lt_irrefl t)
            · exact ⟨⟨hle, hlt⟩, fun hin => absurd hge (not_le.mpr hin.2), hnot⟩
          · rintro ⟨⟨hle, hlt⟩, hout, hnot⟩
            rcases lt_or_ge t i.1 with hbefore | hafter
            · exact .inl ⟨hle, hbefore⟩
            · exact .inr ⟨⟨⟨hle, not_lt.mp fun hin => hout ⟨hafter, hin⟩⟩, hlt⟩, hnot⟩
        by_cases hgap : i.1 > cursor
        · rw [if_pos hgap, List.singleton_append]
          have hrest : ∀ j ∈ rest, i.1 < j.1 := fun j hj =>
            (hi.trans_le (le_max_right _ _)).trans_le (hstart j hj)
          refine ⟨hsep.cons hgap hrest, ?_, fun t => ?_⟩
          · exact List.forall_mem_cons.mpr ⟨le_rfl, fun j hj => (hgap.trans (hrest j hj)).le⟩
          · rw [covers_cons, ← hpoints]
            rfl
        · rw [if_neg hgap, List.nil_append]
          refine ⟨hsep, fun j hj => (le_max_left _ _).trans (hstart j hj), fun t => ?_⟩
          rw [← hpoints]
          refine (or_iff_right fun ht => ?_).symm
          exact hgap (ht.1.trans_lt ht.2)

/-- Subtracting leaves exactly the points of the window that no covered interval has, in separated
intervals; merging keeps the points of its intervals. -/
theorem subtract_merge_exact (whole : Interval T) (covered : List (Interval T)) :
    (Separated (subtract whole covered) ∧
      ∀ t, Covers (subtract whole covered) t ↔ whole.Contains t ∧ ¬ Covers covered t) ∧
    Separated (merge covered) ∧ ∀ t, Covers (merge covered) t ↔ Covers covered t := by
  obtain ⟨hsep, hcovers⟩ := merge_spec covered
  refine ⟨?_, hsep, hcovers⟩
  unfold subtract
  by_cases hempty : whole.1 ≥ whole.2
  · rw [if_pos hempty]
    refine ⟨⟨by simp, List.Pairwise.nil⟩, fun t => ?_⟩
    simpa [Covers, Contains] using fun hle hlt => absurd (hempty.trans hle) (not_le.mpr hlt)
  · rw [if_neg hempty]
    obtain ⟨hgaps, -, hpoints⟩ := gapsFrom_spec whole.1 whole.2 hsep
    refine ⟨hgaps, fun t => ?_⟩
    rw [hpoints, hcovers]
    rfl

example : subtract (0, 10) [(7, 12), (2, 4), (3, 5), (5, 5), (9, 8)] = [(0, 2), (5, 7)] := by decide

end Interval

end LlamaTrade
