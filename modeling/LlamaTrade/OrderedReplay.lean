import Mathlib.Data.List.Basic
import Mathlib.Order.Basic
import Mathlib.Order.Lattice

/-!
# Replay in order

Updates with a linear order among them, such as the order in which they were made, are carried out
one at a time in some other order, some of them twice. As long as an update commutes with the later
ones that were carried out before it, the state is the one that the updates carried out so far give
in their own order.
-/

namespace Replay

variable {σ ι : Type} (apply : σ → ι → σ)

/-- The two updates may be exchanged. -/
def Commutes (i j : ι) : Prop := ∀ s, apply (apply s i) j = apply (apply s j) i

variable {apply} {i : ι}

/-- An update that commutes with all that follow may be carried out last. -/
theorem foldl_comm {is : List ι} (h : ∀ j ∈ is, Commutes apply i j) (s : σ) :
    is.foldl apply (apply s i) = apply (is.foldl apply s) i := by
  induction is generalizing s with
  | nil => rfl
  | cons j is ih =>
    rw [List.foldl_cons, List.foldl_cons, h j List.mem_cons_self s]
    exact ih (fun k hk => h k (.tail _ hk)) (apply s j)

/-- One more update, in its place among those that were carried out, or carried out again. -/
theorem foldl_filter_insert [LinearOrder ι] {is : List ι} (hsorted : is.Pairwise (· < ·))
    (hmem : i ∈ is) (hagain : ∀ s, apply (apply s i) i = apply s i) {done : ι → Bool}
    (hcomm : ∀ j ∈ is, i < j → done j = true → Commutes apply i j) (s : σ) :
    (is.filter fun j => decide (j = i) || done j).foldl apply s =
      apply ((is.filter done).foldl apply s) i := by
  induction is generalizing s with
  | nil => cases hmem
  | cons a is ih =>
    obtain ⟨hfirst, hsorted⟩ := List.pairwise_cons.mp hsorted
    by_cases ha : a = i
    · subst ha
      have hrest : (is.filter fun j => decide (j = a) || done j) = is.filter done := by
        refine List.filter_congr fun j hj => ?_
        simp [(hfirst j hj).ne']
      have hlast : ∀ j ∈ is.filter done, Commutes apply a j := fun j hj =>
        hcomm j (.tail _ (List.mem_filter.mp hj).1) (hfirst j (List.mem_filter.mp hj).1)
          (List.mem_filter.mp hj).2
      rw [List.filter_cons_of_pos (by simp), hrest, List.foldl_cons]
      by_cases hdone : done a = true
      · rw [List.filter_cons_of_pos hdone, List.foldl_cons, ← foldl_comm hlast, hagain]
      · rw [List.filter_cons_of_neg hdone, foldl_comm hlast]
    · have hmem' : i ∈ is := (List.mem_cons.mp hmem).resolve_left (Ne.symm ha)
      have hrest := ih hsorted hmem' fun j hj => hcomm j (.tail _ hj)
      by_cases hdone : done a = true
      · rw [List.filter_cons_of_pos (by simp [hdone]), List.filter_cons_of_pos hdone,
          List.foldl_cons, List.foldl_cons]
        exact hrest (apply s a)
      · rw [List.filter_cons_of_neg (by simp [ha, hdone]), List.filter_cons_of_neg hdone]
        exact hrest s

end Replay
