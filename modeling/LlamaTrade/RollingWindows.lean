import Mathlib.Algebra.BigOperators.Group.List.Basic
import Mathlib.Algebra.Group.Basic

/-!
# Rolling windows

Functions of a list that give one value for each position. A function forgets after `n` elements
when its values from position `n - 1` on do not change if elements are dropped from the front of
the list. A value for each window of fixed length forgets, and so does a rolling function of the
values of one that forgets.
-/

namespace LlamaTrade

variable {α β γ : Type}

/-- One value for each index below `n`. -/
def tabulate (n : ℕ) (f : ℕ → β) : List β := (List.range n).map f

/-- `xs[i - n + 1 : i + 1]`. -/
def windowAt (n i : ℕ) (xs : List α) : List α := (xs.take (i + 1)).drop (i + 1 - n)

/-- A value for each full window of length `n`. -/
def rolling (n : ℕ) (f : List α → Option β) (xs : List α) : List (Option β) :=
  tabulate xs.length fun i => if i + 1 < n then none else f (windowAt n i xs)

/-- `f` gives a value for each element, which from index `n - 1` on does not depend on where the
list begins. -/
structure Forgets (n : ℕ) (f : List α → List β) : Prop where
  length : ∀ xs, (f xs).length = xs.length
  drop : ∀ xs k i, n ≤ i + 1 → i + k < xs.length → (f (xs.drop k))[i]? = (f xs)[i + k]?

theorem getElem?_tabulate {n : ℕ} {f : ℕ → β} {i : ℕ} (h : i < n) :
    (tabulate n f)[i]? = some (f i) := by
  simp [tabulate, h]

@[simp] theorem length_tabulate (n : ℕ) (f : ℕ → β) : (tabulate n f).length = n := by
  simp [tabulate]

theorem windowAt_drop {n i : ℕ} (k : ℕ) (xs : List α) (h : n ≤ i + 1) :
    windowAt n i (xs.drop k) = windowAt n (i + k) xs := by
  rw [windowAt, windowAt, List.take_drop, List.drop_drop]
  congr 2
  · omega
  · omega

theorem windowAt_map (f : α → β) (n i : ℕ) (xs : List α) :
    windowAt n i (xs.map f) = (windowAt n i xs).map f := by
  rw [windowAt, windowAt, List.map_drop, List.map_take]

theorem getElem?_windowAt {n i j : ℕ} (xs : List α) (h : n ≤ i + 1) (hj : j < n) :
    (windowAt n i xs)[j]? = xs[i + 1 - n + j]? := by
  rw [windowAt, List.getElem?_drop, List.getElem?_take_of_lt (by omega)]

theorem getElem?_windowAt_ge {n i j : ℕ} (xs : List α) (h : n ≤ i + 1) (hj : n ≤ j) :
    (windowAt n i xs)[j]? = none := by
  rw [windowAt, List.getElem?_drop, List.getElem?_eq_none]
  rw [List.length_take]
  omega

/-- The function of a list given by an index that forgets. -/
theorem forgets_tabulate {n : ℕ} {f : List α → ℕ → β}
    (h : ∀ xs k i, n ≤ i + 1 → i + k < xs.length → f (xs.drop k) i = f xs (i + k)) :
    Forgets n fun xs => tabulate xs.length (f xs) where
  length xs := length_tabulate ..
  drop xs k i hn hi := by
    have hshort : i < (xs.drop k).length := by
      rw [List.length_drop]
      omega
    rw [getElem?_tabulate hshort, getElem?_tabulate hi, h xs k i hn hi]

theorem forgets_rolling (n : ℕ) (f : List α → Option β) : Forgets n (rolling n f) := by
  refine forgets_tabulate fun xs k i hn hi => ?_
  rw [if_neg (by omega), if_neg (by omega), windowAt_drop k xs hn]

namespace Forgets

variable {n m : ℕ} {f : List α → List β}

theorem mono (h : Forgets n f) (hnm : n ≤ m) : Forgets m f where
  length := h.length
  drop xs k i hm hi := h.drop xs k i (by omega) hi

/-- A function that is pointwise another one. -/
theorem congr {g : List α → List β} (h : Forgets n f) (hlength : ∀ xs, (g xs).length = xs.length)
    (heq : ∀ xs i, n ≤ i + 1 → i < xs.length → (g xs)[i]? = (f xs)[i]?) : Forgets n g where
  length := hlength
  drop xs k i hn hi := by
    have hshort : i < (xs.drop k).length := by
      rw [List.length_drop]
      omega
    rw [heq _ i hn hshort, heq xs (i + k) (by omega) hi, h.drop xs k i hn hi]

theorem comp_map (h : Forgets n f) (g : γ → α) : Forgets n fun xs => f (xs.map g) where
  length xs := by rw [h.length, List.length_map]
  drop xs k i hn hi := by
    rw [List.map_drop]
    exact h.drop (xs.map g) k i hn (by rwa [List.length_map])

theorem zipWith {δ : Type} {g : List α → List γ} (op : β → γ → δ) (hf : Forgets n f)
    (hg : Forgets n g) : Forgets n fun xs => List.zipWith op (f xs) (g xs) where
  length xs := by rw [List.length_zipWith, hf.length, hg.length, Nat.min_self]
  drop xs k i hn hi := by
    rw [List.getElem?_zipWith, List.getElem?_zipWith, hf.drop xs k i hn hi, hg.drop xs k i hn hi]

theorem map (g : β → γ) (hf : Forgets n f) : Forgets n fun xs => (f xs).map g where
  length xs := by rw [List.length_map, hf.length]
  drop xs k i hn hi := by rw [List.getElem?_map, List.getElem?_map, hf.drop xs k i hn hi]

/-- The window of values of a function that forgets. -/
theorem windowAt_eq (h : Forgets n f) {k i : ℕ} {xs : List α} (hnm : n + m ≤ i + 2)
    (hm : m ≤ i + 1) (hi : i + k < xs.length) :
    windowAt m i (f (xs.drop k)) = windowAt m (i + k) (f xs) := by
  refine List.ext_getElem? fun j => ?_
  by_cases hj : j < m
  · rw [getElem?_windowAt _ hm hj, getElem?_windowAt _ (by omega) hj,
      h.drop xs k _ (by omega) (by omega)]
    congr 1
    omega
  · rw [getElem?_windowAt_ge _ hm (by omega), getElem?_windowAt_ge _ (by omega) (by omega)]

/-- A rolling function of the values. -/
theorem comp_rolling (h : Forgets n f) (hn : 0 < n) (g : List β → Option γ) :
    Forgets (n + m - 1) fun xs => rolling m g (f xs) where
  length xs := by rw [rolling, length_tabulate, h.length]
  drop xs k i hnm hi := by
    have hshort : i < (f (xs.drop k)).length := by
      rw [h.length, List.length_drop]
      omega
    have hlong : i + k < (f xs).length := by rwa [h.length]
    rw [rolling, rolling, getElem?_tabulate hshort, getElem?_tabulate hlong, if_neg (by omega),
      if_neg (by omega), h.windowAt_eq (by omega) (by omega) hi]

end Forgets

end LlamaTrade
