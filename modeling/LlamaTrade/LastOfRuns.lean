import Mathlib.Data.List.Basic

/-!
# Last entries of runs

In a list that is sorted by some key the entries with one key form a run. The last entry of each
run is kept by a loop that compares with the entry kept before, and as well by a table that has the
newest entry of each key.
-/

namespace LastOfRuns

variable {α κ : Type} [DecidableEq κ]

/-- The last entry of each run. -/
def lastOfRuns (key : α → κ) : List α → List α
  | [] => []
  | [x] => [x]
  | x :: y :: l => if key x = key y then lastOfRuns key (y :: l) else x :: lastOfRuns key (y :: l)

/-- The loop replaces the entry it kept last where the key is the same. -/
def keep (key : α → κ) (kept : List α) (x : α) : List α :=
  match kept.getLast? with
  | some last => if key last = key x then kept.dropLast ++ [x] else kept ++ [x]
  | none => [x]

/-- A table with one entry for each key, in the order in which the keys came. -/
def setLatest (key : α → κ) (isNewer : α → α → Bool) : List α → α → List α
  | [], x => [x]
  | old :: table, x =>
    if key old = key x then (if isNewer old x then x else old) :: table
    else old :: setLatest key isNewer table x

section Runs

variable {key : α → κ} {isNewer : α → α → Bool} {r : κ → κ → Prop} {l : List α}

theorem keep_append_singleton (done : List α) (x y : α) :
    keep key (done ++ [x]) y =
      if key x = key y then done ++ [y] else done ++ [x] ++ [y] := by
  simp [keep]

theorem foldl_keep_append (done : List α) (x : α) (l : List α) :
    l.foldl (keep key) (done ++ [x]) = done ++ lastOfRuns key (x :: l) := by
  induction l generalizing done x with
  | nil => rfl
  | cons y l ih =>
    rw [List.foldl_cons, keep_append_singleton, lastOfRuns]
    split_ifs with h
    · exact ih done y
    · rw [ih (done ++ [x]) y, List.append_assoc, List.singleton_append]

/-- The loop keeps the last entry of each run. -/
theorem foldl_keep (key : α → κ) (l : List α) : l.foldl (keep key) [] = lastOfRuns key l := by
  cases l with
  | nil => rfl
  | cons x l => exact foldl_keep_append [] x l

theorem lastOfRuns_sublist (key : α → κ) (l : List α) : (lastOfRuns key l).Sublist l := by
  induction l with
  | nil => exact List.Sublist.slnil
  | cons x l ih =>
    cases l with
    | nil => exact List.Sublist.refl _
    | cons y l =>
      rw [lastOfRuns]
      split_ifs
      · exact List.Sublist.cons x ih
      · exact List.Sublist.cons_cons x ih

theorem lastOfRuns_cons_ne_nil (key : α → κ) (x : α) (l : List α) : lastOfRuns key (x :: l) ≠ [] := by
  induction l generalizing x with
  | nil => simp [lastOfRuns]
  | cons y l ih =>
    rw [lastOfRuns]
    split_ifs
    · exact ih y
    · simp

theorem getLast?_lastOfRuns (key : α → κ) (l : List α) :
    (lastOfRuns key l).getLast? = l.getLast? := by
  induction l with
  | nil => rfl
  | cons x l ih =>
    cases l with
    | nil => rfl
    | cons y l =>
      rw [lastOfRuns, List.getLast?_cons_cons, ← ih]
      split_ifs
      · rfl
      · obtain ⟨z, rest, hz⟩ := List.exists_cons_of_ne_nil (lastOfRuns_cons_ne_nil key y l)
        rw [hz, List.getLast?_cons_cons]

/-- In a sorted list no key comes back after its run. -/
theorem lastOfRuns_pairwise_ne (hanti : ∀ a b, r a b → r b a → a = b)
    (hsorted : l.Pairwise fun a b => r (key a) (key b)) :
    (lastOfRuns key l).Pairwise fun a b => key a ≠ key b := by
  induction l with
  | nil => exact List.Pairwise.nil
  | cons x l ih =>
    obtain ⟨hx, hsorted⟩ := List.pairwise_cons.mp hsorted
    cases l with
    | nil => exact List.pairwise_singleton _ _
    | cons y l =>
      rw [lastOfRuns]
      split_ifs with h
      · exact ih hsorted
      · refine List.pairwise_cons.mpr ⟨fun z hz heq => h ?_, ih hsorted⟩
        have hmem := (lastOfRuns_sublist key (y :: l)).subset hz
        rcases List.mem_cons.mp hmem with rfl | hmem
        · exact heq
        · have hyz := (List.pairwise_cons.mp hsorted).1 z hmem
          exact hanti _ _ (hx y (List.mem_cons_self ..)) (heq ▸ hyz)

theorem setLatest_append_of_ne {done table : List α} {x : α} (h : ∀ old ∈ done, key old ≠ key x) :
    setLatest key isNewer (done ++ table) x = done ++ setLatest key isNewer table x := by
  induction done with
  | nil => rfl
  | cons old done ih =>
    obtain ⟨hold, hdone⟩ := List.forall_mem_cons.mp h
    rw [List.cons_append, setLatest, if_neg hold, ih hdone, List.cons_append]

theorem foldl_setLatest_append (hanti : ∀ a b, r a b → r b a → a = b) {done : List α} {x : α}
    (hdone : ∀ old ∈ done, r (key old) (key x) ∧ key old ≠ key x)
    (hsorted : (x :: l).Pairwise fun a b => r (key a) (key b))
    (hnewer : (x :: l).Pairwise fun a b => key a = key b → isNewer a b = true)
    (htrans : ∀ a b c, r a b → r b c → r a c) :
    l.foldl (setLatest key isNewer) (done ++ [x]) = done ++ lastOfRuns key (x :: l) := by
  induction l generalizing done x with
  | nil => rfl
  | cons y l ih =>
    obtain ⟨hx, hsorted⟩ := List.pairwise_cons.mp hsorted
    obtain ⟨hnew, hnewer⟩ := List.pairwise_cons.mp hnewer
    have hxy := hx y (List.mem_cons_self ..)
    have hlater : ∀ old ∈ done, key old ≠ key y := fun old hold heq =>
      (hdone old hold).2 (hanti _ _ (hdone old hold).1 (heq ▸ hxy))
    rw [List.foldl_cons, setLatest_append_of_ne hlater, setLatest, lastOfRuns]
    by_cases h : key x = key y
    · rw [if_pos h, if_pos h, if_pos (hnew y (List.mem_cons_self ..) h)]
      exact ih (fun old hold => ⟨h ▸ (hdone old hold).1, hlater old hold⟩) hsorted hnewer
    · have hkept : ∀ old ∈ done ++ [x], r (key old) (key y) ∧ key old ≠ key y := by
        intro old hold
        rcases List.mem_append.mp hold with hold | hold
        · exact ⟨htrans _ _ _ (hdone old hold).1 hxy, hlater old hold⟩
        · obtain rfl := List.mem_singleton.mp hold
          exact ⟨hxy, h⟩
      have hrest := ih hkept hsorted hnewer
      rw [if_neg h, if_neg h]
      simpa [setLatest] using hrest

/-- On a sorted list the table has the last entries of the runs, in their order. -/
theorem foldl_setLatest (hanti : ∀ a b, r a b → r b a → a = b)
    (htrans : ∀ a b c, r a b → r b c → r a c) (hsorted : l.Pairwise fun a b => r (key a) (key b))
    (hnewer : l.Pairwise fun a b => key a = key b → isNewer a b = true) :
    l.foldl (setLatest key isNewer) [] = lastOfRuns key l := by
  cases l with
  | nil => rfl
  | cons x l =>
    have hempty : ∀ old ∈ ([] : List α), r (key old) (key x) ∧ key old ≠ key x := by simp
    exact foldl_setLatest_append hanti hempty hsorted hnewer htrans

end Runs

end LastOfRuns
