import LlamaTrade.LedgerProjection
import Mathlib.Algebra.BigOperators.Group.List.Basic
import Mathlib.Data.List.Nodup
import Mathlib.Data.Rat.Defs
import Mathlib.Tactic.Ring

/-!
# Sums over dictionaries

The sum of a quantity over the values of a dictionary, and how it changes when one entry
is set.
-/

namespace LlamaTrade

namespace Dict

variable {α : Type}

def total (f : α → ℚ) (dict : Dict α) : ℚ := (dict.toList.map fun x => f x.2).sum

@[simp] theorem total_empty (f : α → ℚ) : total f (∅ : Dict α) = 0 := by
  have hnil : (∅ : Dict α).toList = [] := Std.ExtTreeMap.toList_eq_nil_iff.mpr rfl
  simp [total, hnil]

theorem nodup_toList (dict : Dict α) : dict.toList.Nodup := by
  have hkeys := Std.ExtTreeMap.distinct_keys_toList (t := dict)
  refine hkeys.imp fun h heq => h ?_
  rw [heq]
  exact Std.ReflCmp.compare_self

/-- The entries of a dictionary, with the one of a key in front. -/
theorem toList_perm_of_get {dict : Dict α} {key : String} {x : α} (h : dict[key]? = some x) :
    dict.toList.Perm ((key, x) :: dict.toList.filter fun e => e.1 ≠ key) := by
  refine (List.perm_ext_iff_of_nodup (nodup_toList dict) ?_).mpr ?_
  · refine List.nodup_cons.mpr ⟨by simp, (nodup_toList dict).filter _⟩
  · rintro ⟨k, y⟩
    rw [List.mem_cons, List.mem_filter, Std.ExtTreeMap.mem_toList_iff_getElem?_eq_some]
    by_cases hk : k = key
    · subst hk
      simp [h, eq_comm]
    · simp [hk]

theorem filter_eq_of_get_none {dict : Dict α} {key : String} (h : dict[key]? = none) :
    (dict.toList.filter fun e => e.1 ≠ key) = dict.toList := by
  rw [List.filter_eq_self]
  rintro ⟨k, y⟩ hmem
  rw [Std.ExtTreeMap.mem_toList_iff_getElem?_eq_some] at hmem
  by_contra hk
  have heq : k = key := by simpa using hk
  rw [heq, h] at hmem
  cases hmem

theorem toList_insert_perm (dict : Dict α) (key : String) (x : α) :
    (dict.insert key x).toList.Perm ((key, x) :: dict.toList.filter fun e => e.1 ≠ key) := by
  refine (List.perm_ext_iff_of_nodup (nodup_toList _) ?_).mpr ?_
  · refine List.nodup_cons.mpr ⟨by simp, (nodup_toList dict).filter _⟩
  · rintro ⟨k, y⟩
    rw [List.mem_cons, List.mem_filter, Std.ExtTreeMap.mem_toList_iff_getElem?_eq_some,
      Std.ExtTreeMap.mem_toList_iff_getElem?_eq_some, Std.ExtTreeMap.getElem?_insert]
    by_cases hk : k = key
    · subst hk
      simp [eq_comm]
    · have hcompare : ¬ compare key k = .eq := by simpa using fun h => hk h.symm
      simp [hk, hcompare]

/-- Setting an entry replaces its part of a sum over the entries. -/
theorem sum_map_insert (f : String × α → ℚ) (dict : Dict α) (key : String) (x : α) :
    ((dict.insert key x).toList.map f).sum =
      (dict.toList.map f).sum - (dict[key]?).elim 0 (fun y => f (key, y)) + f (key, x) := by
  have hnew := ((toList_insert_perm dict key x).map f).sum_eq
  rw [List.map_cons, List.sum_cons] at hnew
  rw [hnew]
  cases h : dict[key]? with
  | none =>
    rw [filter_eq_of_get_none h, Option.elim_none]
    ring
  | some y =>
    have hold := ((toList_perm_of_get h).map f).sum_eq
    rw [List.map_cons, List.sum_cons] at hold
    rw [hold, Option.elim_some]
    ring

theorem total_insert (f : α → ℚ) (dict : Dict α) (key : String) (x : α) :
    total f (dict.insert key x) = total f dict - (dict[key]?).elim 0 f + f x :=
  sum_map_insert (fun e => f e.2) dict key x

theorem toList_erase_perm (dict : Dict α) (key : String) :
    (dict.erase key).toList.Perm (dict.toList.filter fun e => e.1 ≠ key) := by
  refine (List.perm_ext_iff_of_nodup (nodup_toList _) ((nodup_toList dict).filter _)).mpr ?_
  rintro ⟨k, y⟩
  rw [List.mem_filter, Std.ExtTreeMap.mem_toList_iff_getElem?_eq_some,
    Std.ExtTreeMap.mem_toList_iff_getElem?_eq_some, Std.ExtTreeMap.getElem?_erase]
  by_cases hk : k = key
  · subst hk
    simp
  · have hcompare : ¬ compare key k = .eq := by simpa using fun h => hk h.symm
    simp [hk, hcompare]

/-- Dropping an entry drops its part of the sum. -/
theorem total_erase {f : α → ℚ} {dict : Dict α} {key : String} {x : α} (h : dict[key]? = some x) :
    total f (dict.erase key) = total f dict - f x := by
  have hnew := ((toList_erase_perm dict key).map fun e => f e.2).sum_eq
  have hold := ((toList_perm_of_get h).map fun e => f e.2).sum_eq
  rw [List.map_cons, List.sum_cons] at hold
  unfold total
  rw [hnew, hold]
  ring

/-- A default without weight may stand for a missing entry. -/
theorem elim_getD (f : α → ℚ) (dict : Dict α) (key : String) {x : α} (hx : f x = 0) :
    (dict[key]?).elim 0 f = f (dict.getD key x) := by
  rw [Std.ExtTreeMap.getD_eq_getD_getElem?]
  cases dict[key]? with
  | none => rw [Option.elim_none, Option.getD_none, hx]
  | some y => rfl

end Dict

end LlamaTrade
