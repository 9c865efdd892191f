import Mathlib.Algebra.BigOperators.Group.List.Basic
import Mathlib.Data.List.Nodup
import Mathlib.Tactic.Abel

/-!
# Dictionaries in the order of insertion

A Python dictionary keeps its keys in the order in which they were first set.
-/

namespace LlamaTrade

abbrev InsertionDict (α : Type) := List (String × α)

namespace InsertionDict

variable {α : Type}

/-- `dict.keys()`. -/
def keys (dict : InsertionDict α) : List String := dict.map Prod.fst

/-- `dict.values()`. -/
def values (dict : InsertionDict α) : List α := dict.map Prod.snd

/-- `dict.get(key, default)`. -/
def getD (dict : InsertionDict α) (key : String) (default : α) : α :=
  (dict.lookup key).getD default

/-- `dict[key] = f(dict.get(key, default))`: an existing key keeps its place. -/
def modify (f : α → α) (default : α) (key : String) : InsertionDict α → InsertionDict α
  | [] => [(key, f default)]
  | (k, x) :: rest => if k = key then (k, f x) :: rest else (k, x) :: modify f default key rest

/-- The same keys, with other values. -/
def mapValues {β : Type} (g : α → β) (dict : InsertionDict α) : InsertionDict β :=
  dict.map fun e => (e.1, g e.2)

theorem mapValues_cons {β : Type} (g : α → β) (e : String × α) (dict : InsertionDict α) :
    mapValues g (e :: dict) = (e.1, g e.2) :: mapValues g dict := rfl

theorem values_cons (e : String × α) (dict : InsertionDict α) :
    values (e :: dict) = e.2 :: values dict := rfl

@[simp] theorem keys_mapValues {β : Type} (g : α → β) (dict : InsertionDict α) :
    keys (mapValues g dict) = keys dict := by
  simp [mapValues, keys]

@[simp] theorem values_mapValues {β : Type} (g : α → β) (dict : InsertionDict α) :
    values (mapValues g dict) = (values dict).map g := by
  simp [mapValues, values]

/-- A value for each key of a list. -/
def ofKeys (f : String → α) (keys : List String) : InsertionDict α := keys.map fun k => (k, f k)

@[simp] theorem keys_ofKeys (f : String → α) (l : List String) : keys (ofKeys f l) = l := by
  simp [ofKeys, keys, Function.comp_def]

@[simp] theorem values_ofKeys (f : String → α) (l : List String) :
    values (ofKeys f l) = l.map f := by
  simp [ofKeys, values, Function.comp_def]

@[simp] theorem mapValues_ofKeys {β : Type} (g : α → β) (f : String → α) (l : List String) :
    mapValues g (ofKeys f l) = ofKeys (fun k => g (f k)) l := by
  simp [ofKeys, mapValues, Function.comp_def]

/-- The keys that have a value, with it. -/
theorem keys_filterMap (f : String → Option α) (l : List String) :
    keys (l.filterMap fun k => (f k).map fun x => (k, x)) = l.filter fun k => (f k).isSome := by
  induction l with
  | nil => rfl
  | cons k l ih =>
    cases hk : f k with
    | none => simpa [List.filterMap_cons, hk] using ih
    | some x => simpa [List.filterMap_cons, hk, keys] using ih

theorem keys_append (a b : InsertionDict α) : keys (a ++ b) = keys a ++ keys b := List.map_append ..

theorem values_append (a b : InsertionDict α) : values (a ++ b) = values a ++ values b :=
  List.map_append ..

theorem mapValues_append {β : Type} (g : α → β) (a b : InsertionDict α) :
    mapValues g (a ++ b) = mapValues g a ++ mapValues g b := List.map_append ..

theorem keys_modify (f : α → α) (default : α) (key : String) (dict : InsertionDict α) :
    keys (modify f default key dict) = if key ∈ keys dict then keys dict else keys dict ++ [key] := by
  induction dict with
  | nil => simp [modify, keys]
  | cons entry rest ih =>
    obtain ⟨k, x⟩ := entry
    rw [modify]
    split_ifs with hk hmem hmem
    · simp [keys]
    · exact absurd (by simp [keys, hk]) hmem
    · have hrest : key ∈ keys rest := by
        simpa [keys, Ne.symm hk] using hmem
      rw [if_pos hrest] at ih
      rw [keys, List.map_cons, ← keys, ih]
      rfl
    · have hrest : key ∉ keys rest := by
        simpa [keys, Ne.symm hk] using hmem
      rw [if_neg hrest] at ih
      rw [keys, List.map_cons, ← keys, ih]
      rfl

theorem nodup_modify {f : α → α} {default : α} {key : String} {dict : InsertionDict α}
    (h : (keys dict).Nodup) : (keys (modify f default key dict)).Nodup := by
  rw [keys_modify]
  split_ifs with hmem
  · exact h
  · exact h.append (List.nodup_singleton key) (by simpa using hmem)

/-- A map of the values that turns one modification into another. -/
theorem mapValues_modify {β : Type} {g : α → β} {f : α → α} {f' : β → β} {default : α} {default' : β}
    (key : String) {dict : InsertionDict α} (hdefault : g (f default) = f' default')
    (h : ∀ x ∈ dict.values, g (f x) = f' (g x)) :
    mapValues g (modify f default key dict) = modify f' default' key (mapValues g dict) := by
  induction dict with
  | nil => simp [modify, mapValues, hdefault]
  | cons entry rest ih =>
    obtain ⟨k, x⟩ := entry
    simp only [modify, mapValues, List.map_cons] at ih ⊢
    split_ifs with hk
    · rw [List.map_cons, h x (by simp [values])]
    · rw [List.map_cons, ih fun y hy => h y (List.mem_cons_of_mem _ hy)]

/-- Adding to an entry adds to the sum of the values. -/
theorem sum_modify_add [AddCommMonoid α] (x : α) (key : String) (dict : InsertionDict α) :
    (modify (· + x) 0 key dict).values.sum = dict.values.sum + x := by
  induction dict with
  | nil => simp [modify, values]
  | cons entry rest ih =>
    obtain ⟨k, y⟩ := entry
    simp only [modify]
    split_ifs with hk
    · simp only [values, List.map_cons, List.sum_cons]
      abel
    · simp only [values, List.map_cons, List.sum_cons] at ih ⊢
      rw [ih, add_assoc]

theorem forall_values_modify {p : α → Prop} {f : α → α} {default : α} {key : String}
    {dict : InsertionDict α} (h : ∀ x ∈ dict.values, p x) (hdefault : p (f default))
    (hf : ∀ x, p x → p (f x)) : ∀ x ∈ (modify f default key dict).values, p x := by
  induction dict with
  | nil => simpa [modify, values] using hdefault
  | cons entry rest ih =>
    obtain ⟨k, y⟩ := entry
    have hy : p y := h y (by simp [values])
    have hrest : ∀ x ∈ InsertionDict.values rest, p x := fun x hx =>
      h x (List.mem_cons_of_mem _ hx)
    simp only [modify]
    split_ifs with hk
    · intro x hx
      obtain rfl | hx := List.mem_cons.mp hx
      · exact hf y hy
      · exact hrest x hx
    · intro x hx
      obtain rfl | hx := List.mem_cons.mp hx
      · exact hy
      · exact ih hrest x hx

theorem lookup_eq_some_iff {dict : InsertionDict α} (h : (keys dict).Nodup) {key : String} {x : α} :
    dict.lookup key = some x ↔ (key, x) ∈ dict := by
  induction dict with
  | nil => simp
  | cons entry rest ih =>
    obtain ⟨k, y⟩ := entry
    rw [keys, List.map_cons, List.nodup_cons] at h
    by_cases hk : key = k
    · subst hk
      have hnot : ∀ z, (key, z) ∉ rest := fun z hz =>
        h.1 (List.mem_map.mpr ⟨(key, z), hz, rfl⟩)
      simp [hnot, eq_comm]
    · have hbeq : (key == k) = false := by simpa using hk
      rw [List.lookup_cons, hbeq]
      simp [ih h.2, hk]

theorem lookup_mapValues {β : Type} (g : α → β) (dict : InsertionDict α) (key : String) :
    (mapValues g dict).lookup key = (dict.lookup key).map g := by
  induction dict with
  | nil => rfl
  | cons entry rest ih =>
    obtain ⟨k, x⟩ := entry
    rw [mapValues_cons]
    by_cases hk : key = k
    · simp [hk]
    · have hbeq : (key == k) = false := by simpa using hk
      rw [List.lookup_cons, hbeq, List.lookup_cons, hbeq, ih]

theorem mem_values_of_lookup {dict : InsertionDict α} {key : String} {x : α}
    (h : dict.lookup key = some x) : x ∈ dict.values := by
  induction dict with
  | nil => cases h
  | cons entry rest ih =>
    obtain ⟨k, y⟩ := entry
    by_cases hk : key = k
    · have hxy : y = x := by simpa [hk] using h
      exact hxy ▸ List.mem_cons_self ..
    · have hbeq : (key == k) = false := by simpa using hk
      rw [List.lookup_cons, hbeq] at h
      exact List.mem_cons_of_mem _ (ih h)

/-- `del dict[key]`. -/
def remove (key : String) : InsertionDict α → InsertionDict α
  | [] => []
  | (k, x) :: rest => if k = key then rest else (k, x) :: remove key rest

theorem mem_values_of_mem_remove {key : String} {dict : InsertionDict α} {y : α}
    (h : y ∈ (remove key dict).values) : y ∈ dict.values := by
  induction dict with
  | nil => exact h
  | cons entry rest ih =>
    obtain ⟨k, x⟩ := entry
    rw [remove] at h
    split_ifs at h
    · exact List.mem_cons_of_mem _ h
    · obtain rfl | h := List.mem_cons.mp h
      · exact List.mem_cons_self ..
      · exact List.mem_cons_of_mem _ (ih h)

/-- An entry that is set is the only one that changes. -/
theorem mem_values_modify {f : α → α} {default : α} {key : String} {dict : InsertionDict α} {x y : α}
    (hx : dict.lookup key = some x) (h : y ∈ (modify f default key dict).values) :
    y = f x ∨ y ∈ dict.values := by
  induction dict with
  | nil => cases hx
  | cons entry rest ih =>
    obtain ⟨k, z⟩ := entry
    rw [modify] at h
    by_cases hk : k = key
    · rw [if_pos hk, values_cons, List.mem_cons] at h
      have hzx : z = x := by simpa [hk] using hx
      exact h.imp (fun hy => hzx ▸ hy) (List.mem_cons_of_mem _)
    · have hbeq : (key == k) = false := by simpa using Ne.symm hk
      rw [List.lookup_cons, hbeq] at hx
      rw [if_neg hk, values_cons, List.mem_cons] at h
      obtain rfl | h := h
      · exact .inr (List.mem_cons_self ..)
      · exact (ih hx h).imp_right (List.mem_cons_of_mem _)

section Sums

variable {β : Type} [AddCommMonoid β] (g : α → β)

theorem sum_map_remove {key : String} {dict : InsertionDict α} {x : α}
    (h : dict.lookup key = some x) :
    (dict.values.map g).sum = g x + ((remove key dict).values.map g).sum := by
  induction dict with
  | nil => cases h
  | cons entry rest ih =>
    obtain ⟨k, y⟩ := entry
    rw [remove]
    by_cases hk : k = key
    · have hyx : y = x := by simpa [hk] using h
      rw [if_pos hk, values_cons, List.map_cons, List.sum_cons, hyx]
    · have hbeq : (key == k) = false := by simpa using Ne.symm hk
      rw [List.lookup_cons, hbeq] at h
      rw [if_neg hk, values_cons, values_cons, List.map_cons, List.map_cons, List.sum_cons,
        List.sum_cons, ih h, add_left_comm]

theorem sum_map_modify {f : α → α} {default : α} {key : String} {dict : InsertionDict α} {x : α}
    (h : dict.lookup key = some x) :
    ((modify f default key dict).values.map g).sum =
      g (f x) + ((remove key dict).values.map g).sum := by
  induction dict with
  | nil => cases h
  | cons entry rest ih =>
    obtain ⟨k, y⟩ := entry
    rw [modify, remove]
    by_cases hk : k = key
    · have hyx : y = x := by simpa [hk] using h
      rw [if_pos hk, if_pos hk, values_cons, List.map_cons, List.sum_cons, hyx]
    · have hbeq : (key == k) = false := by simpa using Ne.symm hk
      rw [List.lookup_cons, hbeq] at h
      rw [if_neg hk, if_neg hk, values_cons, values_cons, List.map_cons, List.map_cons,
        List.sum_cons, List.sum_cons, ih h, add_left_comm]

end Sums

theorem getD_cons (k key : String) (x default : α) (dict : InsertionDict α) :
    getD ((k, x) :: dict) key default = if k = key then x else getD dict key default := by
  by_cases hk : k = key
  · simp [getD, hk]
  · have hbeq : (key == k) = false := by simpa using Ne.symm hk
    rw [if_neg hk, getD, getD, List.lookup_cons, hbeq]

theorem getD_eq_of_not_mem_keys {dict : InsertionDict α} {key : String} (default : α)
    (h : key ∉ keys dict) : getD dict key default = default := by
  induction dict with
  | nil => rfl
  | cons entry rest ih =>
    obtain ⟨k, x⟩ := entry
    rw [keys, List.map_cons, List.mem_cons, not_or] at h
    rw [getD_cons, if_neg (Ne.symm h.1), ih h.2]

theorem getD_modify (f : α → α) (default : α) (key other : String) (dict : InsertionDict α) :
    getD (modify f default key dict) other default =
      if key = other then f (getD dict other default) else getD dict other default := by
  induction dict with
  | nil =>
    rw [modify, getD_cons]
    rfl
  | cons entry rest ih =>
    obtain ⟨k, x⟩ := entry
    rw [modify]
    split_ifs with hk hother hother
    · rw [getD_cons, getD_cons, if_pos (hk.trans hother), if_pos (hk.trans hother)]
    · rw [getD_cons, getD_cons, if_neg (hk ▸ hother), if_neg (hk ▸ hother)]
    · rw [getD_cons, getD_cons, if_neg (hother ▸ hk), if_neg (hother ▸ hk), ih, if_pos hother]
    · rw [getD_cons, getD_cons, ih, if_neg hother]

end InsertionDict

end LlamaTrade
