import Mathlib.Data.List.Perm.Basic
import Mathlib.Order.Lattice

/-!
# Latest writes

A table with one row for each key, in which a write replaces the row of its key only if it is newer.
The row of a key is the latest write of that key, and writes that do not contradict each other leave
the same table in whatever order they are made.
-/

namespace LatestWrites

variable {K T V : Type} [DecidableEq K] [LinearOrder T]

structure Write (K T V : Type) where
  key : K
  time : T
  value : V

/-- The time and the value of the row of each key. -/
abbrev Table (K T V : Type) := K → Option (T × V)

/-- The row after a write, from the row before it. -/
def newer (row : Option (T × V)) (time : T) (value : V) : Option (T × V) :=
  match row with
  | none => some (time, value)
  | some old => if old.1 < time then some (time, value) else some old

/-- Insert, or update on conflict where the row is older. -/
def upsert (table : Table K T V) (w : Write K T V) : Table K T V := fun key =>
  if key = w.key then newer (table key) w.time w.value else table key

def upserts (table : Table K T V) (ws : List (Write K T V)) : Table K T V := ws.foldl upsert table

/-- No two writes of one key at one time differ. -/
def Unambiguous (ws : List (Write K T V)) : Prop :=
  ∀ w ∈ ws, ∀ w' ∈ ws, w.key = w'.key → w.time = w'.time → w.value = w'.value

theorem upserts_append (table : Table K T V) (ws ws' : List (Write K T V)) :
    upserts table (ws ++ ws') = upserts (upserts table ws) ws' := List.foldl_append

/-- A row that was there, or a write of its key, and no write of its key is later. -/
structure Latest (table : Table K T V) (ws : List (Write K T V)) (key : K) (row : T × V) : Prop where
  source : table key = some row ∨ ∃ w ∈ ws, w.key = key ∧ w.time = row.1 ∧ w.value = row.2
  above : ∀ w ∈ ws, w.key = key → w.time ≤ row.1
  kept : ∀ old, table key = some old → old.1 ≤ row.1

/-- The row of a key is the latest one. -/
theorem latest_of_upserts {table : Table K T V} {ws : List (Write K T V)} {key : K} {row : T × V}
    (h : upserts table ws key = some row) : Latest table ws key row := by
  induction ws generalizing table with
  | nil => exact ⟨Or.inl h, by simp, fun old hold => by rw [Option.some.inj (hold.symm.trans h)]⟩
  | cons w ws ih =>
    have hrest : Latest (upsert table w) ws key row := ih h
    by_cases hkey : key = w.key
    · have hrow : upsert table w key = newer (table key) w.time w.value := by simp [upsert, hkey]
      have hnew : ∃ top, upsert table w key = some top ∧ w.time ≤ top.1 ∧
          (∀ old, table key = some old → old.1 ≤ top.1) ∧
            (top = (w.time, w.value) ∨ table key = some top) := by
        rw [hrow]
        cases htable : table key with
        | none => exact ⟨_, rfl, le_rfl, by simp, Or.inl rfl⟩
        | some old =>
          rw [newer]
          split_ifs with hlt
          · refine ⟨_, rfl, le_rfl, fun o ho => ?_, Or.inl rfl⟩
            rw [← Option.some.inj ho]
            exact hlt.le
          · refine ⟨_, rfl, not_lt.mp hlt, fun o ho => ?_, Or.inr rfl⟩
            rw [← Option.some.inj ho]
      obtain ⟨top, htop, hw, hold, hsource⟩ := hnew
      have hle : top.1 ≤ row.1 := hrest.kept top htop
      refine ⟨?_, ?_, fun old ho => (hold old ho).trans hle⟩
      · rcases hrest.source with hsame | ⟨w', hw', hmatch⟩
        · obtain rfl := Option.some.inj (htop.symm.trans hsame)
          rcases hsource with rfl | hsource
          · exact Or.inr ⟨w, List.mem_cons_self .., hkey.symm, rfl, rfl⟩
          · exact Or.inl hsource
        · exact Or.inr ⟨w', List.mem_cons_of_mem _ hw', hmatch⟩
      · intro w' hw' hk'
        rcases List.mem_cons.mp hw' with rfl | hw'
        · exact hw.trans hle
        · exact hrest.above w' hw' hk'
    · have hsame : upsert table w key = table key := by simp [upsert, hkey]
      refine ⟨?_, ?_, fun old ho => hrest.kept old (hsame.trans ho)⟩
      · rcases hrest.source with hold | ⟨w', hw', hmatch⟩
        · exact Or.inl (hsame.symm.trans hold)
        · exact Or.inr ⟨w', List.mem_cons_of_mem _ hw', hmatch⟩
      · intro w' hw' hk'
        rcases List.mem_cons.mp hw' with rfl | hw'
        · exact absurd hk'.symm hkey
        · exact hrest.above w' hw' hk'

/-- Two writes that agree may be exchanged. -/
theorem upsert_comm (table : Table K T V) {w w' : Write K T V}
    (h : w.key = w'.key → w.time = w'.time → w.value = w'.value) :
    upsert (upsert table w) w' = upsert (upsert table w') w := by
  funext key
  by_cases hw : key = w.key
  · by_cases hw' : key = w'.key
    · have hagree := h (hw.symm.trans hw')
      simp only [upsert, if_pos hw, if_pos hw']
      rcases lt_trichotomy w.time w'.time with hlt | heq | hgt
      · cases table key with
        | none => simp [newer, hlt, hlt.not_gt]
        | some old =>
          simp only [newer]
          split_ifs with h₁ h₂ h₂ <;> simp [h₁, h₂, hlt, hlt.not_gt]
          · exact absurd (h₁.trans hlt) h₂
      · have hvalue := hagree heq
        cases table key with
        | none => simp [newer, heq, hvalue]
        | some old =>
          simp only [newer, heq, hvalue]
      · cases table key with
        | none => simp [newer, hgt, hgt.not_gt]
        | some old =>
          simp only [newer]
          split_ifs with h₁ h₂ h₂ <;> simp [h₁, h₂, hgt, hgt.not_gt]
          · exact absurd (h₂.trans hgt) h₁
    · simp only [upsert, if_pos hw, if_neg hw']
  · by_cases hw' : key = w'.key
    · simp only [upsert, if_neg hw, if_pos hw']
    · simp only [upsert, if_neg hw, if_neg hw']

/-- The order of writes that agree does not matter. -/
theorem upserts_perm {ws ws' : List (Write K T V)} (hperm : ws.Perm ws') (hagree : Unambiguous ws)
    (table : Table K T V) : upserts table ws = upserts table ws' :=
  hperm.foldl_eq' (fun w hw w' hw' table => upsert_comm table (hagree w hw w' hw')) table

end LatestWrites
