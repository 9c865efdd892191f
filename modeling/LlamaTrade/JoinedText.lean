import Mathlib.Data.List.Basic
import Mathlib.Data.String.Basic

/-!
# Joined texts

Texts joined by a separator that they may themselves contain. Two joined texts are the same
exactly when their parts, cut at the separator, are the same pieces.
-/

namespace JoinedText

variable {c : Char}

/-- The pieces of a text between the separators. -/
def pieces (c : Char) (s : String) : List String := (s.toList.splitOn c).map String.ofList

/-- The parts, with a separator between any two. -/
def joined (c : Char) (parts : List String) : String := (String.singleton c).intercalate parts

theorem map_toList_pieces (s : String) : (pieces c s).map String.toList = s.toList.splitOn c := by
  rw [pieces, List.map_map]
  exact (List.map_congr_left fun l _ => String.toList_ofList).trans (List.map_id _)

theorem toList_joined (parts : List String) :
    (joined c parts).toList = [c].intercalate (parts.map String.toList) := by
  rw [joined, String.toList_intercalate, String.toList_singleton]

theorem joined_pieces (s : String) : joined c (pieces c s) = s := by
  rw [← String.toList_inj, toList_joined, map_toList_pieces, List.intercalate_splitOn]

theorem pieces_of_not_mem {s : String} (h : c ∉ s.toList) : pieces c s = [s] := by
  rw [pieces, List.splitOn_eq_singleton h, List.map_singleton, String.ofList_toList]

theorem pieces_ne_nil (s : String) : pieces c s ≠ [] := by
  rw [pieces, Ne, List.map_eq_nil_iff]
  exact List.splitOn_ne_nil c s.toList

theorem splitOn_intercalate_flatMap {parts : List (List Char)} (h : parts ≠ []) :
    ([c].intercalate parts).splitOn c = parts.flatMap (List.splitOn c) := by
  induction parts with
  | nil => exact absurd rfl h
  | cons part rest ih =>
    cases rest with
    | nil => simp
    | cons next rest =>
      rw [List.intercalate_cons_of_ne_nil (List.cons_ne_nil _ _), List.append_assoc,
        List.singleton_append, List.splitOn_append_cons_self, ih (List.cons_ne_nil _ _),
        List.flatMap_cons (x := part)]

theorem pieces_joined {parts : List String} (h : parts ≠ []) :
    pieces c (joined c parts) = parts.flatMap (pieces c) := by
  rw [pieces, toList_joined, splitOn_intercalate_flatMap (by simpa using h), List.map_flatMap,
    List.flatMap_map]
  rfl

theorem pieces_injective {s t : String} (h : pieces c s = pieces c t) : s = t := by
  rw [← joined_pieces (c := c) s, h, joined_pieces]

/-- Only empty parts give the empty text. -/
theorem eq_empty_of_joined {parts : List String} {part : String} (h : joined c parts = "")
    (hpart : part ∈ parts) : part = "" := by
  have hpieces := pieces_joined (c := c) (List.ne_nil_of_mem hpart)
  rw [h, show pieces c "" = [""] from pieces_of_not_mem List.not_mem_nil] at hpieces
  have hall : ∀ piece ∈ pieces c part, piece = "" := fun piece hmem =>
    List.mem_singleton.mp (hpieces ▸ List.mem_flatMap.mpr ⟨part, hpart, hmem⟩)
  have hlength : (pieces c part).length ≤ 1 := by
    obtain ⟨before, after, rfl⟩ := List.append_of_mem hpart
    have hlen := congrArg List.length hpieces
    simp only [List.flatMap_append, List.flatMap_cons, List.length_append,
      List.length_singleton] at hlen
    omega
  cases hcut : pieces c part with
  | nil => exact absurd hcut (pieces_ne_nil part)
  | cons piece rest =>
    cases rest with
    | nil =>
      rw [hcut] at hall
      refine pieces_injective (c := c) ?_
      rw [hcut, hall piece (List.mem_cons_self ..)]
      exact (pieces_of_not_mem List.not_mem_nil).symm
    | cons _ _ => simp [hcut] at hlength

/-- Two joined texts are the same when their parts have the same pieces. -/
theorem joined_eq_iff {parts parts' : List String} (h : parts ≠ []) (h' : parts' ≠ []) :
    joined c parts = joined c parts' ↔ parts.flatMap (pieces c) = parts'.flatMap (pieces c) := by
  rw [← pieces_joined h, ← pieces_joined h']
  exact ⟨congrArg _, pieces_injective⟩

theorem not_mem_of_mem_splitOn {xs l : List Char} (h : l ∈ xs.splitOn c) : c ∉ l := by
  induction xs generalizing l with
  | nil => simp_all
  | cons x xs ih =>
    rw [List.splitOn_cons_eq_if_modifyHead] at h
    split at h
    · obtain rfl | h := List.mem_cons.mp h
      · exact List.not_mem_nil
      · exact ih h
    · next hx =>
      cases hsplit : xs.splitOn c with
      | nil => exact absurd hsplit (List.splitOn_ne_nil c xs)
      | cons head tail =>
        rw [hsplit, List.modifyHead_cons] at h
        obtain rfl | h := List.mem_cons.mp h
        · have hhead : c ∉ head := ih (hsplit ▸ List.mem_cons_self ..)
          simp only [List.mem_cons, not_or]
          exact ⟨fun heq => hx (by simp [heq]), hhead⟩
        · exact ih (hsplit ▸ List.mem_cons_of_mem _ h)

/-- A piece is not cut again. -/
theorem pieces_of_mem_pieces {s piece : String} (h : piece ∈ pieces c s) :
    pieces c piece = [piece] := by
  obtain ⟨l, hl, rfl⟩ := List.mem_map.mp h
  refine pieces_of_not_mem ?_
  rw [String.toList_ofList]
  exact not_mem_of_mem_splitOn hl

/-- The pieces of pieces are the pieces. -/
theorem flatMap_pieces_of_forall {words : List String} (h : ∀ w ∈ words, pieces c w = [w]) :
    words.flatMap (pieces c) = words := by
  induction words with
  | nil => rfl
  | cons w words ih =>
    rw [List.flatMap_cons, h w (List.mem_cons_self ..), ih fun v hv => h v (List.mem_cons_of_mem _ hv)]
    rfl

/-- Cutting the parts changes nothing. -/
theorem joined_flatMap_pieces (parts : List String) :
    joined c (parts.flatMap (pieces c)) = joined c parts := by
  by_cases h : parts = []
  · rw [h, List.flatMap_nil]
  · have hne : parts.flatMap (pieces c) ≠ [] := by
      obtain ⟨part, hpart⟩ := List.exists_mem_of_ne_nil parts h
      obtain ⟨piece, hpiece⟩ := List.exists_mem_of_ne_nil _ (pieces_ne_nil (c := c) part)
      exact List.ne_nil_of_mem (List.mem_flatMap.mpr ⟨part, hpart, hpiece⟩)
    rw [joined_eq_iff hne h]
    refine flatMap_pieces_of_forall fun w hw => ?_
    obtain ⟨part, -, hmem⟩ := List.mem_flatMap.mp hw
    exact pieces_of_mem_pieces hmem

end JoinedText
