import Mathlib.Data.List.Basic

/-!
# Lists that were extended in between

A list is extended by entries at any places. What a log reader saw earlier and what it sees
later are related so, when rows that were hidden become visible.
-/

namespace Interleaved

variable {α : Type} {ok : α → Prop}

/-- The second list is the first one with entries of a kind put in between. -/
inductive Extends (ok : α → Prop) : List α → List α → Prop
  | nil : Extends ok [] []
  | same {as bs : List α} (a : α) : Extends ok as bs → Extends ok (a :: as) (a :: bs)
  | extra {as bs : List α} {b : α} : ok b → Extends ok as bs → Extends ok as (b :: bs)

theorem Extends.refl (as : List α) : Extends ok as as := by
  induction as with
  | nil => exact .nil
  | cons a as ih => exact .same a ih

theorem Extends.trans {as bs cs : List α} (hab : Extends ok as bs) (hbc : Extends ok bs cs) :
    Extends ok as cs := by
  induction hbc generalizing as with
  | nil => exact hab
  | same b _ ih =>
    cases hab with
    | same _ hab => exact .same b (ih hab)
    | extra hb hab => exact .extra hb (ih hab)
  | extra hc _ ih => exact .extra hc (ih hab)

/-- Where a filter lets more entries pass, they are put in between. -/
theorem extends_filter {p q : α → Bool} {as : List α} (h : ∀ a ∈ as, p a = true → q a = true)
    (hok : ∀ a ∈ as, q a = true → p a = false → ok a) : Extends ok (as.filter p) (as.filter q) := by
  induction as with
  | nil => exact .nil
  | cons a as ih =>
    obtain ⟨ha, has⟩ := List.forall_mem_cons.mp h
    obtain ⟨hoka, hokas⟩ := List.forall_mem_cons.mp hok
    have hrest := ih has hokas
    cases hp : p a with
    | true => simpa [hp, ha hp] using hrest.same a
    | false =>
      cases hq : q a with
      | true => simpa [hp, hq] using hrest.extra (hoka hq hp)
      | false => simpa [hp, hq] using hrest

theorem Extends.map {β : Type} {ok' : β → Prop} {f : α → β} (hok : ∀ a, ok a → ok' (f a))
    {as bs : List α} (h : Extends ok as bs) : Extends ok' (as.map f) (bs.map f) := by
  induction h with
  | nil => exact .nil
  | same a _ ih => exact .same (f a) ih
  | extra hb _ ih => exact .extra (hok _ hb) ih

end Interleaved
