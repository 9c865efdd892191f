import LlamaTrade.AccountServices
import LlamaTrade.UntouchedSleeves

/-!
# The holders of a corporate action

The sleeves that hold a symbol are read off the projection, and each planned event is about
one of them: a split, a rename or a share of a dividend names no other sleeve.
-/

namespace LlamaTrade

open Arithmetic

/-! ## Reading the holders -/

section Holders

variable {α : Type}

theorem mem_setHolder {holders : List (UUID × α)} {id : UUID} {x : α} {h : UUID × α}
    (hmem : h ∈ setHolder holders id x) : h ∈ holders ∨ h = (id, x) := by
  unfold setHolder at hmem
  split_ifs at hmem
  · obtain ⟨h', hh', heq⟩ := List.mem_map.mp hmem
    split_ifs at heq
    · exact .inr heq.symm
    · exact .inl (heq ▸ hh')
  · rcases List.mem_append.mp hmem with hmem | hmem
    · exact .inl hmem
    · exact .inr (List.mem_singleton.mp hmem)

/-- Each holder comes from an entry of the projection that holds the symbol. -/
theorem mem_collectHolders {held : SleeveProjection Decimal → Except PyError (Option α)}
    {holders out : List (UUID × α)} {entries : List (String × SleeveProjection Decimal)}
    (h : collectHolders held holders entries = .ok out) {x : UUID × α} (hx : x ∈ out) :
    x ∈ holders ∨ ∃ key p, (key, p) ∈ entries ∧ UUID.parse key = .ok x.1 ∧
      held p = .ok (some x.2) := by
  induction entries generalizing holders with
  | nil =>
    cases h
    exact .inl hx
  | cons entry entries ih =>
    obtain ⟨key, p⟩ := entry
    simp only [collectHolders, bind_eq_ok] at h
    obtain ⟨found, hfound, h⟩ := h
    cases found with
    | none =>
      rcases ih h with hold | ⟨key', p', hmem, hrest⟩
      · exact .inl hold
      · exact .inr ⟨key', p', List.mem_cons_of_mem _ hmem, hrest⟩
    | some value =>
      simp only [bind_eq_ok] at h
      obtain ⟨id, hid, h⟩ := h
      rcases ih h with hold | ⟨key', p', hmem, hrest⟩
      · rcases mem_setHolder hold with hold | rfl
        · exact .inl hold
        · exact .inr ⟨key, p, List.mem_cons_self, hid, hfound⟩
      · exact .inr ⟨key', p', List.mem_cons_of_mem _ hmem, hrest⟩

end Holders

/-! ## Planned events -/

/-- The event is about the position or the cash of one holder. -/
structure OfHolder (ids : List UUID) (ev : PlannedCorporateEvent) : Prop where
  holder : ev.sleeveId ∈ ids
  keys : ∀ key ∈ sleeveKeys ev.eventType, key = "sleeve_id"
  sleeve : ev.data.text "sleeve_id" = .ok ev.sleeveId.text
  order : present ev.data "client_order_id" = none

theorem splitEvents_ofHolder {symbol externalId : String} {ratio : Decimal}
    {holders : List (UUID × Decimal)} {events : List PlannedCorporateEvent}
    (h : splitEvents symbol ratio externalId holders = .ok events) :
    ∀ ev ∈ events, OfHolder (holders.map (·.1)) ev := by
  induction holders generalizing events with
  | nil =>
    cases h
    simp
  | cons holder holders ih =>
    simp only [splitEvents, bind_eq_ok] at h
    obtain ⟨first, hfirst, rest, hrest, h⟩ := h
    cases h
    intro ev hev
    rcases List.mem_append.mp hev with hev | hev
    · simp only [splitEvent, bind_eq_ok] at hfirst
      obtain ⟨isZero, -, hfirst⟩ := hfirst
      split_ifs at hfirst
      · cases hfirst
        cases hev
      · simp only [bind_eq_ok] at hfirst
        obtain ⟨_, -, delta, -, zeroDelta, -, hfirst⟩ := hfirst
        split_ifs at hfirst
        · cases hfirst
          cases hev
        · cases hfirst
          rw [Option.toList_some, List.mem_singleton] at hev
          subst hev
          exact ⟨List.mem_cons_self, by simp [sleeveKeys], rfl, rfl⟩
    · obtain ⟨hholder, hkeys, hsleeve, horder⟩ := ih hrest ev hev
      exact ⟨List.mem_cons_of_mem _ hholder, hkeys, hsleeve, horder⟩

theorem renameEvents_ofHolder {oldSymbol newSymbol externalId : String}
    {holders : List (UUID × PositionState Decimal)} {events : List PlannedCorporateEvent}
    (h : renameEvents oldSymbol newSymbol externalId holders = .ok events) :
    ∀ ev ∈ events, OfHolder (holders.map (·.1)) ev := by
  induction holders generalizing events with
  | nil =>
    cases h
    simp
  | cons holder holders ih =>
    simp only [renameEvents, bind_eq_ok] at h
    obtain ⟨first, hfirst, rest, hrest, h⟩ := h
    cases h
    intro ev hev
    rcases List.mem_append.mp hev with hev | hev
    · simp only [renameEvent, bind_eq_ok] at hfirst
      obtain ⟨isZero, -, hfirst⟩ := hfirst
      split_ifs at hfirst
      · cases hfirst
        cases hev
      · cases hfirst
        rw [Option.toList_some, List.mem_singleton] at hev
        subst hev
        exact ⟨List.mem_cons_self, by simp [sleeveKeys], rfl, rfl⟩
    · obtain ⟨hholder, hkeys, hsleeve, horder⟩ := ih hrest ev hev
      exact ⟨List.mem_cons_of_mem _ hholder, hkeys, hsleeve, horder⟩

theorem mem_positiveHolders {holders out : List (UUID × Decimal)}
    (h : positiveHolders holders = .ok out) {x : UUID × Decimal} (hx : x ∈ out) : x ∈ holders := by
  induction holders generalizing out with
  | nil =>
    cases h
    cases hx
  | cons holder holders ih =>
    simp only [positiveHolders, bind_eq_ok] at h
    obtain ⟨positive, -, others, hothers, h⟩ := h
    cases h
    split_ifs at hx
    · rcases List.mem_cons.mp hx with rfl | hx
      · exact List.mem_cons_self
      · exact List.mem_cons_of_mem _ (ih hothers hx)
    · exact List.mem_cons_of_mem _ (ih hothers hx)

theorem insertHolder_perm {x : UUID × Decimal} {holders out : List (UUID × Decimal)}
    (h : insertHolder x holders = .ok out) : out.Perm (x :: holders) := by
  induction holders generalizing out with
  | nil =>
    cases h
    exact List.Perm.refl _
  | cons y ys ih =>
    simp only [insertHolder, bind_eq_ok] at h
    obtain ⟨less, -, h⟩ := h
    split_ifs at h
    · simp only [bind_eq_ok] at h
      obtain ⟨rest, hrest, h⟩ := h
      cases h
      exact ((ih hrest).cons y).trans (List.Perm.swap x y ys)
    · cases h
      exact List.Perm.refl _

theorem orderHolders_perm {holders out : List (UUID × Decimal)}
    (h : orderHolders holders = .ok out) : out.Perm holders := by
  induction holders generalizing out with
  | nil =>
    cases h
    exact List.Perm.refl _
  | cons x xs ih =>
    simp only [orderHolders, bind_eq_ok] at h
    obtain ⟨rest, hrest, h⟩ := h
    exact (insertHolder_perm h).trans ((ih hrest).cons x)

theorem dividendShares_ids {totalAmount totalQty allocated sum : Decimal}
    {holders shares : List (UUID × Decimal)}
    (h : dividendShares totalAmount totalQty allocated holders = .ok (shares, sum)) :
    shares.map (·.1) = holders.map (·.1) := by
  induction holders generalizing allocated shares sum with
  | nil =>
    cases h
    rfl
  | cons holder holders ih =>
    simp only [dividendShares, bind_eq_ok] at h
    obtain ⟨amount, -, next, -, ⟨rest, total⟩, hrest, h⟩ := h
    cases h
    rw [List.map_cons, List.map_cons, ih hrest]

theorem splitDividend_ofHolder {symbol payId : String} {totalAmount : Decimal}
    {holders : List (UUID × Decimal)} {events : List PlannedCorporateEvent}
    (h : splitDividend symbol totalAmount holders payId = .ok events) :
    ∀ ev ∈ events, OfHolder (holders.map (·.1)) ev := by
  simp only [splitDividend, bind_eq_ok] at h
  obtain ⟨nonpositive, -, h⟩ := h
  split_ifs at h
  simp only [bind_eq_ok] at h
  obtain ⟨positive, hpositive, totalQty, -, none, -, h⟩ := h
  split_ifs at h
  · cases h
    simp
  · simp only [bind_eq_ok] at h
    obtain ⟨ordered, hordered, h⟩ := h
    cases ordered with
    | nil =>
      cases h
      simp
    | cons largest others =>
      simp only [dividendEvents, bind_eq_ok] at h
      obtain ⟨⟨shares, allocated⟩, hshares, remainder, -, h⟩ := h
      cases h
      intro ev hev
      obtain ⟨share, hshare, rfl⟩ := List.mem_map.mp hev
      refine ⟨?_, by simp [sleeveKeys, dividendEvent], rfl, rfl⟩
      have hordered' : share.1 ∈ (largest :: others).map (·.1) := by
        rcases List.mem_append.mp hshare with hshare | hshare
        · have hmem := List.mem_map_of_mem (f := (·.1)) hshare
          rw [dividendShares_ids hshares] at hmem
          exact List.mem_cons_of_mem _ hmem
        · rw [List.mem_singleton] at hshare
          subst hshare
          exact List.mem_cons_self
      obtain ⟨x, hx, hid⟩ := List.mem_map.mp hordered'
      exact List.mem_map.mpr ⟨x, mem_positiveHolders hpositive
        ((orderHolders_perm hordered).mem_iff.mp hx), hid⟩

end LlamaTrade
