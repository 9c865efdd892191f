import LlamaTrade.RehomedLots
import LlamaTrade.RoundedBalances
import LlamaTrade.UntouchedSleeves

/-!
# The close empties its sleeve

The legs of a close take out of the sleeve what the projection holds in it. The balances are
rounded, so each difference is zero; the later legs are applied as long as no addition in
the Unmanaged sleeve raises.
-/

namespace LlamaTrade

open Arithmetic

/-! ## One position -/

theorem Decimal.add_neg_isZero {x y : Decimal} (hx : x.isFinite) (hround : x.Rounded)
    (h : Arithmetic.neg x = .ok y) : ∃ z, Arithmetic.add x y = .ok z ∧ z.IsZero := by
  obtain ⟨y', hy', hyFin, hyVal⟩ := Decimal.neg_of_fits hx (hround hx)
  cases h.symm.trans hy'
  have hsum : x.toRat + y.toRat = 0 := by rw [hyVal, add_neg_cancel]
  obtain ⟨z, hz, hzFin, hzVal⟩ :=
    Decimal.add_of_fits hx hyFin (hsum ▸ Context.fits_zero defaultContext_range)
  exact ⟨z, hz, hzFin, hzVal.trans hsum⟩

theorem applyPosting_moved {D : Type} [Arithmetic D] (acc : AccountProjection D) (id symbol : String)
    {amount moved costBasis qty : D}
    (hcost : add ((acc.sleeve id).position symbol).costBasis amount = .ok costBasis)
    (hqty : add ((acc.sleeve id).position symbol).qty moved = .ok qty) :
    ∃ acc', applyPosting acc ⟨some id, .position, amount, some symbol, some moved⟩ = (acc', none) ∧
      ∀ x, acc'.sleeve x =
        if x = id then (acc.sleeve id).setPosition symbol ⟨qty, costBasis⟩ else acc.sleeve x := by
  refine ⟨_, by simp [applyPosting, hcost, hqty]; rfl, fun x => ?_⟩
  by_cases hx : x = id
  · simp [hx, sleeve_setSleeve]
  · simp [hx, sleeve_setSleeve]

theorem applyPostings_append {D : Type} [Arithmetic D] (acc : AccountProjection D)
    (ps qs : List (Posting D)) :
    applyPostings acc (ps ++ qs) =
      (applyPostings acc ps).andThen fun acc => applyPostings acc qs := by
  induction ps generalizing acc with
  | nil => rfl
  | cons p ps ih =>
    rw [List.cons_append, applyPostings, applyPostings]
    rcases applyPosting acc p with ⟨next, _ | e⟩
    · exact ih next
    · rfl

theorem rehomePosting_closePosition {D : Type} [Arithmetic D] (frm dest : String)
    (p : RehomedPosition D) :
    rehomePosting frm dest (closePosition p) = do
      let costOut ← neg p.costBasis
      let qtyOut ← neg p.qty
      return [⟨some frm, .position, costOut, some p.symbol, some qtyOut⟩,
        ⟨some dest, .position, p.costBasis, some p.symbol, some p.qty⟩] := by
  simp [rehomePosting, closePosition, entryText, entryNumber, Json.subscript, List.lookup_cons, toNumber,
    pure_eq_ok]

theorem mem_rehomePostings {D : Type} [Arithmetic D] {frm dest : String}
    {ps : List (RehomedPosition D)} {legs : List (Posting D)}
    (h : rehomePostings frm dest (ps.map closePosition) = .ok legs) {p : RehomedPosition D}
    (hp : p ∈ ps) : ⟨some dest, .position, p.costBasis, some p.symbol, some p.qty⟩ ∈ legs := by
  induction ps generalizing legs with
  | nil => cases hp
  | cons x ps ih =>
    simp only [List.map_cons, rehomePostings, rehomePosting_closePosition, bind_eq_ok] at h
    obtain ⟨first, ⟨costOut, -, qtyOut, -, hfirst⟩, rest, hrest, h⟩ := h
    cases hfirst
    cases h
    rcases List.mem_cons.mp hp with rfl | hp
    · simp
    · exact List.mem_append_right _ (ih hrest hp)

/-- A position of the source with finite numbers that the target can take. -/
structure Rehomable (acc : AccountProjection Decimal) (source target : String)
    (p : RehomedPosition Decimal) : Prop where
  held : (acc.sleeve source).position p.symbol = ⟨p.qty, p.costBasis⟩
  qty : p.qty.isFinite
  costBasis : p.costBasis.isFinite
  targetQty : ∃ qty, add ((acc.sleeve target).position p.symbol).qty p.qty = .ok qty
  targetCost : ∃ costBasis,
    add ((acc.sleeve target).position p.symbol).costBasis p.costBasis = .ok costBasis

section Positions

variable {acc : AccountProjection Decimal} {source target : String} {legs : List (Posting Decimal)}

/-- The two legs of a position leave none of it in the source. -/
theorem rehome_position {p : RehomedPosition Decimal} (hne : source ≠ target)
    (hround : (acc.sleeve source).Rounded) (h : Rehomable acc source target p)
    (hlegs : rehomePosting source target (closePosition p) = .ok legs) :
    ∃ acc' qty costBasis, applyPostings acc legs = (acc', none) ∧ qty.IsZero ∧
      acc'.sleeve source = (acc.sleeve source).setPosition p.symbol ⟨qty, costBasis⟩ ∧
      ∀ symbol, symbol ≠ p.symbol →
        (acc'.sleeve target).position symbol = (acc.sleeve target).position symbol := by
  rw [rehomePosting_closePosition] at hlegs
  simp only [bind_eq_ok] at hlegs
  obtain ⟨costOut, hcostOut, qtyOut, hqtyOut, hlegs⟩ := hlegs
  cases hlegs
  have hroundQty := hround.qty p.symbol
  have hroundCost := hround.costBasis p.symbol
  rw [h.held] at hroundQty hroundCost
  obtain ⟨qty, hqty, hzero⟩ := Decimal.add_neg_isZero h.qty hroundQty hqtyOut
  obtain ⟨costBasis, hcost, -⟩ := Decimal.add_neg_isZero h.costBasis hroundCost hcostOut
  obtain ⟨acc₁, hfirst, hsleeve₁⟩ := applyPosting_moved acc source p.symbol
    (by rw [h.held]; exact hcost) (by rw [h.held]; exact hqty)
  obtain ⟨targetQty, htargetQty⟩ := h.targetQty
  obtain ⟨targetCost, htargetCost⟩ := h.targetCost
  have htarget : acc₁.sleeve target = acc.sleeve target := by rw [hsleeve₁, if_neg hne.symm]
  obtain ⟨acc₂, hsecond, hsleeve₂⟩ := applyPosting_moved acc₁ target p.symbol
    (by rw [htarget]; exact htargetCost) (by rw [htarget]; exact htargetQty)
  refine ⟨acc₂, qty, costBasis, ?_, hzero, ?_, fun symbol hsymbol => ?_⟩
  · simp [applyPostings, hfirst, hsecond]
  · rw [hsleeve₂, if_neg hne, hsleeve₁, if_pos rfl]
  · rw [hsleeve₂, if_pos rfl, position_setPosition, if_neg hsymbol, htarget]

/-- The legs of all positions leave none of them in the source. -/
theorem rehome_positions {ps : List (RehomedPosition Decimal)} (hne : source ≠ target)
    (hround : (acc.sleeve source).Rounded) (hnodup : (ps.map (·.symbol)).Nodup)
    (h : ∀ p ∈ ps, Rehomable acc source target p)
    (hlegs : rehomePostings source target (ps.map closePosition) = .ok legs) :
    ∃ acc', applyPostings acc legs = (acc', none) ∧
      (acc'.sleeve source).cash = (acc.sleeve source).cash ∧
      (acc'.sleeve source).reserved = (acc.sleeve source).reserved ∧
      (∀ p ∈ ps, ((acc'.sleeve source).position p.symbol).qty.IsZero) ∧
      ∀ symbol ∉ ps.map (·.symbol),
        (acc'.sleeve source).position symbol = (acc.sleeve source).position symbol := by
  induction ps generalizing acc legs with
  | nil =>
    cases hlegs
    exact ⟨acc, rfl, rfl, rfl, by simp, fun _ _ => rfl⟩
  | cons p ps ih =>
    obtain ⟨hp, hps⟩ := List.forall_mem_cons.mp h
    obtain ⟨hfresh, hnodup⟩ := List.nodup_cons.mp hnodup
    simp only [List.map_cons, rehomePostings, bind_eq_ok] at hlegs
    obtain ⟨first, hfirst, rest, hrest, hlegs⟩ := hlegs
    cases hlegs
    obtain ⟨acc₁, qty, costBasis, hrun₁, hzero, hsource, htarget⟩ :=
      rehome_position hne hround hp hfirst
    have hround₁ : (acc₁.sleeve source).Rounded := by
      have hkept := applyPostings_rounded hround first
      rw [hrun₁] at hkept
      exact hkept
    have hps₁ : ∀ p' ∈ ps, Rehomable acc₁ source target p' := by
      intro p' hp'
      have hsymbol : p'.symbol ≠ p.symbol :=
        fun heq => hfresh (List.mem_map.mpr ⟨p', hp', heq⟩)
      have hold := hps p' hp'
      refine ⟨?_, hold.qty, hold.costBasis, ?_, ?_⟩
      · rw [hsource, position_setPosition, if_neg hsymbol]
        exact hold.held
      · rw [htarget _ hsymbol]
        exact hold.targetQty
      · rw [htarget _ hsymbol]
        exact hold.targetCost
    obtain ⟨acc₂, hrun₂, hcash, hreserved, hmoved, hkept⟩ := ih hround₁ hnodup hps₁ hrest
    refine ⟨acc₂, ?_, ?_, ?_, ?_, ?_⟩
    · rw [applyPostings_append, hrun₁, Attempt.andThen_none, hrun₂]
    · rw [hcash, hsource]
      rfl
    · rw [hreserved, hsource]
      rfl
    · refine List.forall_mem_cons.mpr ⟨?_, hmoved⟩
      rw [hkept _ hfresh, hsource, position_setPosition, if_pos rfl]
      exact hzero
    · intro symbol hsymbol
      obtain ⟨hsymbol, hothers⟩ := not_or.mp (mt List.mem_cons.mpr hsymbol)
      rw [hkept _ hothers, hsource, position_setPosition, if_neg hsymbol]

end Positions

/-! ## The whole close -/

section Close

variable {lotsOf : String → List (Lot Decimal)} {held : List (String × PositionState Decimal)}
  {ps : List (RehomedPosition Decimal)}

theorem rehomedPositions_mem (h : rehomedPositions lotsOf held = .ok ps)
    {p : RehomedPosition Decimal} (hp : p ∈ ps) :
    (p.symbol, ⟨p.qty, p.costBasis⟩) ∈ held ∧ eq p.qty zero = .ok false := by
  induction held generalizing ps with
  | nil =>
    cases h
    cases hp
  | cons x held ih =>
    obtain ⟨symbol, pos⟩ := x
    simp only [rehomedPositions, bind_eq_ok] at h
    obtain ⟨isZero, hzero, rest, hrest, h⟩ := h
    cases h
    split_ifs at hp with hcase
    · obtain ⟨hmem, hqty⟩ := ih hrest hp
      exact ⟨List.mem_cons_of_mem _ hmem, hqty⟩
    · rcases List.mem_cons.mp hp with rfl | hp
      · rw [Bool.not_eq_true] at hcase
        exact ⟨List.mem_cons_self, hcase ▸ hzero⟩
      · obtain ⟨hmem, hqty⟩ := ih hrest hp
        exact ⟨List.mem_cons_of_mem _ hmem, hqty⟩

/-- A position that is not moved has no quantity. -/
theorem rehomedPositions_isZero (h : rehomedPositions lotsOf held = .ok ps) {symbol : String}
    {pos : PositionState Decimal} (hmem : (symbol, pos) ∈ held)
    (hsymbol : symbol ∉ ps.map (·.symbol)) : pos.qty.IsZero := by
  induction held generalizing ps with
  | nil => cases hmem
  | cons x held ih =>
    simp only [rehomedPositions, bind_eq_ok] at h
    obtain ⟨isZero, hzero, rest, hrest, h⟩ := h
    cases h
    rcases List.mem_cons.mp hmem with rfl | hmem
    · split_ifs at hsymbol with hcase
      · exact Decimal.isZero_of_eq (hcase ▸ hzero)
      · exact absurd List.mem_cons_self hsymbol
    · refine ih hrest hmem fun hin => hsymbol ?_
      split_ifs
      · exact hin
      · exact List.mem_cons_of_mem _ hin

theorem rehomedPositions_sublist (h : rehomedPositions lotsOf held = .ok ps) :
    (ps.map (·.symbol)).Sublist (held.map (·.1)) := by
  induction held generalizing ps with
  | nil =>
    cases h
    exact List.Sublist.refl _
  | cons x held ih =>
    simp only [rehomedPositions, bind_eq_ok] at h
    obtain ⟨isZero, hzero, rest, hrest, h⟩ := h
    cases h
    split_ifs
    · exact (ih hrest).cons _
    · exact (ih hrest).cons_cons _

theorem nonzeroPositions_self (h : ∀ p ∈ ps, eq p.qty zero = .ok false) :
    nonzeroPositions ps = .ok ps := by
  induction ps with
  | nil => rfl
  | cons p ps ih =>
    obtain ⟨hp, hps⟩ := List.forall_mem_cons.mp h
    simp [nonzeroPositions, hp, ih hps, pure_eq_ok]

end Close

section Closed

variable {source unmanaged unallocated : UUID} {ps : List (RehomedPosition Decimal)} {cash : Decimal}
  {reason : Option String} {legs : List (Posting Decimal)}

/-- The legs of a close: the positions first, then the cash unless there is none. -/
theorem buildPostings_closeData_cases
    (h : buildPostings .sleeveClosed (closeData source unmanaged unallocated ps cash reason) =
      .ok legs) :
    ∃ moved, rehomePostings source.text unmanaged.text (ps.map closePosition) = .ok moved ∧
      (eq cash zero = .ok true ∧ legs = moved ∨
        ∃ out, neg cash = .ok out ∧
          legs = moved ++ [⟨some source.text, .cash, out, none, none⟩,
            ⟨some unallocated.text, .cash, cash, none, none⟩]) := by
  obtain ⟨hsource, hunmanaged, hunallocated, hpositions, hcash, -⟩ :=
    closeData_lookup source unmanaged unallocated ps cash reason
  have hmoved : closedPositionLegs (D := Decimal) source.text
      (closeData source unmanaged unallocated ps cash reason) =
        rehomePostings source.text unmanaged.text (ps.map closePosition) := by
    simp only [closedPositionLegs, Payload.get, hpositions, Option.getD_some, Payload.text,
      Payload.item, hunmanaged, ok_bind, Json.iter, Json.truthy]
    cases ps with
    | nil => rfl
    | cons p ps => rfl
  simp only [buildPostings, sleeveClosedPostings, Payload.text, Payload.item, hsource, ok_bind,
    Json.pyStr_str, hmoved, numberOrZero, Payload.has, hcash, Option.isSome_some, if_true, number,
    toNumber, parse_text, hunallocated, bind_eq_ok] at h
  obtain ⟨moved, hmoved, isZero, hzero, h⟩ := h
  refine ⟨moved, hmoved, ?_⟩
  split_ifs at h with hcase
  · cases h
    exact .inl ⟨hcase ▸ hzero, rfl⟩
  · simp only [bind_eq_ok] at h
    obtain ⟨out, hout, h⟩ := h
    cases h
    exact .inr ⟨out, hout, rfl⟩

theorem SleeveProjection.position_of_get {s : SleeveProjection Decimal} {symbol : String}
    {pos : PositionState Decimal} (h : s.positions[symbol]? = some pos) : s.position symbol = pos := by
  rw [SleeveProjection.position, Std.ExtTreeMap.getD_eq_getD_getElem?, h, Option.getD_some]

/-- The target can take the positions of a sleeve: those with a quantity are finite, and
neither the quantity nor the cost overflows when it is added. -/
def TakesPositions (target s : SleeveProjection Decimal) : Prop :=
  ∀ (symbol : String) (pos : PositionState Decimal), s.positions[symbol]? = some pos →
    eq pos.qty zero = .ok false → pos.qty.isFinite ∧
      (∃ qty, add (target.position symbol).qty pos.qty = .ok qty) ∧
      ∃ costBasis, add (target.position symbol).costBasis pos.costBasis = .ok costBasis

/-- The legs of a planned close empty the sleeve. -/
theorem applyPostings_close {acc : AccountProjection Decimal} {lotsOf : String → List (Lot Decimal)}
    (hunmanaged : source.text ≠ unmanaged.text) (hunallocated : source.text ≠ unallocated.text)
    (hround : (acc.sleeve source.text).Rounded) (hreserved : (acc.sleeve source.text).reserved.IsZero)
    (htakes : TakesPositions (acc.sleeve unmanaged.text) (acc.sleeve source.text))
    (hps : rehomedPositions lotsOf (acc.sleeve source.text).positions.toList = .ok ps)
    (hcash : cash = (acc.sleeve source.text).cash)
    (hlegs : buildPostings .sleeveClosed (closeData source unmanaged unallocated ps cash reason) =
      .ok legs) (hbalanced : assertBalanced legs = .ok ()) :
    ((applyPostings acc legs).1.sleeve source.text).IsEmpty := by
  obtain ⟨moved, hmoved, hcases⟩ := buildPostings_closeData_cases hlegs
  have hget : ∀ p ∈ ps, (acc.sleeve source.text).positions[p.symbol]? = some ⟨p.qty, p.costBasis⟩ :=
    fun p hp => Std.ExtTreeMap.mem_toList_iff_getElem?_eq_some.mp (rehomedPositions_mem hps hp).1
  have hnodup : (ps.map (·.symbol)).Nodup := by
    refine (rehomedPositions_sublist hps).nodup ?_
    rw [Std.ExtTreeMap.map_fst_toList_eq_keys]
    exact Std.ExtTreeMap.nodup_keys
  have hmovedLegs : ∀ leg ∈ moved, leg ∈ legs := by
    intro leg hleg
    rcases hcases with ⟨-, rfl⟩ | ⟨out, -, rfl⟩
    · exact hleg
    · exact List.mem_append_left _ hleg
  have hfinite := isFinite_of_balanced hbalanced
  have hrehomable : ∀ p ∈ ps, Rehomable acc source.text unmanaged.text p := by
    intro p hp
    obtain ⟨hqty, htakesQty, htakesCost⟩ :=
      htakes p.symbol _ (hget p hp) (rehomedPositions_mem hps hp).2
    exact ⟨SleeveProjection.position_of_get (hget p hp), hqty,
      hfinite _ (hmovedLegs _ (mem_rehomePostings hmoved hp)), htakesQty, htakesCost⟩
  obtain ⟨acc₁, hrun₁, hcash₁, hreserved₁, hgone, hkept⟩ :=
    rehome_positions hunmanaged hround hnodup hrehomable hmoved
  have hpositions : ∀ (symbol : String) (pos : PositionState Decimal),
      (acc₁.sleeve source.text).positions[symbol]? = some pos → pos.qty.IsZero := by
    intro symbol pos hpos
    have hpos := SleeveProjection.position_of_get hpos
    by_cases hsymbol : symbol ∈ ps.map (·.symbol)
    · obtain ⟨p, hp, rfl⟩ := List.mem_map.mp hsymbol
      rw [← hpos]
      exact hgone p hp
    · rw [hkept symbol hsymbol, SleeveProjection.position,
        Std.ExtTreeMap.getD_eq_getD_getElem?] at hpos
      cases hold : (acc.sleeve source.text).positions[symbol]? with
      | none =>
        rw [hold, Option.getD_none] at hpos
        rw [← hpos]
        exact Decimal.isZero_zero
      | some old =>
        rw [hold, Option.getD_some] at hpos
        subst hpos
        exact rehomedPositions_isZero hps
          (Std.ExtTreeMap.mem_toList_iff_getElem?_eq_some.mpr hold) hsymbol
  rcases hcases with ⟨hzero, rfl⟩ | ⟨out, hout, rfl⟩
  · rw [hrun₁]
    exact ⟨by rw [hcash₁, ← hcash]; exact Decimal.isZero_of_eq hzero, hreserved₁ ▸ hreserved,
      hpositions⟩
  · have hfin : cash.isFinite := hfinite ⟨some unallocated.text, .cash, cash, none, none⟩ (by simp)
    obtain ⟨rest, hrest, hrestZero⟩ := Decimal.add_neg_isZero hfin (hcash ▸ hround.cash) hout
    have hpaid : applyPosting acc₁ ⟨some source.text, .cash, out, none, none⟩ =
        ((acc₁.setSleeve source.text (acc₁.sleeve source.text)).setSleeve source.text
          { acc₁.sleeve source.text with cash := rest }, none) := by
      simp [applyPosting, hcash₁, ← hcash, hrest]
    rw [applyPostings_append, hrun₁, Attempt.andThen_none, applyPostings, hpaid,
      Attempt.andThen_none, applyPostings_sleeve (by simpa using hunallocated.symm), sleeve_setSleeve,
      if_pos rfl]
    exact ⟨hrestZero, hreserved₁ ▸ hreserved, hpositions⟩

theorem validated_of_balanced {D : Type} [Arithmetic D] {t : LedgerEventType} {data : Payload}
    {ps : List (Posting D)} (h : buildPostings t data = .ok ps) (hbalanced : assertBalanced ps = .ok ()) :
    validatedPostings t data = .ok ps := by
  simp only [validatedPostings, h, ok_bind, hbalanced]
  split_ifs <;> rfl

/-- The event of a planned close empties the sleeve. -/
theorem foldEvent_close {s : FoldState Decimal} {lotsOf : String → List (Lot Decimal)} {seq : ℕ}
    {positions : List (RehomedPosition Decimal)} {plan : ClosePlan Decimal}
    (hunmanaged : source.text ≠ unmanaged.text) (hunallocated : source.text ≠ unallocated.text)
    (hround : (s.acc.sleeve source.text).Rounded)
    (hreserved : eq (s.acc.sleeve source.text).reserved zero = .ok true)
    (htakes : TakesPositions (s.acc.sleeve unmanaged.text) (s.acc.sleeve source.text))
    (hpositions : rehomedPositions lotsOf (s.acc.sleeve source.text).positions.toList =
      .ok positions)
    (hplan : planSleeveClose source positions (s.acc.sleeve source.text).cash unmanaged unallocated
      reason = .ok plan)
    (hlegs : buildPostings .sleeveClosed plan.eventData = .ok legs)
    (hbalanced : assertBalanced legs = .ok ()) :
    ((foldEvent s ⟨seq, LedgerEventType.sleeveClosed.value, plan.eventData⟩).acc.sleeve
      source.text).IsEmpty := by
  rw [planSleeveClose, nonzeroPositions_self fun p hp => (rehomedPositions_mem hpositions hp).2]
    at hplan
  cases hplan
  have hres : applyReservation s .sleeveClosed (closeData source unmanaged unallocated positions
      (s.acc.sleeve source.text).cash reason) = (s, none) := by
    unfold applyReservation
    rw [present_closeData]
  rw [foldEvent_acc_sleeve]
  simp only [applyEvent, LedgerEventType.coerce_value, Attempt.guarded_ok,
    validated_of_balanced hlegs hbalanced, hres, Attempt.andThen_none]
  exact applyPostings_close hunmanaged hunallocated hround (Decimal.isZero_of_eq hreserved) htakes
    hpositions rfl hlegs hbalanced

end Closed

end LlamaTrade
