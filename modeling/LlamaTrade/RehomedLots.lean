import LlamaTrade.LotsAgree

/-!
# Closing a sleeve

A close moves the positions of a sleeve to another one. The balance fold moves the listed
quantities and costs; the lot fold drops all lots of the sleeve and opens the listed lots,
or one lot per position when none are listed, in the target. Both agree when the close is
planned from the positions and the lots of the sleeve.
-/

namespace LlamaTrade

/-! ## The payload and its legs -/

section Data

variable {D : Type} [Arithmetic D] (source unmanaged unallocated : UUID)
  (ps : List (RehomedPosition D)) (cash : D) (reason : Option String)

theorem closeData_lookup :
    (closeData source unmanaged unallocated ps cash reason).lookup "sleeve_id" =
        some (.str source.text) ∧
      (closeData source unmanaged unallocated ps cash reason).lookup "to_position_sleeve_id" =
        some (.str unmanaged.text) ∧
      (closeData source unmanaged unallocated ps cash reason).lookup "to_cash_sleeve_id" =
        some (.str unallocated.text) ∧
      (closeData source unmanaged unallocated ps cash reason).lookup "positions" =
        some (.list (ps.map closePosition)) ∧
      (closeData source unmanaged unallocated ps cash reason).lookup "cash" =
        some (.str (Arithmetic.text cash)) ∧
      (closeData source unmanaged unallocated ps cash reason).lookup "lots" =
        if closeLots ps = [] then none else some (.list (closeLots ps)) := by
  unfold closeData
  cases reason with
  | none => by_cases h : closeLots ps = [] <;> simp [h, List.lookup_cons]
  | some r => by_cases h : closeLots ps = [] <;> by_cases hr : r = "" <;> simp [h, hr, List.lookup_cons]

theorem present_closeData :
    present (closeData source unmanaged unallocated ps cash reason) "client_order_id" = none := by
  have hlookup : (closeData source unmanaged unallocated ps cash reason).lookup "client_order_id" =
      none := by
    unfold closeData
    cases reason with
    | none => by_cases h : closeLots ps = [] <;> simp [h, List.lookup_cons]
    | some r => by_cases h : closeLots ps = [] <;> by_cases hr : r = "" <;> simp [h, hr, List.lookup_cons]
  simp [present, Payload.get, hlookup]

end Data

section Payload

variable (source unmanaged unallocated : UUID) (ps : List (RehomedPosition ℚ)) (cash : ℚ)
  (reason : Option String)

def rehomeLegs (frm dest : String) (p : RehomedPosition ℚ) : List (Posting ℚ) :=
  [⟨some frm, .position, -p.costBasis, some p.symbol, some (-p.qty)⟩,
    ⟨some dest, .position, p.costBasis, some p.symbol, some p.qty⟩]

theorem rehomePostings_exact (frm dest : String) :
    rehomePostings frm dest (ps.map closePosition) = .ok (ps.flatMap (rehomeLegs frm dest)) := by
  induction ps with
  | nil => rfl
  | cons p ps ih =>
    simp [rehomePostings, rehomePosting, closePosition, entryText, entryNumber, Json.subscript,
      List.lookup_cons, toNumber, ih, pure_eq_ok, rehomeLegs]

/-- The legs of a close: the positions, and the cash unless there is none. -/
def closeLegs : List (Posting ℚ) :=
  ps.flatMap (rehomeLegs source.text unmanaged.text) ++
    if cash = 0 then [] else [⟨some source.text, .cash, -cash, none, none⟩,
      ⟨some unallocated.text, .cash, cash, none, none⟩]

theorem buildPostings_closeData :
    buildPostings .sleeveClosed (closeData source unmanaged unallocated ps cash reason) =
      .ok (closeLegs source unmanaged unallocated ps cash) := by
  obtain ⟨hsource, hunmanaged, hunallocated, hpositions, hcash, -⟩ :=
    closeData_lookup source unmanaged unallocated ps cash reason
  have hmoved : closedPositionLegs source.text
      (closeData source unmanaged unallocated ps cash reason) =
        .ok (ps.flatMap (rehomeLegs source.text unmanaged.text)) := by
    simp only [closedPositionLegs, Payload.get, hpositions, Option.getD_some, Payload.text,
      Payload.item, hunmanaged, ok_bind, Json.iter, rehomePostings_exact, Json.truthy]
    cases ps with
    | nil => rfl
    | cons p ps => rfl
  simp only [buildPostings, sleeveClosedPostings, Payload.text, Payload.item, hsource, ok_bind,
    Json.pyStr_str, hmoved, numberOrZero, Payload.has, hcash, Option.isSome_some, if_true, number,
    toNumber, Arithmetic.parse_text, ExactNumber.eq_eq, ExactNumber.zero_eq, hunallocated,
    ExactNumber.neg_eq, pure_eq_ok, closeLegs]
  by_cases hzero : cash = 0 <;> simp [hzero]

end Payload

/-- The quantity that a list of positions moves of one symbol. -/
def rehomedQty (ps : List (RehomedPosition ℚ)) (symbol : String) : ℚ :=
  (ps.map fun p => if p.symbol = symbol then p.qty else 0).sum

def rehomedCost (ps : List (RehomedPosition ℚ)) (symbol : String) : ℚ :=
  (ps.map fun p => if p.symbol = symbol then p.costBasis else 0).sum

theorem closeLegs_sum (source unmanaged unallocated : UUID) (ps : List (RehomedPosition ℚ))
    (cash : ℚ) : ((closeLegs source unmanaged unallocated ps cash).map (·.amount)).sum = 0 := by
  have hmoved : ((ps.flatMap (rehomeLegs source.text unmanaged.text)).map (·.amount)).sum = 0 := by
    induction ps with
    | nil => rfl
    | cons p ps ih => simp [rehomeLegs, ih]
  rw [closeLegs, List.map_append, List.sum_append, hmoved]
  by_cases hzero : cash = 0 <;> simp [hzero]

/-- What a close adds to the position of a sleeve and symbol. -/
theorem closeLegs_moves (source unmanaged unallocated : UUID) (ps : List (RehomedPosition ℚ))
    (cash : ℚ) (sl sy : String) :
    ((closeLegs source unmanaged unallocated ps cash).map (legQty sl sy)).sum =
        (if sl = unmanaged.text then rehomedQty ps sy else 0) -
          (if sl = source.text then rehomedQty ps sy else 0) ∧
      ((closeLegs source unmanaged unallocated ps cash).map (legCost sl sy)).sum =
        (if sl = unmanaged.text then rehomedCost ps sy else 0) -
          (if sl = source.text then rehomedCost ps sy else 0) := by
  have hcash : ∀ legs : List (Posting ℚ), (∀ p ∈ legs, p.bucket = .cash) →
      (legs.map (legQty sl sy)).sum = 0 ∧ (legs.map (legCost sl sy)).sum = 0 := by
    intro legs hlegs
    induction legs with
    | nil => simp
    | cons p legs ih =>
      obtain ⟨hp, hlegs⟩ := List.forall_mem_cons.mp hlegs
      have hmoves : ¬ p.Moves sl sy := fun h => by simp [Posting.Moves, hp] at h
      simp [legs_of_not_moves hmoves, ih hlegs]
  have hmoved : ∀ p : RehomedPosition ℚ,
      ((rehomeLegs source.text unmanaged.text p).map (legQty sl sy)).sum =
          (if sl = unmanaged.text then if p.symbol = sy then p.qty else 0 else 0) -
            (if sl = source.text then if p.symbol = sy then p.qty else 0 else 0) ∧
        ((rehomeLegs source.text unmanaged.text p).map (legCost sl sy)).sum =
          (if sl = unmanaged.text then if p.symbol = sy then p.costBasis else 0 else 0) -
            (if sl = source.text then if p.symbol = sy then p.costBasis else 0 else 0) := by
    intro p
    simp only [rehomeLegs, legQty, legCost, Posting.Moves, List.map_cons, List.map_nil,
      List.sum_cons, List.sum_nil, true_and, Option.some.injEq, @eq_comm _ source.text sl,
      @eq_comm _ unmanaged.text sl, Option.getD_some]
    by_cases hsym : p.symbol = sy
    · simp only [hsym, and_true, if_true]
      constructor <;> split_ifs <;> ring
    · simp [hsym]
  have hall : ((ps.flatMap (rehomeLegs source.text unmanaged.text)).map (legQty sl sy)).sum =
        (if sl = unmanaged.text then rehomedQty ps sy else 0) -
          (if sl = source.text then rehomedQty ps sy else 0) ∧
      ((ps.flatMap (rehomeLegs source.text unmanaged.text)).map (legCost sl sy)).sum =
        (if sl = unmanaged.text then rehomedCost ps sy else 0) -
          (if sl = source.text then rehomedCost ps sy else 0) := by
    induction ps with
    | nil => simp [rehomedQty, rehomedCost]
    | cons p ps ih =>
      rw [List.flatMap_cons, List.map_append, List.sum_append, List.map_append, List.sum_append,
        (hmoved p).1, (hmoved p).2, ih.1, ih.2]
      simp only [rehomedQty, rehomedCost, List.map_cons, List.sum_cons]
      constructor <;> split_ifs <;> ring
  have hlast := hcash (if cash = 0 then [] else [⟨some source.text, .cash, -cash, none, none⟩,
    ⟨some unallocated.text, .cash, cash, none, none⟩]) (by split_ifs <;> simp)
  rw [closeLegs, List.map_append, List.sum_append, List.map_append, List.sum_append, hall.1, hall.2,
    hlast.1, hlast.2, add_zero, add_zero]
  exact ⟨rfl, rfl⟩

/-! ## The lots a close opens -/

def addLots (book : LotBook ℚ) (target : String) (moved : List (String × Lot ℚ)) : LotBook ℚ :=
  moved.foldl (fun book l => addLot book target l.1 l.2) book

/-- The lots of one symbol. -/
def lotsOf (moved : List (String × Lot ℚ)) (symbol : String) : List (Lot ℚ) :=
  (moved.filter (·.1 = symbol)).map (·.2)

theorem addEntries_exact {read : Json → Except PyError (Option (String × Lot ℚ))}
    {entries : List Json} {moved : List (String × Lot ℚ)}
    (h : List.Forall₂ (fun entry l => read entry = .ok (some l)) entries moved)
    (book : LotBook ℚ) (target : String) :
    addEntries read target book entries = (addLots book target moved, none) := by
  induction h generalizing book with
  | nil => rfl
  | cons hentry _ ih => simp [addEntries, hentry, ih, addLots]

/-- Opened lots are sorted into the lots of the target; other sleeves keep theirs. -/
theorem addLots_lots (moved : List (String × Lot ℚ)) (book : LotBook ℚ) (target sl sy : String) :
    (sl ≠ target → (addLots book target moved).lots sl sy = book.lots sl sy) ∧
      ((addLots book target moved).lots target sy).Perm (book.lots target sy ++ lotsOf moved sy) ∧
      ((book.lots target sy).Pairwise (fun a b => a.openedSeq ≤ b.openedSeq) →
        ((addLots book target moved).lots target sy).Pairwise
          fun a b => a.openedSeq ≤ b.openedSeq) := by
  induction moved generalizing book with
  | nil => simp [addLots, lotsOf]
  | cons l moved ih =>
    obtain ⟨hother, hperm, hsorted⟩ := ih (addLot book target l.1 l.2)
    have hadd : ∀ sl, (addLot book target l.1 l.2).lots sl sy =
        if sl = target ∧ sy = l.1 then sortLots (book.lots target l.1 ++ [l.2])
        else book.lots sl sy := fun sl => lots_setLots _ _ _ _ _ _
    refine ⟨fun hsl => ?_, ?_, fun hs => hsorted ?_⟩
    · exact (hother hsl).trans (by simp [hadd, hsl])
    · refine hperm.trans ?_
      by_cases hsy : l.1 = sy
      · subst hsy
        have hlots : lotsOf (l :: moved) l.1 = [l.2] ++ lotsOf moved l.1 := by simp [lotsOf]
        rw [hadd, hlots, if_pos ⟨rfl, rfl⟩, ← List.append_assoc]
        exact (sortLots_perm _).append_right _
      · simp [hadd, lotsOf, hsy, Ne.symm hsy]
    · rw [hadd]
      split_ifs
      · exact sortLots_sorted _
      · exact hs

/-- The lots a close opens: the listed ones, or one per position. -/
def movedLots (seq : ℤ) (ps : List (RehomedPosition ℚ)) : List (String × Lot ℚ) :=
  if closeLots ps = [] then ps.map fun p => (p.symbol, ⟨p.qty, p.costBasis, seq⟩)
  else ps.flatMap fun p => p.lots.map fun lot => (p.symbol, lot)

theorem lotsOf_append (xs ys : List (String × Lot ℚ)) (symbol : String) :
    lotsOf (xs ++ ys) symbol = lotsOf xs symbol ++ lotsOf ys symbol := by simp [lotsOf]

/-- Listed lots of agreeing positions carry what the positions carry. -/
theorem lotsOf_listed {m : ℤ} {ps : List (RehomedPosition ℚ)}
    (h : ∀ p ∈ ps, AgreeAt m p.lots ⟨p.qty, p.costBasis⟩) (sy : String) :
    totalQty (lotsOf (ps.flatMap fun p => p.lots.map fun lot => (p.symbol, lot)) sy) =
        rehomedQty ps sy ∧
      totalCost (lotsOf (ps.flatMap fun p => p.lots.map fun lot => (p.symbol, lot)) sy) =
        rehomedCost ps sy ∧
      ∀ lot ∈ lotsOf (ps.flatMap fun p => p.lots.map fun lot => (p.symbol, lot)) sy,
        0 < lot.qty ∧ 0 ≤ lot.costBasis ∧ lot.openedSeq < m := by
  induction ps with
  | nil => simp [lotsOf, rehomedQty, rehomedCost]
  | cons p ps ih =>
    obtain ⟨hp, hps⟩ := List.forall_mem_cons.mp h
    obtain ⟨hqty, hcost, hlots⟩ := ih hps
    have hfirst : lotsOf (p.lots.map fun lot => (p.symbol, lot)) sy =
        if p.symbol = sy then p.lots else [] := by
      by_cases hsy : p.symbol = sy <;> simp [lotsOf, List.filter_map, hsy, Function.comp_def]
    rw [List.flatMap_cons, lotsOf_append, hfirst]
    by_cases hsy : p.symbol = sy
    · simp only [hsy, if_true, totalQty_append, totalCost_append, hqty, hcost, hp.qty, hp.cost,
        List.mem_append, rehomedQty, rehomedCost, List.map_cons, List.sum_cons, true_and]
      rintro lot (hlot | hlot)
      · exact hp.ok.each lot hlot
      · exact hlots lot hlot
    · simpa [hsy, rehomedQty, rehomedCost] using ⟨hqty, hcost, hlots⟩

/-- One lot per position carries what the positions carry. -/
theorem lotsOf_blended {m : ℤ} {ps : List (RehomedPosition ℚ)} (seq : ℤ)
    (h : ∀ p ∈ ps, 0 < p.qty ∧ 0 ≤ p.costBasis) (hseq : seq < m) (sy : String) :
    totalQty (lotsOf (ps.map fun p => (p.symbol, ⟨p.qty, p.costBasis, seq⟩)) sy) =
        rehomedQty ps sy ∧
      totalCost (lotsOf (ps.map fun p => (p.symbol, ⟨p.qty, p.costBasis, seq⟩)) sy) =
        rehomedCost ps sy ∧
      ∀ lot ∈ lotsOf (ps.map fun p => (p.symbol, ⟨p.qty, p.costBasis, seq⟩)) sy,
        0 < lot.qty ∧ 0 ≤ lot.costBasis ∧ lot.openedSeq < m := by
  induction ps with
  | nil => simp [lotsOf, rehomedQty, rehomedCost]
  | cons p ps ih =>
    obtain ⟨hp, hps⟩ := List.forall_mem_cons.mp h
    obtain ⟨hqty, hcost, hlots⟩ := ih hps
    by_cases hsy : p.symbol = sy
    · have hfirst : lotsOf ((p :: ps).map fun p => (p.symbol, ⟨p.qty, p.costBasis, seq⟩)) sy =
          ⟨p.qty, p.costBasis, seq⟩ ::
            lotsOf (ps.map fun p => (p.symbol, ⟨p.qty, p.costBasis, seq⟩)) sy := by
        simp [lotsOf, hsy]
      rw [hfirst, totalQty_cons, totalCost_cons, hqty, hcost]
      refine ⟨by simp [rehomedQty, hsy], by simp [rehomedCost, hsy], ?_⟩
      exact List.forall_mem_cons.mpr ⟨⟨hp.1, hp.2, hseq⟩, hlots⟩
    · have hfirst : lotsOf ((p :: ps).map fun p => (p.symbol, ⟨p.qty, p.costBasis, seq⟩)) sy =
          lotsOf (ps.map fun p => (p.symbol, ⟨p.qty, p.costBasis, seq⟩)) sy := by
        simp [lotsOf, hsy]
      rw [hfirst]
      exact ⟨by simpa [rehomedQty, hsy] using hqty, by simpa [rehomedCost, hsy] using hcost, hlots⟩

/-- The book once the closing sleeve has lost its lots. -/
def withoutSleeve (book : LotBook ℚ) (source target : String) : LotBook ℚ :=
  let book : LotBook ℚ := book.insert source ∅
  book.insert target (book.getD target ∅)

theorem withoutSleeve_lots (book : LotBook ℚ) (source target sl sy : String) :
    (withoutSleeve book source target).lots sl sy =
      if sl = source then [] else book.lots sl sy := by
  unfold withoutSleeve
  rw [lots_insert_self, lots_insert]
  simp

theorem applySleeveClose_closeData {ps : List (RehomedPosition ℚ)} (h : ∀ p ∈ ps, p.qty ≠ 0)
    (source unmanaged unallocated : UUID) (cash : ℚ) (reason : Option String) (seq : ℤ)
    (book : LotBook ℚ) :
    applySleeveClose book (closeData source unmanaged unallocated ps cash reason) seq =
      (addLots (withoutSleeve book source.text unmanaged.text) unmanaged.text (movedLots seq ps),
        none) := by
  obtain ⟨hsource, hunmanaged, -, hpositions, -, hlots⟩ :=
    closeData_lookup source unmanaged unallocated ps cash reason
  simp only [applySleeveClose, present, Payload.get, hsource, hunmanaged, Option.getD_some,
    Option.elim_some, Json.pyStr_str, hlots, hpositions]
  by_cases hlisted : closeLots ps = []
  · have hmoved : movedLots seq ps = ps.map fun p => (p.symbol, ⟨p.qty, p.costBasis, seq⟩) :=
      if_pos hlisted
    have hread : List.Forall₂ (fun entry l => blendedLot seq entry = .ok (some l))
        (ps.map closePosition) (movedLots seq ps) := by
      rw [hmoved, List.forall₂_map_left_iff, List.forall₂_map_right_iff]
      refine List.forall₂_same.mpr fun p hp => ?_
      simp [blendedLot, closePosition, entryText, Json.subscript, List.lookup_cons, h p hp, pure_eq_ok]
    simp only [hlisted, if_true, Option.getD_none, Json.truthy, Bool.false_eq_true, if_false,
      Json.iter, Attempt.guarded_ok, addEntries_exact hread]
    cases ps with
    | nil => simp [movedLots, addLots, withoutSleeve, closeLots]
    | cons p ps => simp [withoutSleeve]
  · have hmoved : movedLots seq ps = ps.flatMap fun p => p.lots.map fun lot => (p.symbol, lot) :=
      if_neg hlisted
    have hread : List.Forall₂ (fun entry l => (closedLot entry).map some = .ok (some l))
        (closeLots ps) (movedLots seq ps) := by
      rw [hmoved, closeLots, List.flatMap_def, List.flatMap_def]
      refine List.rel_flatten ?_
      rw [List.forall₂_map_left_iff, List.forall₂_map_right_iff]
      refine List.forall₂_same.mpr fun p _ => ?_
      rw [List.forall₂_map_left_iff, List.forall₂_map_right_iff]
      refine List.forall₂_same.mpr fun lot _ => ?_
      simp [closedLot, closeLot, entryText, Json.subscript, List.lookup_cons, Json.toInt, pure_eq_ok,
        Except.map]
    simp [hlisted, Json.truthy, Json.iter, addEntries_exact hread, withoutSleeve]

/-! ## Planning a close -/

/-- The event is the close planned from the positions of the sleeve, in any order, and its
open lots or none. -/
def ClosePlanned (s : FoldState ℚ) (book : LotBook ℚ) (data : Payload) : Prop :=
  ∃ (source unmanaged unallocated : UUID) (held : List (String × PositionState ℚ))
    (reader : String → List (Lot ℚ)) (positions : List (RehomedPosition ℚ))
    (reason : Option String) (plan : ClosePlan ℚ),
    held.Perm (s.acc.sleeve source.text).positions.toList ∧
      (reader = book.lots source.text ∨ reader = fun _ => []) ∧
      rehomedPositions reader held = .ok positions ∧
      planSleeveClose source positions (s.acc.sleeve source.text).cash unmanaged unallocated reason =
        .ok plan ∧ data = plan.eventData

theorem rehomedPositions_exact (reader : String → List (Lot ℚ))
    (held : List (String × PositionState ℚ)) :
    rehomedPositions reader held = .ok ((held.filter fun x => x.2.qty ≠ 0).map fun x =>
      ⟨x.1, x.2.qty, x.2.costBasis, reader x.1⟩) := by
  induction held with
  | nil => rfl
  | cons x held ih =>
    obtain ⟨symbol, pos⟩ := x
    by_cases h : pos.qty = 0 <;> simp [rehomedPositions, ih, h, pure_eq_ok]

theorem nonzeroPositions_exact {ps : List (RehomedPosition ℚ)} (h : ∀ p ∈ ps, p.qty ≠ 0) :
    nonzeroPositions ps = .ok ps := by
  induction ps with
  | nil => rfl
  | cons p ps ih =>
    obtain ⟨hp, hps⟩ := List.forall_mem_cons.mp h
    simp [nonzeroPositions, ih hps, hp, pure_eq_ok]

/-- Summing over the entries of one key of a list with distinct keys. -/
private theorem sum_at_key {held : List (String × PositionState ℚ)}
    (hdistinct : held.Pairwise fun a b => a.1 ≠ b.1) (f : PositionState ℚ → ℚ) (symbol : String) :
    (∀ pos, (symbol, pos) ∈ held →
        (held.map fun x => if x.1 = symbol then f x.2 else 0).sum = f pos) ∧
      ((∀ pos, (symbol, pos) ∉ held) →
        (held.map fun x => if x.1 = symbol then f x.2 else 0).sum = 0) := by
  induction held with
  | nil => simp
  | cons x held ih =>
    obtain ⟨hx, hheld⟩ := List.pairwise_cons.mp hdistinct
    obtain ⟨hmem, hnot⟩ := ih hheld
    have hrest : x.1 = symbol → ∀ pos, (symbol, pos) ∉ held :=
      fun hsym pos hpos => hx _ hpos hsym
    refine ⟨fun pos hpos => ?_, fun hnone => ?_⟩
    · rcases List.mem_cons.mp hpos with rfl | hpos
      · simp [hnot (hrest rfl)]
      · have hne : x.1 ≠ symbol := fun hsym => hrest hsym pos hpos
        simp [hne, hmem pos hpos]
    · have hne : x.1 ≠ symbol := fun hsym => hnone x.2 (by simp [← hsym])
      simp [hne, hnot fun pos hpos => hnone pos (by simp [hpos])]

private theorem sum_filter_of_zero {held : List (String × PositionState ℚ)}
    (f : String × PositionState ℚ → ℚ) (h : ∀ x ∈ held, x.2.qty = 0 → f x = 0) :
    ((held.filter fun x => x.2.qty ≠ 0).map f).sum = (held.map f).sum := by
  induction held with
  | nil => rfl
  | cons x held ih =>
    obtain ⟨hx, hheld⟩ := List.forall_mem_cons.mp h
    by_cases hzero : x.2.qty = 0
    · have hfilter : ((x :: held).filter fun x => x.2.qty ≠ 0) =
          held.filter fun x => x.2.qty ≠ 0 := by simp [hzero]
      rw [hfilter, ih hheld, List.map_cons, List.sum_cons, hx hzero, zero_add]
    · have hfilter : ((x :: held).filter fun x => x.2.qty ≠ 0) =
          x :: held.filter fun x => x.2.qty ≠ 0 := by simp [hzero]
      rw [hfilter, List.map_cons, List.sum_cons, ih hheld, List.map_cons, List.sum_cons]

section Held

variable {m : ℤ} {s : FoldState ℚ} {book : LotBook ℚ} {ev : LedgerEvent} {source : String}
  {held : List (String × PositionState ℚ)}

theorem positionOf_of_mem_held (hheld : held.Perm (s.acc.sleeve source).positions.toList)
    {x : String × PositionState ℚ} (hx : x ∈ held) : s.acc.positionOf source x.1 = x.2 := by
  have hget : (s.acc.sleeve source).positions[x.1]? = some x.2 :=
    Std.ExtTreeMap.mem_toList_iff_getElem?_eq_some.mp (hheld.mem_iff.mp hx)
  simp [AccountProjection.positionOf, SleeveProjection.position,
    Std.ExtTreeMap.getD_eq_getD_getElem?, hget]

theorem distinct_held (hheld : held.Perm (s.acc.sleeve source).positions.toList) :
    held.Pairwise fun a b => a.1 ≠ b.1 := by
  have hkeys := Std.ExtTreeMap.distinct_keys_toList (t := (s.acc.sleeve source).positions)
  refine hheld.symm.pairwise (hkeys.imp fun h => ?_) fun h => h.symm
  exact fun heq => h (by rw [heq]; exact Std.ReflCmp.compare_self)

/-- Summing a part of the positions of a sleeve over the entries of one symbol. -/
theorem sum_held (hheld : held.Perm (s.acc.sleeve source).positions.toList)
    (f : PositionState ℚ → ℚ) (hf : f ⟨0, 0⟩ = 0) (symbol : String) :
    (held.map fun x => if x.1 = symbol then f x.2 else 0).sum =
      f (s.acc.positionOf source symbol) := by
  obtain ⟨hmem, hnot⟩ := sum_at_key (distinct_held hheld) f symbol
  by_cases h : ∃ pos, (symbol, pos) ∈ held
  · obtain ⟨pos, hpos⟩ := h
    rw [hmem pos hpos, positionOf_of_mem_held hheld hpos]
  · have hnone : ∀ pos, (symbol, pos) ∉ held := fun pos hpos => h ⟨pos, hpos⟩
    have hget : (s.acc.sleeve source).positions[symbol]? = none := by
      cases hget : (s.acc.sleeve source).positions[symbol]? with
      | none => rfl
      | some pos =>
        exact absurd (hheld.mem_iff.mpr
          (Std.ExtTreeMap.mem_toList_iff_getElem?_eq_some.mpr hget)) (hnone pos)
    have hempty : s.acc.positionOf source symbol = ⟨0, 0⟩ := by
      simp [AccountProjection.positionOf, SleeveProjection.position,
        Std.ExtTreeMap.getD_eq_getD_getElem?, hget, PositionState.empty]
    rw [hnot hnone, hempty, hf]

/-- The positions that a plan lists. -/
def plannedPositions (reader : String → List (Lot ℚ)) (held : List (String × PositionState ℚ)) :
    List (RehomedPosition ℚ) :=
  (held.filter fun x => x.2.qty ≠ 0).map fun x => ⟨x.1, x.2.qty, x.2.costBasis, reader x.1⟩

theorem mem_plannedPositions {reader : String → List (Lot ℚ)} {p : RehomedPosition ℚ}
    (h : p ∈ plannedPositions reader held) :
    ∃ x ∈ held, x.2.qty ≠ 0 ∧ p = ⟨x.1, x.2.qty, x.2.costBasis, reader x.1⟩ := by
  obtain ⟨x, hx, rfl⟩ := List.mem_map.mp h
  obtain ⟨hmem, hqty⟩ := List.mem_filter.mp hx
  exact ⟨x, hmem, by simpa using hqty, rfl⟩

/-- A plan moves all of every position. -/
theorem rehomed_planned (hagree : Agree m s book)
    (hheld : held.Perm (s.acc.sleeve source).positions.toList) (reader : String → List (Lot ℚ))
    (symbol : String) :
    rehomedQty (plannedPositions reader held) symbol = (s.acc.positionOf source symbol).qty ∧
      rehomedCost (plannedPositions reader held) symbol =
        (s.acc.positionOf source symbol).costBasis := by
  have hzero : ∀ x ∈ held, x.2.qty = 0 → x.2.costBasis = 0 := by
    intro x hx hqty
    have hat := hagree source x.1
    rw [positionOf_of_mem_held hheld hx] at hat
    exact hat.cost_eq_zero hqty
  unfold rehomedQty rehomedCost plannedPositions
  rw [List.map_map, List.map_map]
  constructor
  · rw [← sum_held hheld (·.qty) rfl symbol]
    refine sum_filter_of_zero (fun x => if x.1 = symbol then x.2.qty else 0) fun x _ hqty => ?_
    simp [hqty]
  · rw [← sum_held hheld (·.costBasis) rfl symbol]
    refine sum_filter_of_zero (fun x => if x.1 = symbol then x.2.costBasis else 0) fun x hx hqty => ?_
    simp [hzero x hx hqty]

/-- The lots opened in the target carry what the plan moves. -/
theorem movedLots_planned (hagree : Agree m s book) {seq : ℕ} (hseq : m ≤ seq)
    (hheld : held.Perm (s.acc.sleeve source).positions.toList) {reader : String → List (Lot ℚ)}
    (hreader : reader = book.lots source ∨ reader = fun _ => []) (symbol : String) :
    totalQty (lotsOf (movedLots seq (plannedPositions reader held)) symbol) =
        rehomedQty (plannedPositions reader held) symbol ∧
      totalCost (lotsOf (movedLots seq (plannedPositions reader held)) symbol) =
        rehomedCost (plannedPositions reader held) symbol ∧
      ∀ lot ∈ lotsOf (movedLots seq (plannedPositions reader held)) symbol,
        0 < lot.qty ∧ 0 ≤ lot.costBasis ∧ lot.openedSeq < seq + 1 := by
  have hat : ∀ p ∈ plannedPositions reader held,
      AgreeAt m (book.lots source p.symbol) ⟨p.qty, p.costBasis⟩ ∧ p.lots = reader p.symbol ∧
        p.qty ≠ 0 := by
    intro p hp
    obtain ⟨x, hx, hqty, rfl⟩ := mem_plannedPositions hp
    have hagreeAt := hagree source x.1
    rw [positionOf_of_mem_held hheld hx] at hagreeAt
    exact ⟨hagreeAt, rfl, hqty⟩
  unfold movedLots
  split_ifs with hlisted
  · refine lotsOf_blended _ (fun p hp => ?_) (by omega) symbol
    obtain ⟨hp, -, hqty⟩ := hat p hp
    exact ⟨lt_of_le_of_ne hp.qty_nonneg (Ne.symm hqty), hp.cost_nonneg⟩
  · refine lotsOf_listed (fun p hp => ?_) symbol
    obtain ⟨hp', hlots, -⟩ := hat p hp
    rcases hreader with rfl | rfl
    · rw [hlots]
      exact hp'.mono (by omega)
    · refine absurd ?_ hlisted
      rw [closeLots, List.flatMap_eq_nil_iff]
      intro p hp
      rw [(hat p hp).2.1]
      rfl

/-- The legs of a planned close have signs that agree. -/
theorem closeLegs_signsAgree (hagree : Agree m s book)
    (hheld : held.Perm (s.acc.sleeve source).positions.toList) (reader : String → List (Lot ℚ))
    {frm unmanaged unallocated : UUID} (cash : ℚ) :
    ∀ leg ∈ closeLegs frm unmanaged unallocated (plannedPositions reader held) cash,
      leg.SignsAgree := by
  intro leg hleg
  rcases List.mem_append.mp hleg with hleg | hleg
  · obtain ⟨p, hp, hleg⟩ := List.mem_flatMap.mp hleg
    obtain ⟨x, hx, -, rfl⟩ := mem_plannedPositions hp
    have hat := hagree source x.1
    rw [positionOf_of_mem_held hheld hx] at hat
    have hqty := hat.qty_nonneg
    have hcost := not_lt.mpr hat.cost_nonneg
    simp only [rehomeLegs, List.mem_cons, List.not_mem_nil, or_false] at hleg
    rcases hleg with rfl | rfl <;> simp [Posting.SignsAgree, hqty, hcost]
  · split_ifs at hleg
    · cases hleg
    · simp only [List.mem_cons, List.not_mem_nil, or_false] at hleg
      rcases hleg with rfl | rfl <;> simp [Posting.SignsAgree]

theorem Agree.step_close (hagree : Agree m s book) (hseq : m ≤ ev.sequence)
    (ht : LedgerEventType.coerce ev.eventType = .ok .sleeveClosed)
    (hadm : ClosePlanned s book ev.data) :
    Agree (ev.sequence + 1) (foldEvent s ev) (foldLotsEvent book ev) := by
  obtain ⟨source, unmanaged, unallocated, held, reader, positions, reason, plan, hheld, hreader,
    hpositions, hplan, hdata⟩ := hadm
  have hps : plannedPositions reader held = positions :=
    Except.ok.inj ((rehomedPositions_exact reader held).symm.trans hpositions)
  subst hps
  set ps := plannedPositions reader held with hpsdef
  set cash := (s.acc.sleeve source.text).cash
  have hnonzero : ∀ p ∈ ps, p.qty ≠ 0 := by
    intro p hp
    obtain ⟨x, -, hqty, rfl⟩ := mem_plannedPositions hp
    exact hqty
  have hpayload : ev.data = closeData source unmanaged unallocated ps cash reason := by
    rw [planSleeveClose, nonzeroPositions_exact hnonzero] at hplan
    cases hplan
    exact hdata
  have hsigns : ∀ leg ∈ closeLegs source unmanaged unallocated ps cash, leg.SignsAgree :=
    closeLegs_signsAgree hagree hheld reader cash
  have hevent : eventLegs ev = closeLegs source unmanaged unallocated ps cash :=
    eventLegs_eq ht (hpayload ▸ buildPostings_closeData source unmanaged unallocated ps cash reason)
      (closeLegs_sum _ _ _ _ _) hsigns
  have hbook : foldLotsEvent book ev =
      addLots (withoutSleeve book source.text unmanaged.text) unmanaged.text
        (movedLots ev.sequence ps) := by
    simp [foldLotsEvent, applyLotEvent, ht, hpayload, applySleeveClose_closeData hnonzero]
  apply hagree.step
  intro sl sy hat
  obtain ⟨hrqty, hrcost⟩ := rehomed_planned hagree hheld reader sy
  obtain ⟨hmqty, hmcost, hmlots⟩ := movedLots_planned hagree hseq hheld hreader sy
  obtain ⟨hlegQty, hlegCost⟩ := closeLegs_moves source unmanaged unallocated ps cash sl sy
  obtain ⟨hother, hperm, hsorted⟩ := addLots_lots (movedLots ev.sequence ps)
    (withoutSleeve book source.text unmanaged.text) unmanaged.text sl sy
  rw [hbook, hevent, hlegQty, hlegCost]
  have hbase : AgreeAt (ev.sequence + 1)
      ((withoutSleeve book source.text unmanaged.text).lots sl sy)
      ⟨(s.acc.positionOf sl sy).qty - (if sl = source.text then rehomedQty ps sy else 0),
        (s.acc.positionOf sl sy).costBasis - if sl = source.text then rehomedCost ps sy else 0⟩ := by
    rw [withoutSleeve_lots]
    split_ifs with hsource
    · rw [hsource, hrqty, hrcost, sub_self, sub_self]
      exact agreeAt_nil _
    · rw [sub_zero, sub_zero]
      exact hat.mono (by omega)
  by_cases htarget : sl = unmanaged.text
  · subst htarget
    have hjoin := hbase.join (q := ⟨rehomedQty ps sy, rehomedCost ps sy⟩) hmlots hmqty hmcost hperm
      (hsorted hbase.ok.sorted)
    simp only [if_true]
    convert hjoin using 2 <;> ring
  · rw [hother htarget, if_neg htarget, if_neg htarget]
    convert hbase using 2 <;> ring

end Held

end LlamaTrade
