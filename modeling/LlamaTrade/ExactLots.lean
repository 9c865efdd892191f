import LlamaTrade.ExactPositions

/-!
# Lots in exact arithmetic

Totals of lots, and what the FIFO selection, the rebasing of a split and the position
legs of an event do to them when no operation rounds.
-/

namespace LlamaTrade

/-! ## Totals -/

def totalQty (lots : List (Lot ℚ)) : ℚ := (lots.map (·.qty)).sum

def totalCost (lots : List (Lot ℚ)) : ℚ := (lots.map (·.costBasis)).sum

/-- Positive lots with non-negative cost, in order of acquisition and all acquired
before the sequence number `m`. -/
structure LotsOk (m : ℤ) (lots : List (Lot ℚ)) : Prop where
  each : ∀ lot ∈ lots, 0 < lot.qty ∧ 0 ≤ lot.costBasis ∧ lot.openedSeq < m
  sorted : lots.Pairwise fun a b => a.openedSeq ≤ b.openedSeq

@[simp] theorem totalQty_nil : totalQty [] = 0 := rfl
@[simp] theorem totalCost_nil : totalCost [] = 0 := rfl
@[simp] theorem totalQty_cons (lot : Lot ℚ) (lots : List (Lot ℚ)) :
    totalQty (lot :: lots) = lot.qty + totalQty lots := by simp [totalQty]
@[simp] theorem totalCost_cons (lot : Lot ℚ) (lots : List (Lot ℚ)) :
    totalCost (lot :: lots) = lot.costBasis + totalCost lots := by simp [totalCost]
@[simp] theorem totalQty_append (xs ys : List (Lot ℚ)) :
    totalQty (xs ++ ys) = totalQty xs + totalQty ys := by simp [totalQty]
@[simp] theorem totalCost_append (xs ys : List (Lot ℚ)) :
    totalCost (xs ++ ys) = totalCost xs + totalCost ys := by simp [totalCost]

theorem totalQty_perm {xs ys : List (Lot ℚ)} (h : xs.Perm ys) : totalQty xs = totalQty ys :=
  (h.map _).sum_eq

theorem totalCost_perm {xs ys : List (Lot ℚ)} (h : xs.Perm ys) : totalCost xs = totalCost ys :=
  (h.map _).sum_eq

theorem lotsOk_nil (m : ℤ) : LotsOk m [] := ⟨by simp, List.Pairwise.nil⟩

theorem LotsOk.mono {m m' : ℤ} {lots : List (Lot ℚ)} (h : LotsOk m lots) (hm : m ≤ m') :
    LotsOk m' lots := by
  refine ⟨fun lot hlot => ?_, h.sorted⟩
  obtain ⟨hq, hc, hs⟩ := h.each lot hlot
  exact ⟨hq, hc, lt_of_lt_of_le hs hm⟩

theorem LotsOk.tail {m : ℤ} {lot : Lot ℚ} {lots : List (Lot ℚ)} (h : LotsOk m (lot :: lots)) :
    LotsOk m lots :=
  ⟨fun l hl => h.each l (List.mem_cons_of_mem _ hl), (List.pairwise_cons.mp h.sorted).2⟩

theorem LotsOk.totalQty_nonneg {m : ℤ} {lots : List (Lot ℚ)} (h : LotsOk m lots) :
    0 ≤ totalQty lots := by
  induction lots with
  | nil => simp
  | cons lot lots ih =>
    have hlot := (h.each lot (by simp)).1
    have hlots := ih h.tail
    rw [totalQty_cons]
    linarith

theorem LotsOk.totalCost_nonneg {m : ℤ} {lots : List (Lot ℚ)} (h : LotsOk m lots) :
    0 ≤ totalCost lots := by
  induction lots with
  | nil => simp
  | cons lot lots ih =>
    have hlot := (h.each lot (by simp)).2.1
    have hlots := ih h.tail
    rw [totalCost_cons]
    linarith

/-- Only an empty list of lots has no quantity. -/
theorem LotsOk.eq_nil_of_totalQty {m : ℤ} {lots : List (Lot ℚ)} (h : LotsOk m lots)
    (hzero : totalQty lots = 0) : lots = [] := by
  cases lots with
  | nil => rfl
  | cons lot lots =>
    have hlot := (h.each lot (by simp)).1
    have hlots := h.tail.totalQty_nonneg
    rw [totalQty_cons] at hzero
    linarith

theorem sortLots_perm {D : Type} (lots : List (Lot D)) : (sortLots lots).Perm lots :=
  List.perm_insertionSort _ lots

theorem sortLots_sorted {D : Type} (lots : List (Lot D)) :
    (sortLots lots).Pairwise fun a b => a.openedSeq ≤ b.openedSeq := by
  have htrans : IsTrans (Lot D) fun a b => a.openedSeq ≤ b.openedSeq := ⟨fun _ _ _ => le_trans⟩
  have htotal : Std.Total fun a b : Lot D => a.openedSeq ≤ b.openedSeq :=
    ⟨fun a b => le_total a.openedSeq b.openedSeq⟩
  exact List.pairwise_insertionSort _ _

theorem LotsOk.sortLots {m : ℤ} {lots : List (Lot ℚ)} (h : ∀ lot ∈ lots,
    0 < lot.qty ∧ 0 ≤ lot.costBasis ∧ lot.openedSeq < m) : LotsOk m (sortLots lots) :=
  ⟨fun lot hlot => h lot ((sortLots_perm lots).mem_iff.mp hlot), sortLots_sorted lots⟩

theorem LotsOk.sortLots_eq {m : ℤ} {lots : List (Lot ℚ)} (h : LotsOk m lots) :
    LlamaTrade.sortLots lots = lots :=
  h.sorted.insertionSort_eq

/-! ## FIFO selection -/

/-- What the selection loop does to totals: it takes quantity from the front and moves
the cost of what it takes from the lots to the closed cost. -/
theorem selectLoop_exact {lots : List (Lot ℚ)}
    (h : ∀ lot ∈ lots, 0 < lot.qty ∧ 0 ≤ lot.costBasis) {remaining : ℚ} (hr : 0 ≤ remaining)
    (closed : ℚ) :
    ∃ r c out, selectLoop remaining closed lots = .ok (r, c, out) ∧ 0 ≤ r ∧ closed ≤ c ∧
      totalQty out = totalQty lots - (remaining - r) ∧
      c + totalCost out = closed + totalCost lots ∧
      (∀ lot ∈ out, 0 < lot.qty ∧ 0 ≤ lot.costBasis) ∧
      (out.map (·.openedSeq)).Sublist (lots.map (·.openedSeq)) := by
  induction lots generalizing remaining closed with
  | nil => exact ⟨remaining, closed, [], rfl, hr, le_refl _, by simp, by simp, by simp, by simp⟩
  | cons lot lots ih =>
    obtain ⟨hlot, hlots⟩ := List.forall_mem_cons.mp h
    by_cases hdone : remaining ≤ 0
    · obtain ⟨r, c, out, hloop, hr', hc, hqty, hcost, hout, hsub⟩ := ih hlots hr closed
      refine ⟨r, c, lot :: out, by simp [selectLoop, hdone, hloop], hr', hc, ?_, ?_, ?_, ?_⟩
      · rw [totalQty_cons, totalQty_cons, hqty]
        ring
      · rw [totalCost_cons, totalCost_cons]
        linarith
      · exact List.forall_mem_cons.mpr ⟨hlot, hout⟩
      · exact hsub.cons_cons _
    · by_cases hwhole : lot.qty ≤ remaining
      · obtain ⟨r, c, out, hloop, hr', hc, hqty, hcost, hout, hsub⟩ :=
          ih hlots (sub_nonneg.mpr hwhole) (closed + lot.costBasis)
        refine ⟨r, c, out, by simp [selectLoop, hdone, hwhole, hloop], hr', ?_, ?_, ?_, hout, ?_⟩
        · linarith [hlot.2]
        · rw [totalQty_cons, hqty]
          ring
        · rw [totalCost_cons, hcost]
          ring
        · exact hsub.cons _
      · have hne : lot.qty ≠ 0 := ne_of_gt hlot.1
        obtain ⟨r, c, out, hloop, hr', hc, hqty, hcost, hout, hsub⟩ :=
          ih hlots (le_refl 0) (closed + lot.costBasis / lot.qty * remaining)
        have hunit : 0 ≤ lot.costBasis / lot.qty := div_nonneg hlot.2 (le_of_lt hlot.1)
        have hpart : lot.costBasis / lot.qty * remaining ≤ lot.costBasis := by
          calc lot.costBasis / lot.qty * remaining
              ≤ lot.costBasis / lot.qty * lot.qty :=
                mul_le_mul_of_nonneg_left (le_of_lt (not_le.mp hwhole)) hunit
            _ = lot.costBasis := div_mul_cancel₀ _ hne
        refine ⟨r, c, ⟨lot.qty - remaining, lot.costBasis - lot.costBasis / lot.qty * remaining,
          lot.openedSeq⟩ :: out, ?_, hr', ?_, ?_, ?_, ?_, ?_⟩
        · simp [selectLoop, hdone, hwhole, ExactNumber.div_eq _ _ hne, hloop]
        · have hnonneg := mul_nonneg hunit hr
          linarith
        · rw [totalQty_cons, totalQty_cons, hqty]
          ring
        · rw [totalCost_cons, totalCost_cons]
          linarith
        · refine List.forall_mem_cons.mpr ⟨⟨?_, ?_⟩, hout⟩
          · exact sub_pos.mpr (not_le.mp hwhole)
          · exact sub_nonneg.mpr hpart
        · exact hsub.cons_cons _

theorem selectLotsFifo_exact {m : ℤ} {lots : List (Lot ℚ)} (h : LotsOk m lots) {q : ℚ}
    {r : FifoResult ℚ} (hq : 0 < q) (hr : selectLotsFifo lots q = .ok r) :
    LotsOk m r.remainingLots ∧ 0 ≤ r.closedCostBasis ∧
      totalQty r.remainingLots = totalQty lots - q ∧
      r.closedCostBasis + totalCost r.remainingLots = totalCost lots := by
  have heach : ∀ lot ∈ lots, 0 < lot.qty ∧ 0 ≤ lot.costBasis :=
    fun lot hlot => ⟨(h.each lot hlot).1, (h.each lot hlot).2.1⟩
  obtain ⟨left, closed, out, hloop, hleft, hclosed, hqty, hcost, hout, hsub⟩ :=
    selectLoop_exact heach (le_of_lt hq) 0
  have hnot : ¬ q ≤ 0 := not_le.mpr hq
  simp only [selectLotsFifo, ExactNumber.le_eq, ExactNumber.zero_eq, hnot, decide_false, ok_bind,
    Bool.false_eq_true, if_false, h.sortLots_eq, hloop, ExactNumber.lt_eq] at hr
  by_cases hshort : 0 < left
  · simp [hshort] at hr
  · have hzero : left = 0 := le_antisymm (not_lt.mp hshort) hleft
    simp only [hshort, decide_false, Bool.false_eq_true, if_false, pure_eq_ok,
      Except.ok.injEq] at hr
    subst hr
    refine ⟨⟨fun lot hlot => ?_, ?_⟩, hclosed, by rw [hqty, hzero]; ring, by rw [hcost]; ring⟩
    · obtain ⟨hpos, hnonneg⟩ := hout lot hlot
      obtain ⟨lot', hlot', heq⟩ := List.mem_map.mp (hsub.subset (List.mem_map_of_mem hlot))
      exact ⟨hpos, hnonneg, heq ▸ (h.each lot' hlot').2.2⟩
    · have hsorted : (lots.map (·.openedSeq)).Pairwise (· ≤ ·) :=
        List.pairwise_map.mpr h.sorted
      exact List.pairwise_map.mp (hsorted.sublist hsub)

/-! ## Splits -/

theorem scaleLots_exact {new old : ℚ} (hold : old ≠ 0) (allocated : ℚ) (lots : List (Lot ℚ)) :
    scaleLots new old allocated lots =
      .ok (allocated + totalQty lots * new / old,
        lots.map fun lot => { lot with qty := lot.qty * new / old }) := by
  induction lots generalizing allocated with
  | nil => simp [scaleLots]
  | cons lot lots ih =>
    simp only [scaleLots, ExactNumber.mul_eq, ok_bind, ExactNumber.div_eq _ _ hold,
      ExactNumber.add_eq, ih, pure_eq_ok, Except.ok.injEq, List.map_cons, Prod.mk.injEq,
      totalQty_cons, and_true]
    ring

private theorem totalQty_scale (new old : ℚ) (lots : List (Lot ℚ)) :
    totalQty (lots.map fun lot => { lot with qty := lot.qty * new / old }) =
      totalQty lots * new / old := by
  induction lots with
  | nil => simp
  | cons lot lots ih =>
    rw [List.map_cons, totalQty_cons, ih, totalQty_cons]
    ring

private theorem totalCost_scale (new old : ℚ) (lots : List (Lot ℚ)) :
    totalCost (lots.map fun lot => { lot with qty := lot.qty * new / old }) = totalCost lots := by
  simp [totalCost, Function.comp_def]

private theorem LotsOk.scale {m : ℤ} {lots : List (Lot ℚ)} (h : LotsOk m lots) {new old : ℚ}
    (hnew : 0 < new) (hold : 0 < old) :
    LotsOk m (lots.map fun lot => { lot with qty := lot.qty * new / old }) := by
  refine ⟨fun lot hlot => ?_, List.pairwise_map.mpr h.sorted⟩
  obtain ⟨lot', hlot', rfl⟩ := List.mem_map.mp hlot
  obtain ⟨hq, hc, hs⟩ := h.each lot' hlot'
  exact ⟨div_pos (mul_pos hq hnew) hold, hc, hs⟩

theorem LotsOk.totalQty_pos {m : ℤ} {lots : List (Lot ℚ)} (h : LotsOk m lots) (hne : lots ≠ []) :
    0 < totalQty lots :=
  lt_of_le_of_ne h.totalQty_nonneg fun hzero => hne (h.eq_nil_of_totalQty hzero.symm)

/-- The newest lot, which takes the rest, is scaled like the others. -/
theorem rebaseSplit_eq {m : ℤ} {lots : List (Lot ℚ)} (h : LotsOk m lots) (hne : lots ≠ [])
    {delta : ℚ} (hnew : 0 < totalQty lots + delta) :
    rebaseSplit lots delta = .ok (lots.map fun lot =>
      { lot with qty := lot.qty * (totalQty lots + delta) / totalQty lots }) := by
  have hold := h.totalQty_pos hne
  have hold' : totalQty lots ≠ 0 := ne_of_gt hold
  obtain ⟨front, newest, hlots⟩ := List.eq_nil_or_concat lots |>.resolve_left hne
  rw [List.concat_eq_append] at hlots
  have hsum : Arithmetic.sum (lots.map (·.qty)) = (.ok (totalQty lots) : Except PyError ℚ) :=
    ExactNumber.sum_eq _
  have hlast : lots.getLast? = some newest := by simp [hlots]
  have hfront : lots.dropLast = front := by simp [hlots]
  have htotal : totalQty lots = totalQty front + newest.qty := by simp [hlots]
  have hnewest : totalQty lots + delta -
      (0 + totalQty front * (totalQty lots + delta) / totalQty lots) =
      newest.qty * (totalQty lots + delta) / totalQty lots := by
    have hq : newest.qty = totalQty lots - totalQty front := by rw [htotal]; ring
    rw [hq]
    field_simp
    ring
  simp only [rebaseSplit, hsum, ok_bind, ExactNumber.add_eq, ExactNumber.le_eq,
    ExactNumber.zero_eq, not_le.mpr hold, not_le.mpr hnew, decide_false, Bool.false_eq_true,
    if_false, hlast, hfront, scaleLots_exact hold', ExactNumber.sub_eq, hnewest, pure_eq_ok,
    Except.ok.injEq]
  conv_rhs => rw [hlots]
  rw [List.map_append]
  simp [hlots]

/-- A split scales the quantities, keeps the costs and reaches the new total exactly. -/
theorem rebaseSplit_exact {m : ℤ} {lots : List (Lot ℚ)} (h : LotsOk m lots) (hne : lots ≠ [])
    {delta : ℚ} (hnew : 0 < totalQty lots + delta) :
    ∃ out, rebaseSplit lots delta = .ok out ∧ LotsOk m out ∧
      totalQty out = totalQty lots + delta ∧ totalCost out = totalCost lots := by
  have hold := h.totalQty_pos hne
  refine ⟨_, rebaseSplit_eq h hne hnew, h.scale hnew hold, ?_, totalCost_scale _ _ _⟩
  rw [totalQty_scale]
  field_simp

/-! ## The lot book -/

theorem lots_insert {D : Type} (book : LotBook D) (sleeve : String)
    (symbols : Dict (List (Lot D))) (sl sy : String) :
    LotBook.lots (book.insert sleeve symbols) sl sy =
      if sl = sleeve then symbols.getD sy [] else book.lots sl sy := by
  unfold LotBook.lots
  rw [Std.ExtTreeMap.getD_insert]
  by_cases h : sl = sleeve
  · simp [h]
  · simp [h, Ne.symm h]

theorem lots_setLots {D : Type} (book : LotBook D) (sleeve symbol : String) (lots : List (Lot D))
    (sl sy : String) :
    (book.setLots sleeve symbol lots).lots sl sy =
      if sl = sleeve ∧ sy = symbol then lots else book.lots sl sy := by
  unfold LotBook.setLots
  rw [lots_insert, Std.ExtTreeMap.getD_insert]
  by_cases h : sl = sleeve
  · by_cases hsy : sy = symbol
    · simp [h, hsy]
    · simp [h, hsy, Ne.symm hsy, LotBook.lots]
  · simp [h]

/-- Storing a sleeve's own entry changes no lots. -/
theorem lots_insert_self {D : Type} (book : LotBook D) (sleeve sl sy : String) :
    LotBook.lots (book.insert sleeve (book.getD sleeve ∅)) sl sy = book.lots sl sy := by
  rw [lots_insert]
  split_ifs with h
  · rw [h]
    rfl
  · rfl

/-- Dropping a symbol of a sleeve. -/
theorem lots_erase {D : Type} (book : LotBook D) (sleeve symbol sl sy : String) :
    LotBook.lots (book.insert sleeve ((book.getD sleeve ∅).erase symbol)) sl sy =
      if sl = sleeve ∧ sy = symbol then [] else book.lots sl sy := by
  rw [lots_insert, Std.ExtTreeMap.getD_erase]
  by_cases h : sl = sleeve
  · by_cases hsy : sy = symbol
    · simp [h, hsy]
    · simp [h, hsy, Ne.symm hsy, LotBook.lots]
  · simp [h]

section Legs

variable {m : ℤ} (book : LotBook ℚ) (seq : ℤ) (sleeve symbol : String) (amount : ℚ) {q : ℚ}

theorem applyLotPosting_buy (hq : 0 < q) (sl sy : String) :
    (applyLotPosting book seq ⟨some sleeve, .position, amount, some symbol, some q⟩).2 = none ∧
      (applyLotPosting book seq ⟨some sleeve, .position, amount, some symbol, some q⟩).1.lots sl sy =
        if sl = sleeve ∧ sy = symbol then book.lots sleeve symbol ++ [⟨q, amount, seq⟩]
        else book.lots sl sy := by
  have hne : q ≠ 0 := ne_of_gt hq
  simp only [applyLotPosting, ExactNumber.eq_eq, ExactNumber.zero_eq, beq_eq_false_iff_ne.mpr hne,
    Attempt.guarded_ok, Bool.false_eq_true, if_false, ExactNumber.lt_eq, hq, decide_true, if_true,
    lots_setLots, true_and]
  split_ifs <;> rfl

theorem applyLotPosting_sell (hlots : LotsOk m (book.lots sleeve symbol)) (hq : 0 < q)
    {r : FifoResult ℚ} (hr : selectLotsFifo (book.lots sleeve symbol) q = .ok r)
    (sl sy : String) :
    (applyLotPosting book seq ⟨some sleeve, .position, amount, some symbol, some (-q)⟩).2 = none ∧
      (applyLotPosting book seq
        ⟨some sleeve, .position, amount, some symbol, some (-q)⟩).1.lots sl sy =
        if sl = sleeve ∧ sy = symbol then r.remainingLots else book.lots sl sy := by
  obtain ⟨hok, -, hqty, -⟩ := selectLotsFifo_exact hlots hq hr
  have hne : (-q == 0) = false := by simpa using ne_of_gt hq
  have hnot : ¬ 0 < -q := by linarith
  have hsum : Arithmetic.sum ((book.lots sleeve symbol).map (·.qty)) =
      (.ok (totalQty (book.lots sleeve symbol)) : Except PyError ℚ) := ExactNumber.sum_eq _
  simp only [applyLotPosting, ExactNumber.eq_eq, ExactNumber.zero_eq, hne, Attempt.guarded_ok,
    Bool.false_eq_true, if_false, ExactNumber.lt_eq, hnot, decide_false, hsum, ok_bind,
    ExactNumber.neg_eq, neg_neg, ExactNumber.le_eq]
  by_cases hclears : totalQty (book.lots sleeve symbol) ≤ q
  · have hnil : r.remainingLots = [] := by
      apply hok.eq_nil_of_totalQty
      have hnonneg := hok.totalQty_nonneg
      linarith
    simp only [hclears, decide_true, if_true, lots_setLots, hnil, true_and]
    split_ifs <;> rfl
  · simp only [hclears, decide_false, Bool.false_eq_true, if_false, hr, Attempt.guarded_ok,
      lots_setLots, true_and]
    split_ifs <;> rfl

end Legs

/-- A leg that is no position leg leaves the lot book alone. -/
theorem applyLotPosting_of_not_position {D : Type} [Arithmetic D] (book : LotBook D) (seq : ℤ)
    {p : Posting D} (h : p.bucket ≠ .position) : applyLotPosting book seq p = (book, none) := by
  unfold applyLotPosting
  split
  · rename_i hb _ _ _
    exact absurd hb h
  · rfl

theorem applyLotPostings_cons_of_not_position {D : Type} [Arithmetic D] (book : LotBook D) (seq : ℤ)
    {p : Posting D} (h : p.bucket ≠ .position) (ps : List (Posting D)) :
    applyLotPostings book seq (p :: ps) = applyLotPostings book seq ps := by
  rw [applyLotPostings, applyLotPosting_of_not_position book seq h, Attempt.andThen_none]

theorem applyLotPostings_of_no_position {D : Type} [Arithmetic D] (book : LotBook D) (seq : ℤ)
    {ps : List (Posting D)} (h : ∀ p ∈ ps, p.bucket ≠ .position) : applyLotPostings book seq ps = (book, none) := by
  induction ps with
  | nil => rfl
  | cons p ps ih =>
    obtain ⟨hp, hps⟩ := List.forall_mem_cons.mp h
    rw [applyLotPostings_cons_of_not_position book seq hp, ih hps]

/-- When the first leg does not raise and the others are no position legs, only the first
one counts. -/
theorem applyLotPostings_first (book : LotBook ℚ) (seq : ℤ) {p : Posting ℚ}
    {ps : List (Posting ℚ)} (hp : (applyLotPosting book seq p).2 = none)
    (hps : ∀ p ∈ ps, p.bucket ≠ .position) :
    (applyLotPostings book seq (p :: ps)).1 = (applyLotPosting book seq p).1 := by
  have hpair : applyLotPosting book seq p = ((applyLotPosting book seq p).1, none) := by rw [← hp]
  rw [applyLotPostings, hpair, Attempt.andThen_none, applyLotPostings_of_no_position _ _ hps]

/-! ## Balanced legs -/

/-- Shares and cost of a position leg do not point in opposite directions. -/
def Posting.SignsAgree (p : Posting ℚ) : Prop :=
  ∀ q, p.qty = some q → (0 < p.amount → 0 ≤ q) ∧ (p.amount < 0 → q ≤ 0)

theorem checkSigns_exact {p : Posting ℚ} (h : p.SignsAgree) : checkSigns p = .ok () := by
  unfold checkSigns
  split
  · rename_i q _ hq
    obtain ⟨hup, hdown⟩ := h q hq
    by_cases hpos : 0 < p.amount
    · have hnotneg : ¬ q < 0 := not_lt.mpr (hup hpos)
      have hnot : ¬ p.amount < 0 := not_lt.mpr (le_of_lt hpos)
      simp [hpos, hnotneg, hnot]
    · by_cases hneg : p.amount < 0
      · have hnotpos : ¬ 0 < q := not_lt.mpr (hdown hneg)
        simp [hpos, hneg, hnotpos]
      · simp [hpos, hneg]
  · rfl

theorem checkAllSigns_exact {ps : List (Posting ℚ)} (h : ∀ p ∈ ps, p.SignsAgree) :
    checkAllSigns ps = .ok () := by
  induction ps with
  | nil => rfl
  | cons p ps ih =>
    obtain ⟨hp, hps⟩ := List.forall_mem_cons.mp h
    rw [checkAllSigns, checkSigns_exact hp, ok_bind, ih hps]

theorem assertBalanced_exact {ps : List (Posting ℚ)} (hsum : (ps.map (·.amount)).sum = 0)
    (hsigns : ∀ p ∈ ps, p.SignsAgree) : assertBalanced ps = .ok () := by
  simp [assertBalanced, hsum, checkAllSigns_exact hsigns]

theorem validatedPostings_exact {data : Payload} {t : LedgerEventType} {ps : List (Posting ℚ)}
    (hps : buildPostings t data = .ok ps) (hsum : (ps.map (·.amount)).sum = 0)
    (hsigns : ∀ p ∈ ps, p.SignsAgree) : validatedPostings t data = .ok ps := by
  simp only [validatedPostings, hps, ok_bind, assertBalanced_exact hsum hsigns]
  split_ifs <;> rfl

theorem eventLegs_eq {ev : LedgerEvent} {t : LedgerEventType} {ps : List (Posting ℚ)}
    (ht : LedgerEventType.coerce ev.eventType = .ok t) (hps : buildPostings t ev.data = .ok ps)
    (hsum : (ps.map (·.amount)).sum = 0) (hsigns : ∀ p ∈ ps, p.SignsAgree) :
    eventLegs ev = ps := by
  simp [eventLegs, ht, validatedPostings_exact hps hsum hsigns]

/-- An event whose legs cannot be built moves nothing. -/
theorem eventLegs_of_error {ev : LedgerEvent} {t : LedgerEventType} {e : PyError}
    (ht : LedgerEventType.coerce ev.eventType = .ok t)
    (hps : buildPostings (D := ℚ) t ev.data = .error e) : eventLegs ev = [] := by
  simp [eventLegs, ht, validatedPostings, hps]

end LlamaTrade
