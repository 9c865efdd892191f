import LlamaTrade.ExactLots

/-!
# Sales of the oldest lots

What `select_lots_fifo` takes from sorted lots, in exact arithmetic: the oldest lots and at most a
part of one more, whose cost is split in proportion.
-/

namespace LlamaTrade

/-- A sale of `q` shares closes the oldest lots at their costs, and at most a part of the next one
at its cost per share; the others remain as they are. -/
inductive FifoSale (q : ℚ) (lots : List (Lot ℚ)) (closed : ℚ) (remaining : List (Lot ℚ)) : Prop where
  | whole (front : List (Lot ℚ)) (hlots : lots = front ++ remaining) (hqty : totalQty front = q)
    (hclosed : closed = totalCost front)
  | split (front : List (Lot ℚ)) (lot : Lot ℚ) (back : List (Lot ℚ)) (part : ℚ)
    (hlots : lots = front ++ lot :: back) (hpos : 0 < part) (hlt : part < lot.qty)
    (hqty : totalQty front + part = q)
    (hclosed : closed = totalCost front + lot.costBasis / lot.qty * part)
    (hremaining : remaining =
      ⟨lot.qty - part, lot.costBasis - lot.costBasis / lot.qty * part, lot.openedSeq⟩ :: back)

section Sale

variable {q closed : ℚ} {lots remaining : List (Lot ℚ)}

/-- A lot in front is closed too. -/
theorem FifoSale.cons (h : FifoSale q lots closed remaining) (lot : Lot ℚ) :
    FifoSale (lot.qty + q) (lot :: lots) (lot.costBasis + closed) remaining := by
  cases h with
  | whole front hlots hqty hclosed =>
    exact .whole (lot :: front) (by rw [hlots, List.cons_append]) (by rw [totalQty_cons, hqty])
      (by rw [totalCost_cons, hclosed])
  | split front next back part hlots hpos hlt hqty hclosed hremaining =>
    refine .split (lot :: front) next back part (by rw [hlots, List.cons_append]) hpos hlt ?_ ?_
      hremaining
    · rw [totalQty_cons, add_assoc, hqty]
    · rw [totalCost_cons, hclosed, add_assoc]

theorem FifoSale.totalQty_eq (h : FifoSale q lots closed remaining) :
    q + totalQty remaining = totalQty lots := by
  cases h with
  | whole front hlots hqty hclosed => rw [hlots, totalQty_append, hqty]
  | split front lot back part hlots hpos hlt hqty hclosed hremaining =>
    rw [hlots, hremaining, totalQty_append, totalQty_cons, totalQty_cons, ← hqty]
    ring

theorem FifoSale.totalCost_eq (h : FifoSale q lots closed remaining) :
    closed + totalCost remaining = totalCost lots := by
  cases h with
  | whole front hlots hqty hclosed => rw [hlots, totalCost_append, hclosed]
  | split front lot back part hlots hpos hlt hqty hclosed hremaining =>
    rw [hlots, hremaining, totalCost_append, totalCost_cons, totalCost_cons, hclosed]
    ring

theorem FifoSale.qty_pos (h : FifoSale q lots closed remaining) (hpos : ∀ lot ∈ lots, 0 < lot.qty) :
    ∀ lot ∈ remaining, 0 < lot.qty := by
  cases h with
  | whole front hlots hqty hclosed =>
    exact fun lot hlot => hpos lot (hlots ▸ List.mem_append_right _ hlot)
  | split front lot back part hlots hpart hlt hqty hclosed hremaining =>
    rw [hremaining, List.forall_mem_cons]
    refine ⟨sub_pos.mpr hlt, fun other hother => hpos other ?_⟩
    rw [hlots]
    exact List.mem_append_right _ (List.mem_cons_of_mem _ hother)

theorem FifoSale.sorted (h : FifoSale q lots closed remaining)
    (hsorted : lots.Pairwise fun a b => a.openedSeq ≤ b.openedSeq) :
    remaining.Pairwise fun a b => a.openedSeq ≤ b.openedSeq := by
  cases h with
  | whole front hlots hqty hclosed => exact (List.pairwise_append.mp (hlots ▸ hsorted)).2.1
  | split front lot back part hlots hpart hlt hqty hclosed hremaining =>
    have hback := (List.pairwise_append.mp (hlots ▸ hsorted)).2.1
    rw [List.pairwise_cons] at hback
    rw [hremaining, List.pairwise_cons]
    exact hback

end Sale

/-- With nothing left to sell the loop keeps the lots. -/
theorem selectLoop_zero (closed : ℚ) (lots : List (Lot ℚ)) :
    selectLoop 0 closed lots = .ok (0, closed, lots) := by
  induction lots with
  | nil => rfl
  | cons lot lots ih => simp [selectLoop, ih]

theorem selectLoop_short {lots : List (Lot ℚ)} (hpos : ∀ lot ∈ lots, 0 < lot.qty) {left : ℚ}
    (hleft : totalQty lots < left) (closed : ℚ) :
    selectLoop left closed lots = .ok (left - totalQty lots, closed + totalCost lots, []) := by
  induction lots generalizing left closed with
  | nil => simp [selectLoop]
  | cons lot lots ih =>
    obtain ⟨hlot, hpos⟩ := List.forall_mem_cons.mp hpos
    rw [totalQty_cons] at hleft
    have hrest : 0 ≤ totalQty lots := List.sum_nonneg fun x hx => by
      obtain ⟨other, hother, rfl⟩ := List.mem_map.mp hx
      exact (hpos other hother).le
    have hnot : ¬ left ≤ 0 := by linarith
    have hwhole : lot.qty ≤ left := by linarith
    have hshort : totalQty lots < left - lot.qty := by linarith
    have hloop := ih hpos hshort (closed + lot.costBasis)
    simp only [selectLoop, ExactNumber.le_eq, ExactNumber.zero_eq, hnot, hwhole, decide_false,
      decide_true, ok_bind, Bool.false_eq_true, if_false, if_true, ExactNumber.add_eq,
      ExactNumber.sub_eq, hloop, totalQty_cons, totalCost_cons]
    rw [sub_sub, add_assoc]

theorem selectLoop_covered {lots : List (Lot ℚ)} (hpos : ∀ lot ∈ lots, 0 < lot.qty) {left : ℚ}
    (hleft : 0 ≤ left) (hcovered : left ≤ totalQty lots) (closed : ℚ) :
    ∃ cost out, selectLoop left closed lots = .ok (0, closed + cost, out) ∧
      FifoSale left lots cost out := by
  induction lots generalizing left closed with
  | nil =>
    have hzero : left = 0 := le_antisymm hcovered hleft
    exact ⟨0, [], by simp [selectLoop, hzero], .whole [] rfl (by simp [hzero]) rfl⟩
  | cons lot lots ih =>
    obtain ⟨hlot, hpos⟩ := List.forall_mem_cons.mp hpos
    by_cases hdone : left ≤ 0
    · have hzero : left = 0 := le_antisymm hdone hleft
      refine ⟨0, lot :: lots, ?_, .whole [] rfl (by simp [hzero]) rfl⟩
      rw [hzero, selectLoop_zero, add_zero]
    · by_cases hwhole : lot.qty ≤ left
      · rw [totalQty_cons] at hcovered
        obtain ⟨cost, out, hloop, hsale⟩ := ih hpos (sub_nonneg.mpr hwhole)
          (sub_le_iff_le_add'.mpr hcovered) (closed + lot.costBasis)
        refine ⟨lot.costBasis + cost, out, ?_, ?_⟩
        · simp [selectLoop, hdone, hwhole, hloop, add_assoc]
        · have hcons := hsale.cons lot
          rwa [add_sub_cancel] at hcons
      · refine ⟨lot.costBasis / lot.qty * left, _, ?_,
          .split [] lot lots left rfl (not_le.mp hdone) (not_le.mp hwhole) (zero_add left)
            (zero_add _).symm rfl⟩
        simp [selectLoop, hdone, hwhole, ExactNumber.div_eq _ _ hlot.ne', selectLoop_zero]

/-- The selection fails exactly on too few shares; otherwise it closes the oldest lots, the parts
add up, and what remains is positive and sorted. -/
theorem selectLotsFifo_sale {lots : List (Lot ℚ)}
    (hsorted : lots.Pairwise fun a b => a.openedSeq ≤ b.openedSeq)
    (hpos : ∀ lot ∈ lots, 0 < lot.qty) {q : ℚ} (hq : 0 < q) :
    ((∃ e, selectLotsFifo lots q = .error e) ↔ totalQty lots < q) ∧
      ∀ r, selectLotsFifo lots q = .ok r →
        FifoSale q lots r.closedCostBasis r.remainingLots ∧ r.consumedQty = q ∧
          r.consumedQty + totalQty r.remainingLots = totalQty lots ∧
          r.closedCostBasis + totalCost r.remainingLots = totalCost lots ∧
          (∀ lot ∈ r.remainingLots, 0 < lot.qty) ∧
          r.remainingLots.Pairwise fun a b => a.openedSeq ≤ b.openedSeq := by
  have hnot : ¬ q ≤ 0 := not_le.mpr hq
  have hsort : sortLots lots = lots := hsorted.insertionSort_eq
  by_cases hshort : totalQty lots < q
  · have hleft : 0 < q - totalQty lots := sub_pos.mpr hshort
    have herror : ∃ e, selectLotsFifo lots q = .error e := by
      simp [selectLotsFifo, hnot, hsort, selectLoop_short hpos hshort, hleft]
    obtain ⟨e, he⟩ := herror
    refine ⟨iff_of_true ⟨e, he⟩ hshort, fun r hr => ?_⟩
    rw [he] at hr
    cases hr
  · obtain ⟨cost, out, hloop, hsale⟩ := selectLoop_covered hpos hq.le (not_lt.mp hshort) 0
    have hok : selectLotsFifo lots q = .ok ⟨cost, q, out⟩ := by
      simp [selectLotsFifo, hnot, hsort, hloop, pure_eq_ok]
    refine ⟨iff_of_false ?_ hshort, fun r hr => ?_⟩
    · rintro ⟨e, he⟩
      rw [hok] at he
      cases he
    · rw [hok] at hr
      cases hr
      exact ⟨hsale, rfl, hsale.totalQty_eq, hsale.totalCost_eq, hsale.qty_pos hpos,
        hsale.sorted hsorted⟩

/-- A sale of three shares from lots of two and two. -/
theorem selectLotsFifo_sale_three :
    ((∃ e, selectLotsFifo [(⟨2, 10, 1⟩ : Lot ℚ), ⟨2, 30, 2⟩] 3 = .error e) ↔
        totalQty [⟨2, 10, 1⟩, ⟨2, 30, 2⟩] < 3) ∧
      ∀ r, selectLotsFifo [(⟨2, 10, 1⟩ : Lot ℚ), ⟨2, 30, 2⟩] 3 = .ok r →
        FifoSale 3 [⟨2, 10, 1⟩, ⟨2, 30, 2⟩] r.closedCostBasis r.remainingLots ∧ r.consumedQty = 3 ∧
          r.consumedQty + totalQty r.remainingLots = totalQty [⟨2, 10, 1⟩, ⟨2, 30, 2⟩] ∧
          r.closedCostBasis + totalCost r.remainingLots = totalCost [⟨2, 10, 1⟩, ⟨2, 30, 2⟩] ∧
          (∀ lot ∈ r.remainingLots, 0 < lot.qty) ∧
          r.remainingLots.Pairwise fun a b => a.openedSeq ≤ b.openedSeq :=
  selectLotsFifo_sale (by simp) (by simp) (by norm_num)

end LlamaTrade
