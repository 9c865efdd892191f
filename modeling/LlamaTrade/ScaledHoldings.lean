import LlamaTrade.AdmissibleStreams
import Mathlib.Algebra.BigOperators.Ring.List

/-!
# Splits scale holdings

A split is planned as a change of quantity for each sleeve that holds the symbol, and the lots are
re-based from that change, the newest lot taking what is left. In exact arithmetic the planned
events multiply every holding and every lot of the symbol by the ratio and move nothing else.
-/

namespace LlamaTrade

open Arithmetic

def Lot.scale (ratio : ℚ) (lot : Lot ℚ) : Lot ℚ := { lot with qty := lot.qty * ratio }

def PositionState.scale (ratio : ℚ) (p : PositionState ℚ) : PositionState ℚ :=
  { p with qty := p.qty * ratio }

@[simp] theorem Lot.scale_one : Lot.scale 1 = id :=
  funext fun lot => by simp [Lot.scale]

@[simp] theorem PositionState.scale_one (p : PositionState ℚ) : p.scale 1 = p := by
  simp [PositionState.scale]

theorem Lot.scale_scale (a b : ℚ) (lots : List (Lot ℚ)) :
    (lots.map (Lot.scale a)).map (Lot.scale b) = lots.map (Lot.scale (a * b)) := by
  rw [List.map_map]
  exact List.map_congr_left fun lot _ => by simp [Lot.scale, mul_assoc]

theorem PositionState.scale_scale (a b : ℚ) (p : PositionState ℚ) :
    (p.scale a).scale b = p.scale (a * b) := by
  simp [PositionState.scale, mul_assoc]

/-- The row under which a planned event is appended. -/
def PlannedCorporateEvent.row (ev : PlannedCorporateEvent) (sequence : ℕ) : LedgerEvent :=
  ⟨sequence, ev.eventType.value, ev.data⟩

/-- The rows of planned events, whatever sequence numbers they get. -/
def plannedRows (sequence : PlannedCorporateEvent → ℕ) (events : List PlannedCorporateEvent) :
    List LedgerEvent := events.map fun ev => ev.row (sequence ev)

/-- Both folds before and after, when the holdings of a symbol are scaled by a factor of each
sleeve. -/
structure Rescaled (symbol : String) (factor : String → ℚ) (s s' : FoldState ℚ)
    (book book' : LotBook ℚ) : Prop where
  res : s'.res = s.res
  poison : s'.acc.poisonEvents = s.acc.poisonEvents
  cash : ∀ sleeve, (s'.acc.sleeve sleeve).cash = (s.acc.sleeve sleeve).cash
  realized : ∀ sleeve, (s'.acc.sleeve sleeve).realizedPnl = (s.acc.sleeve sleeve).realizedPnl
  reserved : ∀ sleeve, (s'.acc.sleeve sleeve).reserved = (s.acc.sleeve sleeve).reserved
  position : ∀ sleeve sy, s'.acc.positionOf sleeve sy =
    (s.acc.positionOf sleeve sy).scale (if sy = symbol then factor sleeve else 1)
  lots : ∀ sleeve sy, book'.lots sleeve sy =
    (book.lots sleeve sy).map (Lot.scale (if sy = symbol then factor sleeve else 1))

/-- The holders of a symbol as the planner is given them: every sleeve that holds it, once, with
its quantity. -/
structure HoldersOf (acc : AccountProjection ℚ) (symbol : String) (holders : List (UUID × ℚ)) :
    Prop where
  nodup : (holders.map Prod.fst).Nodup
  held : ∀ holder ∈ holders, holder.2 = (acc.positionOf holder.1.text symbol).qty
  all : ∀ sleeve, (acc.positionOf sleeve symbol).qty ≠ 0 → ∃ holder ∈ holders, holder.1.text = sleeve

section Steps

variable {symbol : String} {s s₁ s₂ : FoldState ℚ} {book book₁ book₂ : LotBook ℚ}
  {factor other : String → ℚ} {m : ℤ} {ratio : ℚ}

theorem Rescaled.trans (h : Rescaled symbol factor s s₁ book book₁)
    (h' : Rescaled symbol other s₁ s₂ book₁ book₂) :
    Rescaled symbol (fun sleeve => factor sleeve * other sleeve) s s₂ book book₂ where
  res := h'.res.trans h.res
  poison := h'.poison.trans h.poison
  cash sleeve := (h'.cash sleeve).trans (h.cash sleeve)
  realized sleeve := (h'.realized sleeve).trans (h.realized sleeve)
  reserved sleeve := (h'.reserved sleeve).trans (h.reserved sleeve)
  position sleeve sy := by
    rw [h'.position, h.position, PositionState.scale_scale]
    split_ifs <;> simp
  lots sleeve sy := by
    rw [h'.lots, h.lots, Lot.scale_scale]
    split_ifs <;> simp

/-- Sleeves without the symbol may be given any factor. -/
theorem Rescaled.congr (h : Rescaled symbol factor s s₁ book book₁) (hagree : Agree m s book)
    (heq : ∀ sleeve, (s.acc.positionOf sleeve symbol).qty ≠ 0 → other sleeve = factor sleeve) :
    Rescaled symbol other s s₁ book book₁ where
  res := h.res
  poison := h.poison
  cash := h.cash
  realized := h.realized
  reserved := h.reserved
  position sleeve sy := by
    rw [h.position]
    by_cases hsy : sy = symbol
    · subst hsy
      by_cases hqty : (s.acc.positionOf sleeve sy).qty = 0
      · simp [PositionState.scale, hqty]
      · rw [heq sleeve hqty]
    · simp [hsy]
  lots sleeve sy := by
    rw [h.lots]
    by_cases hsy : sy = symbol
    · subst hsy
      by_cases hqty : (s.acc.positionOf sleeve sy).qty = 0
      · simp [(hagree sleeve sy).eq_nil hqty]
      · rw [heq sleeve hqty]
    · simp [hsy]

theorem Rescaled.refl (symbol : String) (s : FoldState ℚ) (book : LotBook ℚ) :
    Rescaled symbol (fun _ => 1) s s book book :=
  ⟨rfl, rfl, fun _ => rfl, fun _ => rfl, fun _ => rfl, by simp, by simp⟩

/-- The lots still agree with the positions. -/
theorem Rescaled.agree (h : Rescaled symbol factor s s₁ book book₁) (hpos : ∀ sleeve, 0 < factor sleeve)
    (hagree : Agree m s book) : Agree m s₁ book₁ := by
  intro sleeve sy
  have hat := hagree sleeve sy
  have hfactor : 0 < if sy = symbol then factor sleeve else 1 := by
    split_ifs
    · exact hpos sleeve
    · exact one_pos
  rw [h.position, h.lots]
  generalize (if sy = symbol then factor sleeve else 1) = k at hfactor ⊢
  have hqty : totalQty ((book.lots sleeve sy).map (Lot.scale k)) = totalQty (book.lots sleeve sy) * k := by
    rw [totalQty, totalQty, ← List.sum_map_mul_right, List.map_map]
    rfl
  have hcost : totalCost ((book.lots sleeve sy).map (Lot.scale k)) = totalCost (book.lots sleeve sy) := by
    rw [totalCost, totalCost, List.map_map]
    rfl
  refine ⟨⟨fun lot hlot => ?_, List.pairwise_map.mpr hat.ok.sorted⟩, ?_, hcost.trans hat.cost⟩
  · obtain ⟨old, hold, rfl⟩ := List.mem_map.mp hlot
    obtain ⟨hold, hcost, hseq⟩ := hat.ok.each old hold
    exact ⟨mul_pos hold hfactor, hcost, hseq⟩
  · rw [hqty, hat.qty]
    rfl

/-- The planned event of one holder scales what that sleeve holds. -/
theorem rescaled_splitEvent (hagree : Agree m s book) (hratio : 0 < ratio) {holder : UUID × ℚ}
    (hheld : holder.2 = (s.acc.positionOf holder.1.text symbol).qty) (hne : holder.2 ≠ 0)
    {planned : PlannedCorporateEvent} (htype : planned.eventType = .splitApplied)
    (hdata : planned.data = [("sleeve_id", .str holder.1.text), ("symbol", .str symbol),
      ("qty_delta", .str (Arithmetic.text (holder.2 * (ratio - 1))))]) (sequence : ℕ) :
    Rescaled symbol (fun sleeve => if sleeve = holder.1.text then ratio else 1) s
      (foldEvent s (planned.row sequence)) book (foldLotsEvent book (planned.row sequence)) := by
  obtain ⟨id, qty⟩ := holder
  dsimp only at hheld hne hdata ⊢
  generalize id.text = sleeve at hheld hdata ⊢
  have hat := hagree sleeve symbol
  have hrow : planned.row sequence = ⟨sequence, LedgerEventType.splitApplied.value, planned.data⟩ := by
    rw [PlannedCorporateEvent.row, htype]
  have hsl : planned.data.text "sleeve_id" = .ok sleeve := by
    simp [hdata, Payload.text, Payload.item]
  have hsy : planned.data.text "symbol" = .ok symbol := by
    simp [hdata, Payload.text, Payload.item, List.lookup_cons]
  have hnum : number planned.data "qty_delta" = .ok (qty * (ratio - 1)) := by
    simp [hdata, Payload.item, List.lookup_cons, number, toNumber]
  have htext : planned.data.text "qty_delta" = .ok (Arithmetic.text (qty * (ratio - 1))) := by
    simp [hdata, Payload.text, Payload.item, List.lookup_cons]
  have horder : present planned.data "client_order_id" = none := by
    rw [hdata]
    rfl
  have hvalid : validatedPostings (D := ℚ) .splitApplied planned.data =
      .ok [⟨some sleeve, .position, 0, some symbol, some (qty * (ratio - 1))⟩] := by
    have hps : buildPostings (D := ℚ) .splitApplied planned.data =
        .ok [⟨some sleeve, .position, 0, some symbol, some (qty * (ratio - 1))⟩] := by
      simp [buildPostings, hsl, hsy, hnum, pure_eq_ok]
    simp only [validatedPostings, hps, ok_bind]
    rw [assertBalanced_exact (by simp) (by simp [Posting.SignsAgree])]
    rfl
  -- the balance fold replaces the position of the sleeve
  obtain ⟨acc, hfold, hpoison, hacc⟩ : ∃ acc, foldEvent s (planned.row sequence) = { s with acc } ∧
      acc.poisonEvents = s.acc.poisonEvents ∧ ∀ id, acc.sleeve id = if id = sleeve then
        (s.acc.sleeve id).setPosition symbol ((s.acc.positionOf id symbol).scale ratio)
      else s.acc.sleeve id := by
    have hnew : qty + qty * (ratio - 1) = qty * ratio := by ring
    simp only [hrow, foldEvent, applyEvent, LedgerEventType.coerce_value, hvalid,
      Attempt.guarded_ok, applyReservation, horder, Attempt.andThen_none, applyPostings, applyPosting,
      ExactNumber.add_eq, add_zero]
    refine ⟨_, rfl, rfl, fun id => ?_⟩
    simp only [sleeve_setSleeve]
    by_cases hid : id = sleeve
    · subst hid
      have hqty : ((s.acc.sleeve id).position symbol).qty = qty := hheld.symm
      simp only [if_true, PositionState.scale, AccountProjection.positionOf, hqty, hnew]
    · simp only [if_neg hid]
  have hnil : book.lots sleeve symbol ≠ [] := by
    intro hnil
    apply hne
    rw [hheld, ← hat.qty, hnil, totalQty_nil]
  have htotal : totalQty (book.lots sleeve symbol) = qty := hat.qty.trans hheld.symm
  have hpos : 0 < qty := htotal ▸ hat.ok.totalQty_pos hnil
  have hnew : totalQty (book.lots sleeve symbol) + qty * (ratio - 1) = qty * ratio := by
    rw [htotal]
    ring
  have hrebase : rebaseSplit (book.lots sleeve symbol) (qty * (ratio - 1)) =
      .ok ((book.lots sleeve symbol).map (Lot.scale ratio)) := by
    rw [rebaseSplit_eq hat.ok hnil (hnew ▸ mul_pos hpos hratio), hnew, htotal]
    refine congrArg _ (List.map_congr_left fun lot _ => ?_)
    rw [Lot.scale, ← mul_assoc, mul_right_comm, mul_div_assoc, div_self hpos.ne', mul_one]
  have hbook : foldLotsEvent book (planned.row sequence) =
      book.setLots sleeve symbol ((book.lots sleeve symbol).map (Lot.scale ratio)) := by
    simp [hrow, foldLotsEvent, applyLotEvent, applySplit, hsl, hsy, hnil, htext, hrebase]
  rw [hfold, hbook]
  refine ⟨rfl, hpoison, fun id => ?_, fun id => ?_, fun id => ?_, fun id sy => ?_, fun id sy => ?_⟩
  · rw [hacc]
    split_ifs <;> rfl
  · rw [hacc]
    split_ifs <;> rfl
  · rw [hacc]
    split_ifs <;> rfl
  · simp only [AccountProjection.positionOf, hacc]
    by_cases hid : id = sleeve
    · rw [if_pos hid, if_pos hid, position_setPosition]
      by_cases hsym : sy = symbol
      · rw [if_pos hsym, if_pos hsym, hsym]
      · rw [if_neg hsym, if_neg hsym, PositionState.scale_one]
    · rw [if_neg hid, if_neg hid, ite_self, PositionState.scale_one]
  · rw [lots_setLots]
    by_cases hid : id = sleeve
    · by_cases hsym : sy = symbol
      · rw [if_pos ⟨hid, hsym⟩, if_pos hsym, if_pos hid, hid, hsym]
      · rw [if_neg fun h => hsym h.2, if_neg hsym, Lot.scale_one, List.map_id]
    · rw [if_neg fun h => hid h.1, if_neg hid, ite_self, Lot.scale_one, List.map_id]

/-- The events planned for some of the holders scale what these hold. -/
theorem rescaled_splitEvents {externalId : String} (hratio : 0 < ratio)
    {holders : List (UUID × ℚ)} (hnodup : (holders.map Prod.fst).Nodup) (hagree : Agree m s book)
    (hheld : ∀ holder ∈ holders, holder.2 = (s.acc.positionOf holder.1.text symbol).qty)
    (sequence : PlannedCorporateEvent → ℕ) :
    ∃ events, splitEvents symbol ratio externalId holders = .ok events ∧
      Rescaled symbol (fun sleeve => if sleeve ∈ holders.map (·.1.text) then ratio else 1) s
        (foldInto s (plannedRows sequence events)) book
        (foldLotsInto book (plannedRows sequence events)) := by
  induction holders generalizing s book with
  | nil =>
    refine ⟨[], rfl, (Rescaled.refl symbol s book).congr hagree fun sleeve _ => ?_⟩
    exact if_neg List.not_mem_nil
  | cons holder holders ih =>
    have hfirst := hheld holder List.mem_cons_self
    rw [List.map_cons, List.nodup_cons] at hnodup
    obtain ⟨hnew, hnodup⟩ := hnodup
    -- the events of one holder
    obtain ⟨planned, hplan, hone⟩ : ∃ planned,
        splitEvent symbol ratio externalId holder.1 holder.2 = .ok planned ∧
        Rescaled symbol (fun sleeve => if sleeve = holder.1.text then ratio else 1) s
          (foldInto s (plannedRows sequence planned.toList)) book
          (foldLotsInto book (plannedRows sequence planned.toList)) := by
      by_cases hzero : holder.2 = 0
      · refine ⟨none, by simp [splitEvent, hzero, pure_eq_ok], ?_⟩
        refine (Rescaled.refl symbol s book).congr hagree fun sleeve hne => if_neg fun heq => hne ?_
        rw [heq, ← hfirst, hzero]
      · by_cases hone : ratio - 1 = 0
        · refine ⟨none, by simp [splitEvent, hzero, Arithmetic.ofInt, hone, pure_eq_ok], ?_⟩
          refine (Rescaled.refl symbol s book).congr hagree fun sleeve _ => ?_
          rw [sub_eq_zero.mp hone, ite_self]
        · refine ⟨some _, by simp [splitEvent, hzero, Arithmetic.ofInt, hone, pure_eq_ok]; rfl, ?_⟩
          exact rescaled_splitEvent hagree hratio hfirst hzero rfl rfl _
    have hothers : ∀ other ∈ holders, other.2 = ((foldInto s
        (plannedRows sequence planned.toList)).acc.positionOf other.1.text symbol).qty := by
      intro other hother
      have hne : ¬ other.1.text = holder.1.text := fun heq =>
        hnew (UUID.text_injective heq ▸ List.mem_map_of_mem hother)
      rw [hone.position, if_pos rfl, if_neg hne, PositionState.scale_one]
      exact hheld other (List.mem_cons_of_mem _ hother)
    obtain ⟨events, hevents, hrest⟩ := ih hnodup
      (hone.agree (fun sleeve => by split_ifs <;> [exact hratio; exact one_pos]) hagree) hothers
    refine ⟨planned.toList ++ events, by simp [splitEvents, hplan, hevents, pure_eq_ok], ?_⟩
    rw [plannedRows, List.map_append, foldInto_append, foldLotsInto_append]
    refine (hone.trans hrest).congr hagree fun sleeve _ => ?_
    simp only [List.map_cons, List.mem_cons]
    by_cases hsleeve : sleeve = holder.1.text
    · have hnot : sleeve ∉ holders.map (·.1.text) := by
        intro hmem
        obtain ⟨other, hother, heq⟩ := List.mem_map.mp hmem
        exact hnew (UUID.text_injective (heq.trans hsleeve) ▸ List.mem_map_of_mem hother)
      rw [if_pos (.inl hsleeve), if_pos hsleeve, if_neg hnot, mul_one]
    · simp only [hsleeve, false_or, if_false, one_mul]

/-- A split multiplies every holding and every lot of its symbol by the ratio, and changes nothing
else. -/
theorem planSplit_rescales (hagree : Agree m s book) (hratio : 0 < ratio) {externalId : String}
    (hid : externalId ≠ "") {holders : List (UUID × ℚ)} (hholders : HoldersOf s.acc symbol holders)
    (sequence : PlannedCorporateEvent → ℕ) :
    ∃ events, planSplit symbol ratio holders externalId = .ok events ∧
      Rescaled symbol (fun _ => ratio) s
        (foldInto s (plannedRows sequence events)) book
        (foldLotsInto book (plannedRows sequence events)) := by
  obtain ⟨events, hevents, h⟩ :=
    @rescaled_splitEvents symbol s book m ratio externalId hratio holders hholders.nodup hagree
      hholders.held sequence
  refine ⟨events, by simp [planSplit, not_le.mpr hratio, hid, hevents],
    h.congr hagree fun sleeve hne => ?_⟩
  obtain ⟨holder, hmem, htext⟩ := hholders.all sleeve hne
  rw [if_pos (List.mem_map.mpr ⟨holder, hmem, htext⟩)]

end Steps

/-! ## A reverse split of two lots -/

namespace Sample

def twoLots : List (Lot ℚ) := [⟨1, 10, 1⟩, ⟨2, 30, 2⟩]

/-- A sleeve with three shares in two lots. -/
def twoLotState : FoldState ℚ :=
  ⟨AccountProjection.empty.setSleeve sampleSleeve.text
    (SleeveProjection.empty.setPosition "SPY" ⟨3, 40⟩), .empty⟩

theorem twoLots_agree :
    Agree 3 twoLotState (LotBook.setLots ∅ sampleSleeve.text "SPY" twoLots) := by
  intro sleeve symbol
  have hempty : (AccountProjection.empty : AccountProjection ℚ).positionOf sleeve symbol = ⟨0, 0⟩ := rfl
  rw [lots_setLots, twoLotState, positionOf_setSleeve, position_setPosition]
  by_cases hsleeve : sleeve = sampleSleeve.text
  · by_cases hsymbol : symbol = "SPY"
    · rw [if_pos ⟨hsleeve, hsymbol⟩, if_pos hsleeve, if_pos hsymbol]
      refine ⟨⟨?_, ?_⟩, ?_, ?_⟩
      · simp [twoLots]
      · simp [twoLots]
      · norm_num [twoLots, totalQty]
      · norm_num [twoLots, totalCost]
    · rw [if_neg fun h => hsymbol h.2, if_pos hsleeve, if_neg hsymbol]
      exact agreeAt_nil 3
  · rw [if_neg fun h => hsleeve h.1, if_neg hsleeve, hempty]
    exact agreeAt_nil 3

theorem twoLotState_holders : HoldersOf twoLotState.acc "SPY" [(sampleSleeve, 3)] where
  nodup := List.nodup_singleton _
  held holder hmem := by
    rw [List.mem_singleton.mp hmem, twoLotState, positionOf_setSleeve, if_pos rfl,
      position_setPosition, if_pos rfl]
  all sleeve hne := by
    refine ⟨_, List.mem_singleton_self _, ?_⟩
    by_contra hsleeve
    rw [twoLotState, positionOf_setSleeve, if_neg fun h => hsleeve h.symm] at hne
    exact hne rfl

end Sample

theorem planSplit_rescales_reverse :
    ∃ events, planSplit "SPY" (1 / 2 : ℚ) [(sampleSleeve, 3)] "announcement" = .ok events ∧
      Rescaled "SPY" (fun _ => 1 / 2) Sample.twoLotState
        (foldInto Sample.twoLotState (plannedRows (fun _ => 3) events))
        (LotBook.setLots ∅ sampleSleeve.text "SPY" Sample.twoLots)
        (foldLotsInto (LotBook.setLots ∅ sampleSleeve.text "SPY" Sample.twoLots)
          (plannedRows (fun _ => 3) events)) :=
  planSplit_rescales Sample.twoLots_agree (by norm_num) (by decide) Sample.twoLotState_holders _

end LlamaTrade
