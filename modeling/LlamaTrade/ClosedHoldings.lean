import LlamaTrade.DictSums
import LlamaTrade.RehomedLots
import LlamaTrade.ScaledHoldings
import Mathlib.Algebra.BigOperators.Group.Multiset.Basic

/-!
# What a close moves

A close moves the positions of a sleeve with their lots to the unmanaged sleeve, and its cash to
the unallocated one (`plan_sleeve_close`). In exact arithmetic the account keeps its cash, its
quantities and costs, its realized profit and its lots, and nothing stays in the sleeve.
-/

namespace LlamaTrade

/-! ## Sums over the entries of a dictionary -/

namespace Dict

variable {α M : Type} [AddCommMonoid M]

/-- What the values of a dictionary add up to. -/
def gather (f : α → M) (dict : Dict α) : M := (dict.toList.map fun x => f x.2).sum

/-- Setting an entry exchanges its part of the sum. -/
theorem gather_insert (f : α → M) (dict : Dict α) (key : String) (x : α) :
    gather f (dict.insert key x) + (dict[key]?).elim 0 f = gather f dict + f x := by
  have hnew := ((toList_insert_perm dict key x).map fun e => f e.2).sum_eq
  rw [List.map_cons, List.sum_cons] at hnew
  unfold gather
  rw [hnew]
  cases h : dict[key]? with
  | none => rw [filter_eq_of_get_none h, Option.elim_none, add_zero, add_comm]
  | some y =>
    have hold := ((toList_perm_of_get h).map fun e => f e.2).sum_eq
    rw [List.map_cons, List.sum_cons] at hold
    rw [hold, Option.elim_some]
    abel

/-- With a default that adds nothing for a missing entry. -/
theorem gather_insert_getD (f : α → M) (dict : Dict α) (key : String) (x : α) {d : α} (hd : f d = 0) :
    gather f (dict.insert key x) + f (dict.getD key d) = gather f dict + f x := by
  rw [← gather_insert f dict key x, Std.ExtTreeMap.getD_eq_getD_getElem?]
  cases dict[key]? with
  | none => rw [Option.elim_none, Option.getD_none, hd]
  | some y => rfl

end Dict

/-! ## Legs and sums over the sleeves -/

section Legs

/-- What one leg makes of its sleeve. -/
def SleeveProjection.post (s : SleeveProjection ℚ) (p : Posting ℚ) : SleeveProjection ℚ :=
  match p.bucket, p.symbol with
  | .cash, _ => { s with cash := s.cash + p.amount }
  | .pnl, _ => { s with realizedPnl := s.realizedPnl + -p.amount }
  | .position, some symbol =>
    s.setPosition symbol ⟨(s.position symbol).qty + p.qty.getD 0,
      (s.position symbol).costBasis + p.amount⟩
  | _, _ => s

variable {f : SleeveProjection ℚ → ℚ} {acc : AccountProjection ℚ}

/-- What the sleeves of an account add up to. -/
def AccountProjection.total (f : SleeveProjection ℚ → ℚ) (acc : AccountProjection ℚ) : ℚ :=
  Dict.gather f acc.sleeves

theorem total_setSleeve (hempty : f .empty = 0) (acc : AccountProjection ℚ) (id : String)
    (s : SleeveProjection ℚ) :
    (acc.setSleeve id s).total f = acc.total f - f (acc.sleeve id) + f s := by
  have hinsert := Dict.gather_insert_getD f acc.sleeves id s hempty
  rw [show acc.sleeve id = acc.sleeves.getD id .empty from rfl, sub_add_eq_add_sub]
  exact eq_sub_of_add_eq hinsert

theorem total_setSleeve_twice (hempty : f .empty = 0) (acc : AccountProjection ℚ) (id : String)
    (s s' : SleeveProjection ℚ) :
    ((acc.setSleeve id s).setSleeve id s').total f = (acc.setSleeve id s').total f := by
  rw [total_setSleeve hempty, total_setSleeve hempty, total_setSleeve hempty, sleeve_setSleeve,
    if_pos rfl]
  ring

/-- One leg exchanges its sleeve. -/
theorem applyPosting_post (acc : AccountProjection ℚ) {p : Posting ℚ} {id : String}
    (hp : p.sleeveId = some id) (hempty : f .empty = 0) :
    (applyPosting acc p).2 = none ∧
      (∀ sl, (applyPosting acc p).1.sleeve sl =
        if sl = id then (acc.sleeve id).post p else acc.sleeve sl) ∧
      (applyPosting acc p).1.total f = acc.total f - f (acc.sleeve id) + f ((acc.sleeve id).post p) := by
  obtain ⟨sleeveId, bucket, amount, sym, qty⟩ := p
  cases hp
  have hone : ∀ s : SleeveProjection ℚ, (acc.setSleeve id s).total f =
      acc.total f - f (acc.sleeve id) + f s := total_setSleeve hempty acc id
  have hsleeve : ∀ (acc' : AccountProjection ℚ) (s : SleeveProjection ℚ),
      (∀ sl, sl ≠ id → acc'.sleeve sl = acc.sleeve sl) → ∀ sl, (acc'.setSleeve id s).sleeve sl =
        if sl = id then s else acc.sleeve sl := by
    intro acc' s hother sl
    rw [sleeve_setSleeve]
    split
    · rfl
    · next hsl => exact hother sl hsl
  have hother : ∀ s : SleeveProjection ℚ, ∀ sl, sl ≠ id → (acc.setSleeve id s).sleeve sl =
      acc.sleeve sl := fun s sl hsl => by rw [sleeve_setSleeve, if_neg hsl]
  have htwice : ∀ s s' : SleeveProjection ℚ, ((acc.setSleeve id s).setSleeve id s').total f =
      acc.total f - f (acc.sleeve id) + f s' := fun s s' =>
    (total_setSleeve_twice hempty acc id s s').trans (hone s')
  cases bucket with
  | cash => exact ⟨rfl, hsleeve _ _ (hother _), htwice (acc.sleeve id) _⟩
  | pnl => exact ⟨rfl, hsleeve _ _ (hother _), htwice (acc.sleeve id) _⟩
  | external => exact ⟨rfl, hsleeve _ _ fun _ _ => rfl, hone _⟩
  | position =>
    cases sym with
    | none => exact ⟨rfl, hsleeve _ _ fun _ _ => rfl, hone _⟩
    | some symbol =>
      have hthrice : ∀ s₁ s₂ s₃ : SleeveProjection ℚ,
          (((acc.setSleeve id s₁).setSleeve id s₂).setSleeve id s₃).total f =
            acc.total f - f (acc.sleeve id) + f s₃ := fun s₁ s₂ s₃ =>
        (total_setSleeve_twice hempty (acc.setSleeve id s₁) id s₂ s₃).trans (htwice s₁ s₃)
      have hother' : ∀ s₁ s₂ : SleeveProjection ℚ, ∀ sl, sl ≠ id →
          ((acc.setSleeve id s₁).setSleeve id s₂).sleeve sl = acc.sleeve sl := fun s₁ s₂ sl hsl => by
        rw [sleeve_setSleeve, if_neg hsl, hother s₁ sl hsl]
      cases qty with
      | none =>
        have hpost : (acc.sleeve id).post ⟨some id, .position, amount, some symbol, none⟩ =
            (acc.sleeve id).setPosition symbol ⟨((acc.sleeve id).position symbol).qty,
              ((acc.sleeve id).position symbol).costBasis + amount⟩ := by
          simp [SleeveProjection.post]
        rw [hpost]
        exact ⟨rfl, hsleeve _ _ (hother' _ _), hthrice _ _ _⟩
      | some q =>
        refine ⟨rfl, hsleeve _ _ fun sl hsl => ?_,
          (total_setSleeve_twice hempty _ id _ _).trans (hthrice _ _ _)⟩
        rw [sleeve_setSleeve, if_neg hsl, hother' _ _ sl hsl]

/-- A sum over the sleeves moves by what each leg adds to it. -/
theorem total_applyPostings {ps : List (Posting ℚ)} {d : Posting ℚ → ℚ} (hempty : f .empty = 0)
    (hps : ∀ p ∈ ps, p.sleeveId.isSome ∧ ∀ s : SleeveProjection ℚ, f (s.post p) = f s + d p)
    (acc : AccountProjection ℚ) :
    (applyPostings acc ps).1.total f = acc.total f + (ps.map d).sum := by
  induction ps generalizing acc with
  | nil => simp [applyPostings]
  | cons p ps ih =>
    obtain ⟨⟨hid, hpost⟩, hps⟩ := List.forall_mem_cons.mp hps
    obtain ⟨id, hid⟩ := Option.isSome_iff_exists.mp hid
    obtain ⟨hnone, -, htotal⟩ := applyPosting_post acc hid hempty
    have hpair : applyPosting acc p = ((applyPosting acc p).1, none) := by rw [← hnone]
    rw [applyPostings, hpair, Attempt.andThen_none, ih hps, htotal, hpost, List.map_cons,
      List.sum_cons]
    ring

/-- What a leg adds to the cash of a sleeve. -/
def legCash (sleeve : String) (p : Posting ℚ) : ℚ :=
  if p.sleeveId = some sleeve ∧ p.bucket = .cash then p.amount else 0

theorem cash_applyPostings {ps : List (Posting ℚ)} (hps : ∀ p ∈ ps, p.sleeveId.isSome)
    (acc : AccountProjection ℚ) (sleeve : String) :
    ((applyPostings acc ps).1.sleeve sleeve).cash =
      (acc.sleeve sleeve).cash + (ps.map (legCash sleeve)).sum := by
  induction ps generalizing acc with
  | nil => simp [applyPostings]
  | cons p ps ih =>
    obtain ⟨hid, hps⟩ := List.forall_mem_cons.mp hps
    obtain ⟨id, hid⟩ := Option.isSome_iff_exists.mp hid
    obtain ⟨hnone, hsleeve, -⟩ := applyPosting_post acc hid (f := fun _ => 0) rfl
    have hpair : applyPosting acc p = ((applyPosting acc p).1, none) := by rw [← hnone]
    rw [applyPostings, hpair, Attempt.andThen_none, ih hps, hsleeve, List.map_cons, List.sum_cons,
      ← add_assoc]
    congr 1
    by_cases hsl : sleeve = id
    · subst hsl
      obtain ⟨sleeveId, bucket, amount, sym, qty⟩ := p
      cases hid
      cases bucket with
      | cash | pnl | external => simp [legCash, SleeveProjection.post]
      | position => cases sym <;> simp [legCash, SleeveProjection.post, SleeveProjection.setPosition]
    · have hother : ¬(some id = some sleeve) := fun h => hsl (Option.some.inj h).symm
      rw [if_neg hsl, legCash, hid, if_neg fun h => hother h.1, add_zero]

end Legs

/-! ## The lots of an account -/

section Lots

/-- The lots of one symbol in all sleeves. -/
def LotBook.accountLots (book : LotBook ℚ) (symbol : String) : Multiset (Lot ℚ) :=
  Dict.gather (fun lots : Dict (List (Lot ℚ)) => (lots.getD symbol [] : Multiset (Lot ℚ))) book

variable {book : LotBook ℚ}

theorem accountLots_insert (book : LotBook ℚ) (sleeve : String) (lots : Dict (List (Lot ℚ)))
    (symbol : String) :
    LotBook.accountLots (book.insert sleeve lots) symbol + (book.lots sleeve symbol : Multiset (Lot ℚ)) =
      book.accountLots symbol + (lots.getD symbol [] : Multiset (Lot ℚ)) := by
  refine Dict.gather_insert_getD _ book sleeve lots (d := ∅) ?_
  simp

theorem accountLots_addLot (book : LotBook ℚ) (target symbol sy : String) (lot : Lot ℚ) :
    (addLot book target sy lot).accountLots symbol =
      book.accountLots symbol + if sy = symbol then {lot} else 0 := by
  have hinsert := accountLots_insert book target
    ((book.getD target ∅).insert sy (sortLots (book.lots target sy ++ [lot]))) symbol
  refine add_right_cancel (hinsert.trans ?_)
  rw [Std.ExtTreeMap.getD_insert]
  by_cases hsy : sy = symbol
  · subst hsy
    have hperm : (sortLots (book.lots target sy ++ [lot]) : Multiset (Lot ℚ)) =
        (book.lots target sy : Multiset (Lot ℚ)) + {lot} :=
      Multiset.coe_eq_coe.mpr (sortLots_perm _)
    rw [if_pos Std.ReflCmp.compare_self, if_pos rfl, hperm]
    abel
  · have hcompare : ¬ compare sy symbol = .eq := by simpa using hsy
    rw [if_neg hcompare, if_neg hsy, add_zero]
    rfl

theorem accountLots_addLots (moved : List (String × Lot ℚ)) (book : LotBook ℚ)
    (target symbol : String) :
    (addLots book target moved).accountLots symbol =
      book.accountLots symbol + (lotsOf moved symbol : Multiset (Lot ℚ)) := by
  induction moved generalizing book with
  | nil => simp [addLots, lotsOf]
  | cons l moved ih =>
    rw [show addLots book target (l :: moved) = addLots (addLot book target l.1 l.2) target moved
      from rfl, ih, accountLots_addLot, add_assoc]
    congr 1
    by_cases hsy : l.1 = symbol
    · rw [if_pos hsy, show lotsOf (l :: moved) symbol = l.2 :: lotsOf moved symbol by
        simp [lotsOf, hsy], ← Multiset.cons_coe, Multiset.singleton_add]
    · rw [if_neg hsy, zero_add, show lotsOf (l :: moved) symbol = lotsOf moved symbol by
        simp [lotsOf, hsy]]

/-- Emptying the sleeve takes its lots out of the account. -/
theorem accountLots_withoutSleeve (book : LotBook ℚ) (source target symbol : String) :
    (withoutSleeve book source target).accountLots symbol +
        (book.lots source symbol : Multiset (Lot ℚ)) = book.accountLots symbol := by
  have hfirst := accountLots_insert book source ∅ symbol
  have hsecond := accountLots_insert (book.insert source ∅) target
    (Std.ExtTreeMap.getD (book.insert source ∅) target ∅) symbol
  have hsame : LotBook.accountLots (withoutSleeve book source target) symbol =
      LotBook.accountLots (book.insert source ∅) symbol := add_right_cancel hsecond
  rw [hsame, hfirst]
  simp

end Lots

/-! ## A planned close -/

section Closing

variable {m : ℤ} {s : FoldState ℚ} {book : LotBook ℚ} {held : List (String × PositionState ℚ)}

/-- The listed lots of one symbol are those of its position, if it has shares. -/
theorem lotsOf_planned (hdistinct : held.Pairwise fun a b => a.1 ≠ b.1)
    (reader : String → List (Lot ℚ)) (symbol : String) :
    lotsOf ((plannedPositions reader held).flatMap fun p => p.lots.map fun lot => (p.symbol, lot))
      symbol = if ∃ x ∈ held, x.1 = symbol ∧ x.2.qty ≠ 0 then reader symbol else [] := by
  classical
  induction held with
  | nil => simp [plannedPositions, lotsOf]
  | cons x held ih =>
    obtain ⟨hx, hdistinct⟩ := List.pairwise_cons.mp hdistinct
    have hlots : ∀ sy, lotsOf ((reader sy).map fun lot => (sy, lot)) symbol =
        if sy = symbol then reader sy else [] := by
      intro sy
      by_cases hsy : sy = symbol <;> simp [lotsOf, List.filter_map, hsy, Function.comp_def]
    by_cases hqty : x.2.qty = 0
    · have hplanned : plannedPositions reader (x :: held) = plannedPositions reader held := by
        simp [plannedPositions, hqty]
      rw [hplanned, ih hdistinct]
      simp [hqty]
    · have hplanned : plannedPositions reader (x :: held) =
          ⟨x.1, x.2.qty, x.2.costBasis, reader x.1⟩ :: plannedPositions reader held := by
        simp [plannedPositions, hqty]
      rw [hplanned, List.flatMap_cons, lotsOf_append, hlots, ih hdistinct]
      by_cases hsymbol : x.1 = symbol
      · have hnone : ¬∃ y ∈ held, y.1 = symbol ∧ y.2.qty ≠ 0 := by
          rintro ⟨y, hy, hsame, -⟩
          exact hx y hy (hsymbol.trans hsame.symm)
        rw [if_pos hsymbol, if_neg hnone, List.append_nil,
          if_pos ⟨x, List.mem_cons_self, hsymbol, hqty⟩, hsymbol]
      · rw [if_neg hsymbol, List.nil_append]
        simp [hsymbol]

/-- What a close keeps of the account, and what it leaves in the sleeve. -/
structure Rehomed (source unmanaged : String) (s s' : FoldState ℚ) (book book' : LotBook ℚ) :
    Prop where
  cash : s'.acc.total (·.cash) = s.acc.total (·.cash)
  qty : ∀ symbol, s'.acc.total (fun sl => (sl.position symbol).qty) =
    s.acc.total fun sl => (sl.position symbol).qty
  costBasis : ∀ symbol, s'.acc.total (fun sl => (sl.position symbol).costBasis) =
    s.acc.total fun sl => (sl.position symbol).costBasis
  realizedPnl : s'.acc.total (·.realizedPnl) = s.acc.total (·.realizedPnl)
  noCash : (s'.acc.sleeve source).cash = 0
  noPositions : ∀ symbol, s'.acc.positionOf source symbol = ⟨0, 0⟩
  noLots : ∀ symbol, book'.lots source symbol = []
  lots : ∀ symbol, book'.accountLots symbol = book.accountLots symbol
  sorted : ∀ symbol, (book'.lots unmanaged symbol).Pairwise fun a b => a.openedSeq ≤ b.openedSeq

section CloseLegs

variable {source unmanaged unallocated : UUID} {ps : List (RehomedPosition ℚ)} {cash : ℚ}

theorem mem_closeLegs {leg : Posting ℚ}
    (h : leg ∈ closeLegs source unmanaged unallocated ps cash) : leg.sleeveId.isSome := by
  rcases List.mem_append.mp h with h | h
  · obtain ⟨p, -, h⟩ := List.mem_flatMap.mp h
    simp only [rehomeLegs, List.mem_cons, List.not_mem_nil, or_false] at h
    obtain rfl | rfl := h <;> rfl
  · split_ifs at h
    · cases h
    · simp only [List.mem_cons, List.not_mem_nil, or_false] at h
      obtain rfl | rfl := h <;> rfl

/-- What the two legs of each move add up to zero of, the close leaves alone. -/
theorem closeLegs_cancel {d : Posting ℚ → ℚ}
    (hmoved : ∀ p, ((rehomeLegs source.text unmanaged.text p).map d).sum = 0)
    (hcash : d ⟨some source.text, .cash, -cash, none, none⟩ +
      d ⟨some unallocated.text, .cash, cash, none, none⟩ = 0) :
    ((closeLegs source unmanaged unallocated ps cash).map d).sum = 0 := by
  have hpositions : ((ps.flatMap (rehomeLegs source.text unmanaged.text)).map d).sum = 0 := by
    induction ps with
    | nil => rfl
    | cons p ps ih => rw [List.flatMap_cons, List.map_append, List.sum_append, hmoved, ih, add_zero]
  rw [closeLegs, List.map_append, List.sum_append, hpositions, zero_add]
  split_ifs
  · rfl
  · rw [List.map_cons, List.map_cons, List.map_nil, List.sum_cons, List.sum_cons, List.sum_nil,
      add_zero, hcash]

/-- All cash leaves the source. -/
theorem closeLegs_cash (hunallocated : unallocated ≠ source) :
    ((closeLegs source unmanaged unallocated ps cash).map (legCash source.text)).sum = -cash := by
  have hpositions : ((ps.flatMap (rehomeLegs source.text unmanaged.text)).map
      (legCash source.text)).sum = 0 := by
    induction ps with
    | nil => rfl
    | cons p ps ih =>
      rw [List.flatMap_cons, List.map_append, List.sum_append, ih, add_zero]
      simp [rehomeLegs, legCash]
  have hother : unallocated.text ≠ source.text := fun h => hunallocated (UUID.text_injective h)
  rw [closeLegs, List.map_append, List.sum_append, hpositions, zero_add]
  split_ifs with hzero
  · simp [hzero]
  · simp [legCash, hother]

end CloseLegs

/-- The fold of a close applies its legs. -/
theorem acc_foldEvent_close (hagree : Agree m s book) {source unmanaged unallocated : UUID}
    (hheld : held.Perm (s.acc.sleeve source.text).positions.toList) (reader : String → List (Lot ℚ))
    (cash : ℚ) (reason : Option String) (sequence : ℕ) :
    (foldEvent s ⟨sequence, LedgerEventType.sleeveClosed.value, closeData source unmanaged
        unallocated (plannedPositions reader held) cash reason⟩).acc =
      (applyPostings s.acc
        (closeLegs source unmanaged unallocated (plannedPositions reader held) cash)).1 := by
  have hvalid := validatedPostings_exact
    (buildPostings_closeData source unmanaged unallocated (plannedPositions reader held) cash reason)
    (closeLegs_sum _ _ _ _ _) (closeLegs_signsAgree hagree hheld reader cash)
  have hnone := (applyPostings_exact s.acc
    (closeLegs source unmanaged unallocated (plannedPositions reader held) cash) "" "").1
  simp [foldEvent, applyEvent, hvalid, applyReservation, present_closeData, hnone]

theorem position_post (sl : SleeveProjection ℚ) (p : Posting ℚ) (symbol : String) :
    (sl.post p).position symbol =
      ⟨(sl.position symbol).qty +
          if p.bucket = .position ∧ p.symbol = some symbol then p.qty.getD 0 else 0,
        (sl.position symbol).costBasis +
          if p.bucket = .position ∧ p.symbol = some symbol then p.amount else 0⟩ := by
  obtain ⟨sleeveId, bucket, amount, sym, qty⟩ := p
  cases bucket with
  | cash | pnl | external => simp [SleeveProjection.post, SleeveProjection.position]
  | position =>
    cases sym with
    | none => simp [SleeveProjection.post]
    | some sy =>
      simp only [SleeveProjection.post, position_setPosition, true_and, Option.some.injEq,
        @eq_comm _ sy symbol]
      by_cases hsy : symbol = sy
      · simp [hsy]
      · simp [hsy]

end Closing

end LlamaTrade
