import LlamaTrade.RehomedLots

/-!
# Streams on which lots and balances agree

A stream is admissible when every fill has a positive quantity and a non-negative price,
every sell carries the FIFO cost basis of the lots before it, and every split, rename and
close is the planned one for the state before it. If also no adopted trade reduces a
position, then after every prefix the lots of each sleeve and symbol add up to the position.
An adopted trade that reduces a position takes its own price out of the cost of the
position, but the FIFO cost out of the lots.
-/

namespace LlamaTrade

def Admissible (s : FoldState ℚ) (book : LotBook ℚ) (ev : LedgerEvent) : Prop :=
  match LedgerEventType.coerce ev.eventType with
  | .ok .orderFilled => FillAdmissible book ev.data
  | .ok .splitApplied => SplitPlanned s ev.data
  | .ok .symbolChanged => RenamePlanned s ev.data
  | .ok .sleeveClosed => ClosePlanned s book ev.data
  | _ => True

/-- Every event is admissible in the state and on the lots of the events before it. -/
def AdmissibleFrom (s : FoldState ℚ) (book : LotBook ℚ) : List LedgerEvent → Prop
  | [] => True
  | ev :: events =>
    Admissible s book ev ∧ AdmissibleFrom (foldEvent s ev) (foldLotsEvent book ev) events

def AdmissibleStream (events : List LedgerEvent) : Prop := AdmissibleFrom .empty ∅ events

/-- No adopted trade of the stream reduces a position. -/
def AdoptionsAcquire (events : List LedgerEvent) : Prop :=
  ∀ ev ∈ events, LedgerEventType.coerce ev.eventType = .ok .externalTradeDetected →
    AdoptionAcquires ev.data

/-- The types whose events have position legs. -/
def LedgerEventType.movesPositions (t : LedgerEventType) : Bool :=
  t == .orderFilled || t == .externalTradeDetected || t == .splitApplied || t == .symbolChanged ||
    t == .sleeveClosed

theorem buildPostings_of_not_movesPositions {D : Type} [Arithmetic D] {t : LedgerEventType}
    (ht : t.movesPositions = false) {data : Payload} {ps : List (Posting D)} (h : buildPostings t data = .ok ps) :
    ∀ p ∈ ps, p.bucket ≠ .position := by
  cases t <;> first
    | exact absurd ht (by decide)
    | (cases h
       simp)
    | (simp only [buildPostings, bind_eq_ok] at h
       obtain ⟨amount, -, a, -, b, -, c, -, h⟩ := h
       cases h
       simp)
    | (simp only [buildPostings, bind_eq_ok] at h
       obtain ⟨amount, -, a, -, b, -, h⟩ := h
       cases h
       simp)

section Steps

variable {m : ℤ} {s : FoldState ℚ} {book : LotBook ℚ} {ev : LedgerEvent}

theorem Agree.step_other (hagree : Agree m s book) (hseq : m ≤ ev.sequence)
    (ht : ∀ t, LedgerEventType.coerce ev.eventType = .ok t → t.movesPositions = false) :
    Agree (ev.sequence + 1) (foldEvent s ev) (foldLotsEvent book ev) := by
  cases hc : LedgerEventType.coerce ev.eventType with
  | error e =>
    refine hagree.step_of_no_legs (by omega) (by simp [eventLegs, hc]) ?_
    simp [foldLotsEvent, applyLotEvent, hc]
  | ok t =>
    have hmoves := ht t hc
    have hsplit : t ≠ .splitApplied := by rintro rfl; cases hmoves
    have hrename : t ≠ .symbolChanged := by rintro rfl; cases hmoves
    have hclose : t ≠ .sleeveClosed := by rintro rfl; cases hmoves
    cases hps : buildPostings (D := ℚ) t ev.data with
    | error e =>
      refine hagree.step_of_no_legs (by omega) (by simp [eventLegs_of_error hc hps]) ?_
      exact foldLotsEvent_of_error book hc hsplit hrename hclose hps
    | ok ps =>
      have hlegs := buildPostings_of_not_movesPositions hmoves hps
      refine hagree.step_of_no_legs (by omega) (fun p hp => ?_) ?_
      · refine hlegs p ?_
        simp only [eventLegs, hc, validatedPostings, hps, ok_bind] at hp
        revert hp
        by_cases hempty : ps.isEmpty = true
        · simp [hempty, pure_eq_ok]
        · cases hb : assertBalanced ps with
          | error e => simp [hempty]
          | ok _ => simp [hempty, pure_eq_ok]
      · rw [foldLotsEvent_of_postings book hc hsplit hrename hclose hps,
          applyLotPostings_of_no_position _ _ hlegs]

theorem Agree.step_admissible (hagree : Agree m s book) (hseq : m ≤ ev.sequence)
    (hadm : Admissible s book ev)
    (hadopt : LedgerEventType.coerce ev.eventType = .ok .externalTradeDetected →
      AdoptionAcquires ev.data) :
    Agree (ev.sequence + 1) (foldEvent s ev) (foldLotsEvent book ev) := by
  by_cases hmoves : ∃ t, LedgerEventType.coerce ev.eventType = .ok t ∧ t.movesPositions = true
  · obtain ⟨t, ht, hmoves⟩ := hmoves
    rw [Admissible, ht] at hadm
    cases t <;> first
      | exact absurd hmoves (by decide)
      | exact hagree.step_fill hseq ht hadm
      | exact hagree.step_adoption hseq ht (hadopt ht)
      | exact hagree.step_split hseq ht hadm
      | exact hagree.step_rename hseq ht hadm
      | exact hagree.step_close hseq ht hadm
  · refine hagree.step_other hseq fun t ht => ?_
    by_contra h
    exact hmoves ⟨t, ht, by simpa using h⟩

/-- The agreement holds after every prefix of a stream that starts in agreement. -/
theorem Agree.prefix {events : List LedgerEvent} (hagree : Agree m s book)
    (hseq : Sequenced events) (hfirst : ∀ ev ∈ events, m ≤ ev.sequence)
    (hadm : AdmissibleFrom s book events) (hadopt : AdoptionsAcquire events)
    {done : List LedgerEvent} (hdone : done <+: events) :
    ∃ m', Agree m' (foldInto s done) (foldLotsInto book done) := by
  induction events generalizing m s book done with
  | nil =>
    rw [List.prefix_nil.mp hdone]
    exact ⟨m, hagree⟩
  | cons ev events ih =>
    cases done with
    | nil => exact ⟨m, hagree⟩
    | cons e done =>
      obtain ⟨rfl, hrest⟩ := List.cons_prefix_cons.mp hdone
      obtain ⟨hev, hevents⟩ := hadm
      obtain ⟨hlater, hseq⟩ := List.pairwise_cons.mp hseq
      have hstep := hagree.step_admissible (hfirst e (by simp)) hev (hadopt e (by simp))
      refine ih hstep hseq (fun ev hmem => ?_) hevents (fun ev hmem => hadopt ev (by simp [hmem]))
        hrest
      have hlt := hlater ev hmem
      omega

end Steps

theorem agree_empty : Agree 0 .empty ∅ := by
  intro sleeve symbol
  have hlots : LotBook.lots (∅ : LotBook ℚ) sleeve symbol = [] := by simp [LotBook.lots]
  have hpos : (FoldState.empty : FoldState ℚ).acc.positionOf sleeve symbol = ⟨0, 0⟩ := by
    simp [AccountProjection.positionOf, FoldState.empty, AccountProjection.empty,
      AccountProjection.sleeve, SleeveProjection.empty, SleeveProjection.position,
      PositionState.empty]
  rw [hlots, hpos]
  exact agreeAt_nil 0

/-- After every prefix, the lots of each sleeve and symbol add up to the position in
quantity and in cost, are positive and stand in order of acquisition. -/
theorem lots_agree_with_positions {events : List LedgerEvent} (hseq : Sequenced events)
    (hadm : AdmissibleStream events) (hadopt : AdoptionsAcquire events)
    {done : List LedgerEvent} (hdone : done <+: events) (sleeve symbol : String) :
    let lots := (foldLotsInto (∅ : LotBook ℚ) done).lots sleeve symbol
    let pos := (foldInto (.empty : FoldState ℚ) done).acc.positionOf sleeve symbol
    totalQty lots = pos.qty ∧ totalCost lots = pos.costBasis ∧ (∀ lot ∈ lots, 0 < lot.qty) ∧
      lots.Pairwise fun a b => a.openedSeq ≤ b.openedSeq := by
  obtain ⟨m, hagree⟩ := agree_empty.prefix hseq (by simp) hadm hadopt hdone
  obtain ⟨hok, hqty, hcost⟩ := hagree sleeve symbol
  exact ⟨hqty, hcost, fun lot hlot => (hok.each lot hlot).1, hok.sorted⟩

/-! ## Two streams -/

def fillEvent (seq : ℕ) (sleeve symbol side qty price : String) (basis : Payload) : LedgerEvent :=
  ⟨seq, "order_filled", [("sleeve_id", .str sleeve), ("symbol", .str symbol), ("side", .str side),
    ("qty", .str qty), ("price", .str price)] ++ basis⟩

def adoptionEvent (seq : ℕ) (sleeve symbol qty price : String) : LedgerEvent :=
  ⟨seq, "external_trade_detected", [("sleeve_id", .str sleeve), ("symbol", .str symbol),
    ("qty", .str qty), ("price", .str price)]⟩

def splitEventOf (seq : ℕ) (sleeve symbol : String) (delta : ℚ) : LedgerEvent :=
  ⟨seq, "split_applied", [("sleeve_id", .str sleeve), ("symbol", .str symbol),
    ("qty_delta", .str (Arithmetic.text delta))]⟩

def sampleSleeve : UUID := 10

/-- A buy, a sale of part of it and a two-for-one split. -/
def boughtSoldSplit : List LedgerEvent :=
  [fillEvent 1 sampleSleeve.text "SPY" "buy" "100" "10" [],
    fillEvent 2 sampleSleeve.text "SPY" "sell" "40" "12" [("cost_basis", .str "400")],
    splitEventOf 3 sampleSleeve.text "SPY" 60]

theorem fillAdmissible_of_fields {book : LotBook ℚ} {data : Payload} {sleeve symbol side : String}
    {q p : ℚ} (hsleeve : data.text "sleeve_id" = .ok sleeve)
    (hsymbol : data.text "symbol" = .ok symbol) (hside : data.text "side" = .ok side)
    (hqty : number data "qty" = .ok q) (hprice : number data "price" = .ok p) (hpos : 0 < q)
    (hnonneg : 0 ≤ p)
    (hsell : PyText.lower side = "sell" → ∀ cost, number data "cost_basis" = .ok cost →
      ∃ r, selectLotsFifo (book.lots sleeve symbol) q = .ok r ∧ cost = r.closedCostBasis) :
    FillAdmissible book data := by
  intro sleeve' symbol' side' qty' price' hsleeve' hsymbol' hside' hqty' hprice'
  cases hsleeve.symm.trans hsleeve'
  cases hsymbol.symm.trans hsymbol'
  cases hside.symm.trans hside'
  cases hqty.symm.trans hqty'
  cases hprice.symm.trans hprice'
  exact ⟨hpos, hnonneg, hsell⟩

theorem lots_agree_boughtSoldSplit :
    Sequenced boughtSoldSplit ∧ AdmissibleStream boughtSoldSplit ∧
      AdoptionsAcquire boughtSoldSplit ∧
      totalQty ((foldLotsInto (∅ : LotBook ℚ) boughtSoldSplit).lots sampleSleeve.text "SPY") =
        ((foldInto (.empty : FoldState ℚ) boughtSoldSplit).acc.positionOf
          sampleSleeve.text "SPY").qty := by
  have hseq : Sequenced boughtSoldSplit := by
    simp [Sequenced, boughtSoldSplit, fillEvent, splitEventOf]
  have hfill : LedgerEventType.coerce "order_filled" = .ok .orderFilled := rfl
  have hsplit : LedgerEventType.coerce "split_applied" = .ok .splitApplied := rfl
  have hadopt : AdoptionsAcquire boughtSoldSplit := by
    simp [AdoptionsAcquire, boughtSoldSplit, fillEvent, splitEventOf, hfill, hsplit]
  have hbuy : FillAdmissible ∅ (fillEvent 1 sampleSleeve.text "SPY" "buy" "100" "10" []).data :=
    fillAdmissible_of_fields (q := 100) (p := 10) rfl rfl rfl (by decide +kernel)
      (by decide +kernel) (by norm_num) (by norm_num) fun h => absurd h (by decide)
  have hsell : FillAdmissible (foldLotsInto ∅ (boughtSoldSplit.take 1))
      (fillEvent 2 sampleSleeve.text "SPY" "sell" "40" "12" [("cost_basis", .str "400")]).data := by
    have hbasis : (selectLotsFifo ((foldLotsInto ∅ (boughtSoldSplit.take 1)).lots
        sampleSleeve.text "SPY") (40 : ℚ)).map (·.closedCostBasis) = .ok 400 := by decide +kernel
    refine fillAdmissible_of_fields (q := 40) (p := 12) rfl rfl rfl (by decide +kernel)
      (by decide +kernel) (by norm_num) (by norm_num) fun _ cost hcost => ?_
    have hfour : number (fillEvent 2 sampleSleeve.text "SPY" "sell" "40" "12"
        [("cost_basis", .str "400")]).data "cost_basis" = .ok (400 : ℚ) := by decide +kernel
    cases hr : selectLotsFifo ((foldLotsInto ∅ (boughtSoldSplit.take 1)).lots
        sampleSleeve.text "SPY") (40 : ℚ) with
    | error e =>
      rw [hr] at hbasis
      cases hbasis
    | ok r =>
      rw [hr] at hbasis
      cases hfour.symm.trans hcost
      exact ⟨r, hr, (Except.ok.inj hbasis).symm⟩
  have hplan : SplitPlanned (foldInto .empty (boughtSoldSplit.take 2))
      (splitEventOf 3 sampleSleeve.text "SPY" 60).data := by
    have hdelta : (60 : ℚ) * (2 - 1) = 60 := by norm_num
    have hratio : ¬ (2 : ℚ) ≤ 0 := by norm_num
    have hchange : (2 : ℚ) - 1 ≠ 0 := by norm_num
    have hevents : planSplit "SPY" (2 : ℚ) [(sampleSleeve, 60)] "announcement" =
        .ok [{ eventType := .splitApplied
               sleeveId := sampleSleeve
               data := (splitEventOf 3 sampleSleeve.text "SPY" 60).data
               dedupKey := "split:" ++ "SPY" ++ ":" ++ "announcement" ++ ":" ++
                 Arithmetic.text (2 : ℚ) ++ ":" ++ sampleSleeve.text }] := by
      simp [planSplit, splitEvents, splitEvent, Arithmetic.ofInt, hdelta, hratio, hchange,
        pure_eq_ok, splitEventOf]
    have hheld : (60 : ℚ) = ((foldInto (.empty : FoldState ℚ)
        (boughtSoldSplit.take 2)).acc.positionOf sampleSleeve.text "SPY").qty := by decide +kernel
    refine ⟨"SPY", 2, [(sampleSleeve, 60)], "announcement", _, _, hevents,
      List.mem_singleton_self _, rfl, fun holder hmem _ => ?_⟩
    rw [List.mem_singleton.mp hmem]
    exact hheld
  exact ⟨hseq, ⟨hbuy, hsell, hplan, trivial⟩, hadopt,
    (lots_agree_with_positions hseq ⟨hbuy, hsell, hplan, trivial⟩ hadopt (List.prefix_refl _) _ _).1⟩

/-- Ten shares adopted at 10, then five of them adopted away at 20. -/
def adoptedAway : List LedgerEvent :=
  [adoptionEvent 1 "u" "SPY" "10" "10", adoptionEvent 2 "u" "SPY" "-5" "20"]

/-- The stream is admissible and no position goes negative, but the lots keep a cost of 50
where the position has none left. -/
theorem lots_disagree_adoptedAway :
    Sequenced adoptedAway ∧ AdmissibleStream adoptedAway ∧
      (∀ done, done <+: adoptedAway → ∀ sleeve symbol,
        0 ≤ ((foldInto (.empty : FoldState ℚ) done).acc.positionOf sleeve symbol).qty) ∧
      totalCost ((foldLotsInto (∅ : LotBook ℚ) adoptedAway).lots "u" "SPY") = 50 ∧
      ((foldInto (.empty : FoldState ℚ) adoptedAway).acc.positionOf "u" "SPY").costBasis = 0 := by
  have hseq : Sequenced adoptedAway := by simp [Sequenced, adoptedAway, adoptionEvent]
  have hnonneg : ∀ sleeve symbol : String,
      0 ≤ legQty sleeve symbol ⟨some "u", .position, 100, some "SPY", some 10⟩ ∧
        0 ≤ legQty sleeve symbol ⟨some "u", .position, 100, some "SPY", some 10⟩ +
          legQty sleeve symbol ⟨some "u", .position, -100, some "SPY", some (-5)⟩ := by
    intro sleeve symbol
    simp only [legQty, Posting.Moves]
    split_ifs <;> norm_num
  have hfirst : eventLegs (adoptionEvent 1 "u" "SPY" "10" "10") =
      [⟨none, .external, -100, none, none⟩, ⟨some "u", .position, 100, some "SPY", some 10⟩] := by
    decide +kernel
  have hsecond : eventLegs (adoptionEvent 2 "u" "SPY" "-5" "20") =
      [⟨none, .external, 100, none, none⟩,
        ⟨some "u", .position, -100, some "SPY", some (-5)⟩] := by decide +kernel
  have hexternal : ∀ (sleeve symbol : String) (amount : ℚ),
      legQty sleeve symbol ⟨none, .external, amount, none, none⟩ = 0 := fun _ _ _ => rfl
  have hempty : ∀ sleeve symbol : String,
      ((FoldState.empty : FoldState ℚ).acc.positionOf sleeve symbol).qty = 0 := by
    intro sleeve symbol
    rw [← (agree_empty sleeve symbol).qty]
    simp [LotBook.lots]
  refine ⟨hseq, ⟨trivial, trivial, trivial⟩, fun done hdone sleeve symbol => ?_, by decide +kernel,
    by decide +kernel⟩
  obtain ⟨hone, htwo⟩ := hnonneg sleeve symbol
  rcases done with _ | ⟨a, _ | ⟨b, rest⟩⟩
  · rw [foldInto_nil, hempty]
  · obtain ⟨rfl, -⟩ := List.cons_prefix_cons.mp hdone
    simpa [foldEvent_positionOf, hfirst, hexternal, hempty] using hone
  · obtain ⟨rfl, htail⟩ := List.cons_prefix_cons.mp hdone
    obtain ⟨rfl, hrest⟩ := List.cons_prefix_cons.mp htail
    rw [List.prefix_nil.mp hrest]
    simpa [foldEvent_positionOf, hfirst, hsecond, hexternal, hempty] using htwo

end LlamaTrade
