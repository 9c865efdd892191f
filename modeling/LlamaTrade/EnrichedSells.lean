import LlamaTrade.DecimalRounding
import LlamaTrade.FillMessages

/-!
# Whether an enriched sell balances

The cash leg of a sell takes the fee off the notional, the profit leg takes the cost and
then the fee off it, and the balance check subtracts the one from the other. In exact
arithmetic the order does not matter; with results rounded to 28 digits it can.
-/

namespace LlamaTrade

open Arithmetic

/-- The default context has room between its smallest and its largest exponent. -/
theorem defaultContext_range : defaultContext.etiny ≤ defaultContext.etop := by decide

theorem defaultContext_prec : 0 < defaultContext.prec := by decide

/-! ## The selected cost -/

theorem selectLoop_fits {remaining closed : Decimal} {lots : List (Lot Decimal)}
    {r c : Decimal} {out : List (Lot Decimal)}
    (hclosed : closed.isFinite → defaultContext.Fits closed.toRat)
    (h : selectLoop remaining closed lots = .ok (r, c, out)) (hc : c.isFinite) :
    defaultContext.Fits c.toRat := by
  have hadd : ∀ {x y z : Decimal}, Arithmetic.add x y = .ok z → z.isFinite →
      defaultContext.Fits z.toRat := by
    intro x y z hadd hz
    obtain ⟨hx, hy⟩ := Decimal.isFinite_of_add hadd hz
    exact (Decimal.add_fits defaultContext_range hx hy hadd).2
  induction lots generalizing remaining closed r c out with
  | nil =>
    cases h
    exact hclosed hc
  | cons lot lots ih =>
    simp only [selectLoop, bind_eq_ok] at h
    obtain ⟨done, -, h⟩ := h
    split_ifs at h
    · simp only [bind_eq_ok] at h
      obtain ⟨⟨r', c', out'⟩, hrest, h⟩ := h
      cases h
      exact ih hclosed hrest hc
    · simp only [bind_eq_ok] at h
      obtain ⟨whole, -, h⟩ := h
      split_ifs at h
      · simp only [bind_eq_ok] at h
        obtain ⟨closed', hclosed', remaining', -, hrest⟩ := h
        exact ih (hadd hclosed') hrest hc
      · simp only [bind_eq_ok] at h
        obtain ⟨unit, -, part, -, closed', hclosed', qty, -, part', -, cost, -, ⟨r', c', out'⟩,
          hrest, h⟩ := h
        cases h
        exact ih (hadd hclosed') hrest hc

theorem selectLotsFifo_fits {lots : List (Lot Decimal)} {qty : Decimal} {r : FifoResult Decimal}
    (h : selectLotsFifo lots qty = .ok r) (hc : r.closedCostBasis.isFinite) :
    defaultContext.Fits r.closedCostBasis.toRat := by
  simp only [selectLotsFifo, bind_eq_ok] at h
  obtain ⟨positive, -, h⟩ := h
  split_ifs at h
  simp only [bind_eq_ok] at h
  obtain ⟨⟨remaining, closed, out⟩, hloop, short, -, h⟩ := h
  split_ifs at h
  cases h
  refine selectLoop_fits (fun _ => ?_) hloop hc
  exact Decimal.toRat_eq_zero.mpr rfl ▸ Context.fits_zero defaultContext_range

/-! ## The legs of a sell -/

/-- Taking the fee and then the cost off the notional, and the cost and then the fee, can
both be computed and give the same number. -/
def FeeAndCostCommute (notional fees cost : Decimal) : Prop :=
  ∃ x y, (sub notional fees >>= fun net => sub net cost) = .ok x ∧
    (sub notional cost >>= fun gross => sub gross fees) = .ok y ∧ x.toRat = y.toRat

theorem checkSigns_position {sleeve symbol : Option String} {amount qty : Decimal}
    (hamount : amount.isFinite) (hqty : qty.isFinite) :
    checkSigns ⟨sleeve, .position, amount, symbol, some qty⟩ = .ok () ↔
      ¬ (0 < amount.toRat ∧ qty.toRat < 0) ∧ ¬ (amount.toRat < 0 ∧ 0 < qty.toRat) := by
  have hzero : (zero : Decimal).isFinite := rfl
  have hval : (zero : Decimal).toRat = 0 := Decimal.toRat_eq_zero.mpr rfl
  have hlt : ∀ {x y : Decimal}, x.isFinite → y.isFinite →
      lt x y = .ok (decide (x.toRat < y.toRat)) := fun hx hy => Decimal.lt_finite hx hy
  simp only [checkSigns, hlt hzero hamount, hlt hqty hzero, hlt hamount hzero, hlt hzero hqty, hval,
    ok_bind]
  by_cases hup : 0 < amount.toRat
  · by_cases hneg : qty.toRat < 0
    · simp [hup, hneg, pure, Except.pure, bind, Except.bind]
    · simp [hup, hneg, pure, Except.pure, bind, Except.bind, not_lt.mpr hup.le]
  · by_cases hdown : amount.toRat < 0
    · by_cases hpos : 0 < qty.toRat
      · simp [hup, hdown, hpos, pure, Except.pure, bind, Except.bind]
      · simp [hup, hdown, hpos, pure, Except.pure, bind, Except.bind]
    · simp [hup, hdown, pure, Except.pure, bind, Except.bind]

theorem assertBalanced_eq_ok {ps : List (Posting Decimal)} :
    assertBalanced ps = .ok () ↔
      (∃ total, sum (ps.map (·.amount)) = .ok total ∧ eq total zero = .ok true) ∧
        checkAllSigns ps = .ok () := by
  simp only [assertBalanced, bind_eq_ok]
  constructor
  · rintro ⟨total, htotal, isZero, hzero, h⟩
    split_ifs at h with hz
    · exact ⟨⟨total, htotal, hz ▸ hzero⟩, h⟩
  · rintro ⟨⟨total, htotal, hzero⟩, h⟩
    exact ⟨total, htotal, true, hzero, h⟩

theorem sum_three {a b c total : Decimal} : sum [a, b, c] = .ok total ↔
    ∃ s₁ s₂, add zero a = .ok s₁ ∧ add s₁ b = .ok s₂ ∧ add s₂ c = .ok total := by
  simp only [sum, List.foldlM_cons, List.foldlM_nil, bind_eq_ok, pure_eq_ok]
  constructor
  · rintro ⟨s₁, h₁, s₂, h₂, s₃, h₃, h⟩
    cases h
    exact ⟨s₁, s₂, h₁, h₂, h₃⟩
  · rintro ⟨s₁, s₂, h₁, h₂, h₃⟩
    exact ⟨s₁, h₁, s₂, h₂, total, h₃, rfl⟩

/-- The legs add up to zero exactly when the net proceeds less the cost are the realized
profit. -/
theorem sum_legs_iff {closed net gain cost realized : Decimal} (hcost : cost.isFinite)
    (hfits : defaultContext.Fits cost.toRat) (hclosed : neg cost = .ok closed)
    (hnet : net.isFinite) (hrealized : realized.isFinite)
    (hrealizedFits : defaultContext.Fits realized.toRat) (hgain : neg realized = .ok gain) :
    (∃ total, sum [closed, net, gain] = .ok total ∧ eq total zero = .ok true) ↔
      ∃ x, sub net cost = .ok x ∧ x.toRat = realized.toRat := by
  have hval : (zero : Decimal).toRat = 0 := Decimal.toRat_eq_zero.mpr rfl
  obtain ⟨closed', hneg, hclosedFin, hclosedVal⟩ := Decimal.neg_of_fits hcost hfits
  cases hclosed.symm.trans hneg
  obtain ⟨gain', hneg, hgainFin, hgainVal⟩ := Decimal.neg_of_fits hrealized hrealizedFits
  cases hgain.symm.trans hneg
  have hfirst : defaultContext.Fits ((zero : Decimal).toRat + closed.toRat) := by
    rw [hval, zero_add, hclosedVal]
    exact hfits.neg
  obtain ⟨s₁, hs₁, hs₁Fin, hs₁Val⟩ := Decimal.add_of_fits (x := zero) rfl hclosedFin hfirst
  rw [hval, zero_add, hclosedVal] at hs₁Val
  have hsub : (sub net cost : Except PyError Decimal) =
      Decimal.add defaultContext net cost.copyNegate := Decimal.sub_finite hnet hcost
  have hnegFin : cost.copyNegate.isFinite := cost.copyNegate_isFinite.trans hcost
  have hsame : s₁.toRat + net.toRat = net.toRat + cost.copyNegate.toRat := by
    rw [hs₁Val, Decimal.toRat_copyNegate, add_comm]
  have hgainFits : defaultContext.Fits gain.toRat := hgainVal ▸ hrealizedFits.neg
  rw [hsub]
  constructor
  · rintro ⟨total, htotal, hzero⟩
    obtain ⟨s₁', s₂, h₁, h₂, h₃⟩ := sum_three.mp htotal
    cases hs₁.symm.trans h₁
    obtain ⟨hs₂Fin, hs₂Fits⟩ := Decimal.add_fits defaultContext_range hs₁Fin hnet h₂
    obtain ⟨x, hx, hxVal⟩ := Decimal.add_congr hs₁Fin hnet hnet hnegFin hsame h₂
    have htotalVal : total.toRat = 0 := by
      have heq := Decimal.eq_finite (Decimal.isFinite_of_eq_zero hzero) (y := zero) rfl
      simpa [hval] using heq.symm.trans hzero
    rw [Decimal.add_toRat_eq_zero defaultContext_range defaultContext_prec hs₂Fin hgainFin
      hs₂Fits hgainFits h₃] at htotalVal
    exact ⟨x, hx, by linarith⟩
  · rintro ⟨x, hx, hxVal⟩
    obtain ⟨s₂, h₂, hs₂Val⟩ := Decimal.add_congr hnet hnegFin hs₁Fin hnet hsame.symm hx
    obtain ⟨hs₂Fin, -⟩ := Decimal.add_fits defaultContext_range hs₁Fin hnet h₂
    have hsum : s₂.toRat + gain.toRat = 0 := by linarith
    obtain ⟨total, h₃, htotalFin, htotalVal⟩ :=
      Decimal.add_of_fits hs₂Fin hgainFin (hsum ▸ Context.fits_zero defaultContext_range)
    refine ⟨total, sum_three.mpr ⟨s₁, s₂, hs₁, h₂, h₃⟩, ?_⟩
    have heq := Decimal.eq_finite htotalFin (y := zero) rfl
    rw [htotalVal, hsum, hval, decide_eq_true rfl] at heq
    exact heq

/-- A sell with a finite cost of the format balances when its signs agree and the order of
the two subtractions does not matter. -/
theorem sellPostings_balanced_iff {sleeve symbol : String} {qty notional fees cost : Decimal}
    (hqty : 0 < qty.toRat) (hnotional : notional.isFinite) (hfees : fees.isFinite)
    (hcost : cost.isFinite) (hfits : defaultContext.Fits cost.toRat) :
    (∃ ps, sellPostings sleeve symbol qty notional fees cost = .ok ps ∧
        assertBalanced ps = .ok ()) ↔
      (∃ sold, neg qty = .ok sold ∧ (0 ≤ cost.toRat ∨ sold.toRat = 0)) ∧
        FeeAndCostCommute notional fees cost := by
  obtain ⟨closed, hclosed, hclosedFin, hclosedVal⟩ := Decimal.neg_of_fits hcost hfits
  have hsubFin : ∀ {x y z : Decimal}, x.isFinite → y.isFinite → sub x y = .ok z →
      z.isFinite ∧ defaultContext.Fits z.toRat := by
    intro x y z hx hy h
    rw [show (sub x y : Except PyError Decimal) = _ from Decimal.sub_finite hx hy] at h
    exact Decimal.add_fits defaultContext_range hx (y.copyNegate_isFinite.trans hy) h
  have hsigns : ∀ {sold net gain : Decimal}, neg qty = .ok sold →
      (checkAllSigns [⟨some sleeve, .position, closed, some symbol, some sold⟩,
        ⟨some sleeve, .cash, net, none, none⟩, ⟨some sleeve, .pnl, gain, none, none⟩] = .ok () ↔
        (0 ≤ cost.toRat ∨ sold.toRat = 0)) := by
    intro sold net gain hsold
    obtain ⟨hsoldFin, hsoldVal⟩ := Decimal.neg_of_pos defaultContext_range hqty hsold
    have hfirst : checkAllSigns [⟨some sleeve, .position, closed, some symbol, some sold⟩,
        ⟨some sleeve, .cash, net, none, none⟩, ⟨some sleeve, .pnl, gain, none, none⟩] =
        checkSigns ⟨some sleeve, .position, closed, some symbol, some sold⟩ :=
      bind_pure (checkSigns _)
    rw [hfirst, checkSigns_position hclosedFin hsoldFin, hclosedVal]
    constructor
    · rintro ⟨hup, -⟩
      by_cases hzero : sold.toRat = 0
      · exact .inr hzero
      · refine .inl (not_lt.mp fun hneg => hup ⟨by linarith, lt_of_le_of_ne hsoldVal hzero⟩)
    · rintro (hnonneg | hzero)
      · exact ⟨fun h => by linarith [h.1], fun h => by linarith [h.2]⟩
      · exact ⟨fun h => by linarith [h.2], fun h => by linarith [h.2]⟩
  constructor
  · rintro ⟨ps, hps, hbalanced⟩
    simp only [sellPostings, bind_eq_ok] at hps
    obtain ⟨gross, hgross, realized, hrealized, closed', hclosed', sold, hsold, net, hnet, gain,
      hgain, hps⟩ := hps
    cases hps
    cases (show neg cost = .ok closed from hclosed).symm.trans hclosed'
    obtain ⟨hsum, hchecked⟩ := assertBalanced_eq_ok.mp hbalanced
    obtain ⟨hrealizedFin, hrealizedFits⟩ := hsubFin (hsubFin hnotional hcost hgross).1 hfees hrealized
    obtain ⟨x, hx, hxVal⟩ := (sum_legs_iff hcost hfits hclosed' (hsubFin hnotional hfees hnet).1
      hrealizedFin hrealizedFits hgain).mp hsum
    refine ⟨⟨sold, hsold, (hsigns hsold).mp hchecked⟩, x, realized, ?_, ?_, hxVal⟩
    · rw [hnet, ok_bind, hx]
    · rw [hgross, ok_bind, hrealized]
  · rintro ⟨⟨sold, hsold, hsign⟩, x, realized, hnetSub, hgrossSub, hxVal⟩
    obtain ⟨net, hnet, hx⟩ := bind_eq_ok.mp hnetSub
    obtain ⟨gross, hgross, hrealized⟩ := bind_eq_ok.mp hgrossSub
    obtain ⟨hrealizedFin, hrealizedFits⟩ := hsubFin (hsubFin hnotional hcost hgross).1 hfees hrealized
    obtain ⟨gain, hgain, -, -⟩ := Decimal.neg_of_fits hrealizedFin hrealizedFits
    refine ⟨_, by simp only [sellPostings, hgross, hrealized, hsold, hnet, ok_bind,
      show neg cost = .ok closed from hclosed, show neg realized = .ok gain from hgain]; rfl, ?_⟩
    refine assertBalanced_eq_ok.mpr ⟨?_, (hsigns hsold).mpr hsign⟩
    exact (sum_legs_iff hcost hfits hclosed (hsubFin hnotional hfees hnet).1 hrealizedFin
      hrealizedFits hgain).mpr ⟨x, hx, hxVal⟩

theorem isFinite_of_sum {amounts : List Decimal} {start total : Decimal}
    (h : amounts.foldlM add start = .ok total) (htotal : total.isFinite) :
    start.isFinite ∧ ∀ x ∈ amounts, x.isFinite := by
  induction amounts generalizing start with
  | nil =>
    cases h
    exact ⟨htotal, by simp⟩
  | cons x xs ih =>
    rw [List.foldlM_cons, bind_eq_ok] at h
    obtain ⟨next, hadd, hrest⟩ := h
    obtain ⟨hnext, hxs⟩ := ih hrest
    obtain ⟨hstart, hx⟩ := Decimal.isFinite_of_add hadd hnext
    exact ⟨hstart, by simpa using ⟨hx, hxs⟩⟩

/-- Balanced legs have finite amounts. -/
theorem isFinite_of_balanced {ps : List (Posting Decimal)} (h : assertBalanced ps = .ok ()) :
    ∀ p ∈ ps, p.amount.isFinite := by
  obtain ⟨⟨total, htotal, hzero⟩, -⟩ := assertBalanced_eq_ok.mp h
  intro p hp
  exact (isFinite_of_sum htotal (Decimal.isFinite_of_eq_zero hzero)).2 _ (List.mem_map_of_mem hp)

theorem isFinite_of_sellPostings {sleeve symbol : String} {qty notional fees cost : Decimal}
    {ps : List (Posting Decimal)} (hps : sellPostings sleeve symbol qty notional fees cost = .ok ps)
    (h : assertBalanced ps = .ok ()) : cost.isFinite := by
  have hfinite := isFinite_of_balanced h
  simp only [sellPostings, bind_eq_ok] at hps
  obtain ⟨gross, -, realized, -, closed, hclosed, sold, -, net, -, gain, -, hps⟩ := hps
  cases hps
  exact Decimal.isFinite_of_neg hclosed (hfinite _ List.mem_cons_self)

/-! ## The enriched event -/

/-- The lots cover the quantity, nothing overflows, no cost is negative (unless the negated
quantity vanishes), and the order of the two subtractions does not matter. -/
def SellBooks (lots : List (Lot Decimal)) (qty price fees : Decimal) : Prop :=
  ∃ r notional sold, selectLotsFifo lots qty = .ok r ∧ mul qty price = .ok notional ∧
    neg qty = .ok sold ∧ r.closedCostBasis.isFinite ∧
    (0 ≤ r.closedCostBasis.toRat ∨ sold.toRat = 0) ∧
    FeeAndCostCommute notional fees r.closedCostBasis

section Enriched

variable {a : LedgerAppend} {lots : List (Lot Decimal)} {qty price fees : Decimal}

/-- The postings of the enriched event are those of a sell with the selected cost. -/
theorem buildPostings_enriched (hneeds : needsCostBasis a) (hsleeve : a.data.has "sleeve_id")
    (hsymbol : a.data.has "symbol") (hqty : decimalItem a.data "qty" = .ok qty)
    (hprice : decimalItem a.data "price" = .ok price) (hfees : feesOrZero a.data = .ok fees)
    (cost realized : Decimal) :
    ∃ sleeve symbol, buildPostings a.eventType
        ((a.data.set "cost_basis" (.str (text cost))).setDefault "realized_pnl"
          (.str (text realized))) =
      (mul qty price >>= fun notional => sellPostings sleeve symbol qty notional fees cost) := by
  simp only [needsCostBasis, Bool.and_eq_true, beq_iff_eq] at hneeds
  obtain ⟨⟨htype, hside⟩, -⟩ := hneeds
  obtain ⟨sleeve, hsleeve⟩ := Option.isSome_iff_exists.mp hsleeve
  obtain ⟨symbol, hsymbol⟩ := Option.isSome_iff_exists.mp hsymbol
  have hside : a.data.lookup "side" = some (.str "sell") := by
    unfold Payload.isText Payload.get at hside
    cases hs : a.data.lookup "side" with
    | none => simp [hs] at hside
    | some value =>
      cases value <;> simp_all
  generalize hdata : (a.data.set "cost_basis" (.str (text cost))).setDefault "realized_pnl"
    (.str (text realized)) = data
  have hkeep : ∀ key, key ≠ "cost_basis" → key ≠ "realized_pnl" →
      data.lookup key = a.data.lookup key := by
    intro key hbasis hpnl
    rw [← hdata, Payload.lookup_setDefault _ hpnl, Payload.lookup_set, if_neg hbasis]
  have hcost : data.lookup "cost_basis" = some (.str (text cost)) := by
    rw [← hdata, Payload.lookup_setDefault _ (by decide), Payload.lookup_set, if_pos rfl]
  have hnumber : ∀ {key : String} {x : Decimal}, key ≠ "cost_basis" → key ≠ "realized_pnl" →
      decimalItem a.data key = .ok x → number data key = .ok x := by
    intro key x hbasis hpnl h
    rw [← h]
    unfold number decimalItem Payload.item
    rw [hkeep key hbasis hpnl]
  have hfeesRead : numberOrZero data "fees" = .ok fees := by
    unfold numberOrZero Payload.has
    rw [hkeep "fees" (by decide) (by decide)]
    unfold feesOrZero Payload.has at hfees
    split_ifs at hfees ⊢
    · exact hnumber (by decide) (by decide) hfees
    · exact hfees
  have hcostRead : number data "cost_basis" = .ok cost := by
    simp [number, Payload.item, hcost, toNumber, ok_bind]
  refine ⟨sleeve.pyStr, symbol.pyStr, ?_⟩
  rw [htype]
  simp only [buildPostings, orderFilledPostings, Payload.text, Payload.item, Payload.has,
    hkeep "sleeve_id" (by decide) (by decide), hkeep "symbol" (by decide) (by decide),
    hkeep "side" (by decide) (by decide), hsleeve, hsymbol, hside,
    hnumber (by decide) (by decide) hqty, hnumber (by decide) (by decide) hprice, hfeesRead,
    hcostRead, hcost, ok_bind]
  rfl

theorem quarantineValueError_eq_ok {r : FifoResult Decimal} :
    quarantineValueError a qty (selectLotsFifo lots qty) = .ok r ↔
      selectLotsFifo lots qty = .ok r := by
  cases selectLotsFifo lots qty with
  | ok r' => rfl
  | error e => cases e <;> simp [quarantineValueError]

/-- The enriched event of a sell is accepted by the balance check exactly when the sell
books. -/
theorem enriched_sell_balances_iff (hneeds : needsCostBasis a) (hsleeve : a.data.has "sleeve_id")
    (hsymbol : a.data.has "symbol") (hqty : decimalItem a.data "qty" = .ok qty)
    (hprice : decimalItem a.data "price" = .ok price) (hfees : feesOrZero a.data = .ok fees)
    (hqtyPos : 0 < qty.toRat) (hpriceFin : price.isFinite) (hfeesFin : fees.isFinite) :
    (∃ enriched ps, enrichSellFill a lots = .ok enriched ∧
        buildPostings enriched.eventType enriched.data = .ok ps ∧
        assertBalanced (D := Decimal) ps = .ok ()) ↔
      SellBooks lots qty price fees := by
  have hqtyFin : qty.isFinite := by
    cases qty with
    | finite s c e => rfl
    | infinity s => exact absurd hqtyPos (lt_irrefl 0)
    | nan s g d => exact absurd hqtyPos (lt_irrefl 0)
  constructor
  · rintro ⟨enriched, ps, henrich, hbuild, hbalanced⟩
    rw [enrichSellFill, if_pos hneeds, bind_eq_ok] at henrich
    obtain ⟨data, hdata, henrich⟩ := henrich
    cases henrich
    simp only [enrichedData, bind_eq_ok, quarantineValueError_eq_ok] at hdata
    obtain ⟨qty', hqty', r, hr, price', hprice', fees', hfees', notional, hmul, gross, -, realized, -,
      hdata⟩ := hdata
    cases hqty.symm.trans hqty'
    cases hprice.symm.trans hprice'
    cases hfees.symm.trans hfees'
    cases hdata
    obtain ⟨sleeve, symbol, hpostings⟩ := buildPostings_enriched hneeds hsleeve hsymbol hqty hprice
      hfees r.closedCostBasis realized
    rw [hpostings, hmul, ok_bind] at hbuild
    have hcost := isFinite_of_sellPostings hbuild hbalanced
    obtain ⟨⟨sold, hsold, hsign⟩, hcommute⟩ := (sellPostings_balanced_iff hqtyPos
      (Decimal.mul_fits defaultContext_range hqtyFin hpriceFin hmul).1 hfeesFin hcost
      (selectLotsFifo_fits hr hcost)).mp ⟨ps, hbuild, hbalanced⟩
    exact ⟨r, notional, sold, hr, hmul, hsold, hcost, hsign, hcommute⟩
  · rintro ⟨r, notional, sold, hr, hmul, hsold, hcost, hsign, hcommute⟩
    obtain ⟨x, realized, hnet, hgross, hval⟩ := hcommute
    obtain ⟨gross, hgross, hrealized⟩ := bind_eq_ok.mp hgross
    obtain ⟨sleeve, symbol, hpostings⟩ := buildPostings_enriched hneeds hsleeve hsymbol hqty hprice
      hfees r.closedCostBasis realized
    have hbooks : ∃ ps, sellPostings sleeve symbol qty notional fees r.closedCostBasis = .ok ps ∧
        assertBalanced ps = .ok () := by
      refine (sellPostings_balanced_iff hqtyPos
        (Decimal.mul_fits defaultContext_range hqtyFin hpriceFin hmul).1 hfeesFin hcost
        (selectLotsFifo_fits hr hcost)).mpr ⟨⟨sold, hsold, hsign⟩, x, realized, hnet, ?_, hval⟩
      rw [hgross, ok_bind, hrealized]
    obtain ⟨ps, hps, hbalanced⟩ := hbooks
    have hdata : enrichedData a lots =
        .ok ((a.data.set "cost_basis" (.str (text r.closedCostBasis))).setDefault "realized_pnl"
          (.str (text realized))) := by
      simp only [enrichedData, hqty, hprice, hfees, quarantineValueError_eq_ok.mpr hr, hmul, hgross,
        hrealized, ok_bind]
      rfl
    rw [enrichSellFill, if_pos hneeds, hdata, ok_bind]
    refine ⟨_, ps, rfl, ?_, hbalanced⟩
    dsimp only
    rw [hpostings, hmul, ok_bind, hps]

end Enriched

/-- A sell fill without a cost basis. -/
def basislessSell (qty price fees : String) : LedgerAppend where
  tenantId := 1
  accountId := 2
  sleeveId := some 5
  eventType := .orderFilled
  data := [("sleeve_id", .str (UUID.text 5)), ("symbol", .str "SPY"),
    ("side", .str "sell"), ("qty", .str qty), ("price", .str price),
    ("client_order_id", .str "s1"), ("fees", .str fees)]
  eventId := 9
  occurredAt := none

theorem enriched_sell_balances_partOfLot :
    SellBooks [⟨.finite false 10 0, .finite false 100 0, 1⟩] (.finite false 4 0)
        (.finite false 12 0) (.finite false 1 0) ∧
      ∃ enriched ps, enrichSellFill (D := Decimal) (basislessSell "4" "12" "1")
          [⟨.finite false 10 0, .finite false 100 0, 1⟩] = .ok enriched ∧
        buildPostings enriched.eventType enriched.data = .ok ps ∧
        assertBalanced (D := Decimal) ps = .ok () := by
  have hbooks : SellBooks [⟨.finite false 10 0, .finite false 100 0, 1⟩] (.finite false 4 0)
      (.finite false 12 0) (.finite false 1 0) := by
    refine ⟨⟨.finite false 40 0, .finite false 4 0, _⟩, .finite false 48 0, .finite true 4 0, by rfl,
      by rfl, by rfl, by rfl, .inl (by decide +kernel), .finite false 7 0, .finite false 7 0, by rfl,
      by rfl, rfl⟩
  refine ⟨hbooks, (enriched_sell_balances_iff ?_ ?_ ?_ ?_ ?_ ?_ ?_ rfl rfl).mpr hbooks⟩
  all_goals decide +kernel

/-- A third of a lot that cost 10000, sold for 103333.34 with a fee of 1: the profit loses a
digit that the cash keeps, and the balance check refuses the sell. -/
theorem third_of_lot_unbalanced :
    (selectLotsFifo (D := Decimal) [⟨.finite false 3 0, .finite false 10000 0, 1⟩]
        (.finite false 1 0)).isOk = true ∧
      (do
        let enriched ← enrichSellFill (D := Decimal) (basislessSell "1" "103333.34" "1")
          [⟨.finite false 3 0, .finite false 10000 0, 1⟩]
        let postings : List (Posting Decimal) ← buildPostings enriched.eventType enriched.data
        assertBalanced postings) = .error (unbalanced "postings sum to -3E-23, expected 0") := by
  refine ⟨by decide, by decide⟩

end LlamaTrade
