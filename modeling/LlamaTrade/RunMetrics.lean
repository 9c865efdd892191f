import LlamaTrade.CalendarDates
import LlamaTrade.LastOfRuns
import Mathlib.Algebra.BigOperators.Group.List.Basic
import Mathlib.Algebra.Order.Field.Rat
import Mathlib.Data.List.Induction
import Mathlib.Data.List.Sort
import Mathlib.Tactic.FieldSimp
import Mathlib.Tactic.Linarith
import Mathlib.Tactic.Ring

/-!
# Metrics of a run

The returns and the drawdown of a run (`llamatrade_runtime/metrics.py`, `result.py`) are computed
from the last equity of each day. Numbers are exact, and the ratios that take roots or powers are
left out.
-/

namespace LlamaTrade

open LastOfRuns

/-! ## The curve -/

/-- `datetime`. -/
structure Moment where
  date : CalendarDate
  micros : ℕ
  deriving DecidableEq

def Moment.Le (a b : Moment) : Prop := a.date < b.date ∨ a.date = b.date ∧ a.micros ≤ b.micros

instance (a b : Moment) : Decidable (a.Le b) := inferInstanceAs (Decidable (_ ∨ _))

abbrev EquityCurve := List (Moment × ℚ)

def EquityCurve.equities (curve : EquityCurve) : List ℚ := curve.map Prod.snd

/-- The curve goes forward in time. -/
def EquityCurve.Chronological (curve : EquityCurve) : Prop := curve.Pairwise fun a b => a.1.Le b.1

def pointDate (point : Moment × ℚ) : CalendarDate := point.1.date

/-- `strftime("%Y-%m")`. -/
def pointMonth (point : Moment × ℚ) : ℕ × ℕ := (point.1.date.year, point.1.date.month)

def MonthLe (a b : ℕ × ℕ) : Prop := a.1 < b.1 ∨ a.1 = b.1 ∧ a.2 ≤ b.2

instance (a b : ℕ × ℕ) : Decidable (MonthLe a b) := inferInstanceAs (Decidable (_ ∨ _))

/-- `resample_daily`. -/
def resampleDaily (curve : EquityCurve) : EquityCurve := curve.foldl (keep pointDate) []

/-- `_to_daily` of the portfolio's strategy performance. -/
def toDaily (series : EquityCurve) : List (CalendarDate × ℚ) :=
  ((series.foldl (setLatest pointDate fun previous point => previous.1.Le point.1) []).insertionSort
    fun a b => pointDate a ≤ pointDate b).map fun point => (pointDate point, point.2)

/-! ## Returns -/

/-- A return, zero where the base is not positive. -/
def returnOn (base value : ℚ) : ℚ := if 0 < base then (value - base) / base else 0

/-- The loop over the ends of the months. -/
def monthReturns (previous : ℚ) : EquityCurve → List ((ℕ × ℕ) × ℚ)
  | [] => []
  | point :: rest => (pointMonth point, returnOn previous point.2) :: monthReturns point.2 rest

/-- `calculate_monthly_returns`; of the points of a month the last one is read. -/
def calculateMonthlyReturns (curve : EquityCurve) (initialCapital : ℚ) : List ((ℕ × ℕ) × ℚ) :=
  monthReturns initialCapital <|
    (curve.foldl (setLatest pointMonth fun _ _ => true) []).insertionSort
      fun a b => MonthLe (pointMonth a) (pointMonth b)

/-- The daily returns of `calculate_returns`. -/
def dailyReturns : List ℚ → List ℚ
  | base :: value :: rest => returnOn base value :: dailyReturns (value :: rest)
  | _ => []

/-- The total return of `calculate_returns`. -/
def totalReturn (equity : List ℚ) (initialCapital : ℚ) : ℚ :=
  equity.getLast?.elim 0 (returnOn initialCapital)

/-! ## Drawdown -/

/-- The drawdowns below the running peak. -/
def drawdownsFrom (peak : ℚ) : List ℚ → List ℚ
  | [] => []
  | e :: rest =>
    (if 0 < max peak e then (max peak e - e) / max peak e else 0) :: drawdownsFrom (max peak e) rest

def drawdowns : List ℚ → List ℚ
  | [] => []
  | e :: rest => drawdownsFrom e (e :: rest)

/-- `np.max`, and zero of nothing. -/
def greatest : List ℚ → ℚ
  | [] => 0
  | x :: rest => rest.foldl max x

/-- One round of the loop for the duration: the longest run and the current one. -/
def countRun (s : ℕ × ℕ) (drawdown : ℚ) : ℕ × ℕ :=
  if 0 < drawdown then (max s.1 (s.2 + 1), s.2 + 1) else (s.1, 0)

/-- `calculate_max_drawdown`. -/
def calculateMaxDrawdown (equity : List ℚ) : ℚ × ℕ :=
  (greatest (drawdowns equity), ((drawdowns equity).foldl countRun (0, 0)).1)

/-- `RunResult`, in part. -/
structure RunMetrics where
  dailyEquityCurve : EquityCurve
  finalEquity : ℚ
  totalReturn : ℚ
  dailyReturns : List ℚ
  monthlyReturns : List ((ℕ × ℕ) × ℚ)
  maxDrawdown : ℚ
  maxDrawdownDuration : ℕ

/-- `assemble_result`. -/
def assembleResult (initialCapital : ℚ) (equityCurve : EquityCurve) : RunMetrics :=
  if equityCurve.isEmpty then ⟨[], initialCapital, 0, [], [], 0, 0⟩
  else
    let dailyCurve := resampleDaily equityCurve
    let dailyEquities := dailyCurve.equities
    let drawdown := calculateMaxDrawdown dailyEquities
    { dailyEquityCurve := dailyCurve
      finalEquity := dailyEquities.getLast?.getD initialCapital
      totalReturn := totalReturn dailyEquities initialCapital
      dailyReturns := dailyReturns dailyEquities
      monthlyReturns := calculateMonthlyReturns dailyCurve initialCapital
      maxDrawdown := drawdown.1
      maxDrawdownDuration := drawdown.2 }

/-! ## Days and months -/

section Days

variable {curve : EquityCurve}

theorem CalendarDate.le_antisymm {a b : CalendarDate} (hab : a ≤ b) (hba : b ≤ a) : a = b := by
  rcases hab with hab | rfl
  · rcases hba with hba | rfl
    · have h := CalendarDate.ordinal_lt_of_lt hab
      have h' := CalendarDate.ordinal_lt_of_lt hba
      omega
    · rfl
  · rfl

theorem CalendarDate.le_trans {a b c : CalendarDate} (hab : a ≤ b) (hbc : b ≤ c) : a ≤ c := by
  rcases hab with hab | rfl
  · rcases hbc with hbc | rfl
    · have hab' : a.year < b.year ∨ a.year = b.year ∧
          (a.month < b.month ∨ a.month = b.month ∧ a.day < b.day) := hab
      have hbc' : b.year < c.year ∨ b.year = c.year ∧
          (b.month < c.month ∨ b.month = c.month ∧ b.day < c.day) := hbc
      have hac : a.year < c.year ∨ a.year = c.year ∧
          (a.month < c.month ∨ a.month = c.month ∧ a.day < c.day) := by omega
      exact Or.inl hac
    · exact Or.inl hab
  · exact hbc

theorem MonthLe.antisymm {a b : ℕ × ℕ} (hab : MonthLe a b) (hba : MonthLe b a) : a = b := by
  simp only [MonthLe] at hab hba
  exact Prod.ext (by omega) (by omega)

theorem MonthLe.trans {a b c : ℕ × ℕ} (hab : MonthLe a b) (hbc : MonthLe b c) : MonthLe a c := by
  simp only [MonthLe] at hab hbc ⊢
  omega

theorem date_le_of_le {a b : Moment × ℚ} (h : a.1.Le b.1) : pointDate a ≤ pointDate b := by
  rcases h with hlt | ⟨heq, -⟩
  · exact Or.inl hlt
  · exact Or.inr heq

theorem month_le_of_le {a b : Moment × ℚ} (h : a.1.Le b.1) :
    MonthLe (pointMonth a) (pointMonth b) :=
  CalendarDate.year_month_of_le (date_le_of_le h)

theorem resampleDaily_eq (curve : EquityCurve) : resampleDaily curve = lastOfRuns pointDate curve :=
  foldl_keep pointDate curve

/-- The points of the days are in order, and a day has one. -/
theorem resampleDaily_dates (hcurve : curve.Chronological) :
    (resampleDaily curve).Pairwise fun a b =>
      pointDate a ≤ pointDate b ∧ pointDate a ≠ pointDate b := by
  rw [resampleDaily_eq]
  refine List.Pairwise.and ?_ (lastOfRuns_pairwise_ne
    (fun a b => CalendarDate.le_antisymm) (hcurve.imp date_le_of_le))
  exact (hcurve.imp date_le_of_le).sublist (lastOfRuns_sublist pointDate curve)

/-- The two ways to the last point of each day agree. -/
theorem toDaily_eq_resampleDaily (hcurve : curve.Chronological) :
    toDaily curve = (resampleDaily curve).map fun point => (pointDate point, point.2) := by
  have htable : curve.foldl (setLatest pointDate fun previous point => previous.1.Le point.1) [] =
      resampleDaily curve := by
    rw [resampleDaily_eq]
    refine foldl_setLatest (fun a b => CalendarDate.le_antisymm)
      (fun a b c => CalendarDate.le_trans) (hcurve.imp date_le_of_le) (hcurve.imp fun h _ => ?_)
    exact decide_eq_true h
  rw [toDaily, htable, List.Pairwise.insertionSort_eq]
  exact (resampleDaily_dates hcurve).imp And.left

/-- The ends of the months. -/
theorem monthEnds_eq (hcurve : curve.Chronological) :
    (curve.foldl (setLatest pointMonth fun _ _ => true) []).insertionSort
        (fun a b => MonthLe (pointMonth a) (pointMonth b)) = lastOfRuns pointMonth curve := by
  have hsorted : curve.Pairwise fun a b => MonthLe (pointMonth a) (pointMonth b) :=
    hcurve.imp month_le_of_le
  rw [foldl_setLatest (fun a b => MonthLe.antisymm) (fun a b c => MonthLe.trans) hsorted
    (hcurve.imp fun _ _ => rfl)]
  exact List.Pairwise.insertionSort_eq (hsorted.sublist (lastOfRuns_sublist pointMonth curve))

end Days

/-! ## Compounding -/

section Returns

variable {curve : EquityCurve} {capital : ℚ}

theorem mul_returnOn {base value : ℚ} (hbase : 0 < base) :
    base * (1 + returnOn base value) = value := by
  rw [returnOn, if_pos hbase]
  field_simp
  ring

/-- Compounding the returns of the months leads to the last end of a month. -/
theorem mul_prod_monthReturns {previous : ℚ} {ends : EquityCurve} (hprevious : 0 < previous)
    (hends : ∀ point ∈ ends, 0 < point.2) :
    previous * ((monthReturns previous ends).map fun month => 1 + month.2).prod =
      ends.getLast?.elim previous Prod.snd := by
  induction ends generalizing previous with
  | nil => simp [monthReturns]
  | cons point ends ih =>
    obtain ⟨hpoint, hends⟩ := List.forall_mem_cons.mp hends
    rw [monthReturns, List.map_cons, List.prod_cons, ← mul_assoc, mul_returnOn hprevious,
      ih hpoint hends]
    cases ends with
    | nil => rfl
    | cons next ends =>
      rw [List.getLast?_cons_cons, List.getLast?_eq_some_getLast (List.cons_ne_nil next ends)]
      rfl

theorem mul_prod_dailyReturns {e : ℚ} {rest : List ℚ} (h : ∀ x ∈ e :: rest, 0 < x) :
    e * ((dailyReturns (e :: rest)).map (1 + ·)).prod = (e :: rest).getLast?.getD 0 := by
  induction rest generalizing e with
  | nil => simp [dailyReturns]
  | cons value rest ih =>
    obtain ⟨he, hrest⟩ := List.forall_mem_cons.mp h
    rw [dailyReturns, List.map_cons, List.prod_cons, ← mul_assoc, mul_returnOn he, ih hrest,
      List.getLast?_cons_cons]

theorem monthReturns_months (previous : ℚ) (ends : EquityCurve) :
    (monthReturns previous ends).map Prod.fst = ends.map pointMonth := by
  induction ends generalizing previous with
  | nil => rfl
  | cons point ends ih => rw [monthReturns, List.map_cons, List.map_cons, ih]

theorem resampleDaily_sublist (curve : EquityCurve) : (resampleDaily curve).Sublist curve := by
  rw [resampleDaily_eq]
  exact lastOfRuns_sublist pointDate curve

theorem getLast?_resampleDaily (curve : EquityCurve) :
    (resampleDaily curve).getLast? = curve.getLast? := by
  rw [resampleDaily_eq]
  exact getLast?_lastOfRuns pointDate curve

end Returns

/-! ## The greatest drawdown -/

section Drawdown

variable {peak a b : ℚ} {equity : List ℚ}

theorem greatest_spec (x : ℚ) (rest : List ℚ) :
    greatest (x :: rest) ∈ x :: rest ∧ ∀ y ∈ x :: rest, y ≤ greatest (x :: rest) := by
  induction rest generalizing x with
  | nil => simp [greatest]
  | cons y rest ih =>
    obtain ⟨hmem, hle⟩ := ih (max x y)
    rw [show greatest (x :: y :: rest) = greatest (max x y :: rest) from rfl]
    refine ⟨?_, fun z hz => ?_⟩
    · rcases List.mem_cons.mp hmem with heq | hmem
      · rw [heq]
        rcases max_choice x y with h | h
        · rw [h]
          exact List.mem_cons_self ..
        · rw [h]
          exact List.mem_cons_of_mem _ (List.mem_cons_self ..)
      · exact List.mem_cons_of_mem _ (List.mem_cons_of_mem _ hmem)
    · have htop := hle (max x y) (List.mem_cons_self ..)
      rcases List.mem_cons.mp hz with rfl | hz
      · exact (le_max_left _ _).trans htop
      · rcases List.mem_cons.mp hz with rfl | hz
        · exact (le_max_right _ _).trans htop
        · exact hle z (List.mem_cons_of_mem _ hz)

/-- A fall to an equity that is not negative is deeper from a higher peak. -/
theorem fall_mono {p q : ℚ} (hp : 0 < p) (hpq : p ≤ q) (hb : 0 ≤ b) :
    (p - b) / p ≤ (q - b) / q := by
  have hq : 0 < q := hp.trans_le hpq
  rw [sub_div, sub_div, div_self hp.ne', div_self hq.ne']
  have hdiv : b / q ≤ b / p := div_le_div_of_nonneg_left hb hp hpq
  linarith

/-- A later equity is a drawdown of at least its fall from the peak. -/
theorem exists_drawdown_of_mem (hpeak : 0 < peak) (hb : 0 ≤ b) (hmem : b ∈ equity) :
    ∃ d ∈ drawdownsFrom peak equity, (peak - b) / peak ≤ d := by
  induction equity generalizing peak with
  | nil => cases hmem
  | cons e rest ih =>
    have hmax : 0 < max peak e := hpeak.trans_le (le_max_left _ _)
    rcases List.mem_cons.mp hmem with rfl | hmem
    · refine ⟨_, List.mem_cons_self .., ?_⟩
      rw [if_pos hmax]
      exact fall_mono hpeak (le_max_left _ _) hb
    · obtain ⟨d, hd, hle⟩ := ih hmax hmem
      exact ⟨d, List.mem_cons_of_mem _ hd, (fall_mono hpeak (le_max_left _ _) hb).trans hle⟩

/-- The fall from one equity to a later one. -/
theorem exists_drawdown_of_pair (ha : 0 < a) (hb : 0 ≤ b) (hpair : [a, b].Sublist equity) :
    ∃ d ∈ drawdownsFrom peak equity, (a - b) / a ≤ d := by
  induction equity generalizing peak with
  | nil => cases hpair
  | cons e rest ih =>
    rcases List.sublist_cons_iff.mp hpair with hpair | ⟨l, heq, hl⟩
    · obtain ⟨d, hd, hle⟩ := @ih (max peak e) hpair
      exact ⟨d, List.mem_cons_of_mem _ hd, hle⟩
    · cases heq
      have hmem : b ∈ rest := hl.subset (List.mem_singleton_self b)
      have hmax : 0 < max peak a := ha.trans_le (le_max_right _ _)
      obtain ⟨d, hd, hle⟩ := exists_drawdown_of_mem hmax hb hmem
      exact ⟨d, List.mem_cons_of_mem _ hd, (fall_mono ha (le_max_right _ _) hb).trans hle⟩

/-- Each drawdown is zero or a fall from the first peak or from an equity before. -/
theorem fall_of_mem_drawdownsFrom {d : ℚ} (hd : d ∈ drawdownsFrom peak equity) :
    d = 0 ∨ ∃ p b, 0 < p ∧ d = (p - b) / p ∧ b ∈ equity ∧ (p = peak ∨ [p, b].Sublist equity) := by
  induction equity generalizing peak with
  | nil => cases hd
  | cons e rest ih =>
    rcases List.mem_cons.mp hd with rfl | hd
    · by_cases hmax : 0 < max peak e
      · rw [if_pos hmax]
        rcases max_choice peak e with h | h
        · exact Or.inr ⟨_, e, hmax, rfl, List.mem_cons_self .., Or.inl h⟩
        · rw [h, sub_self, zero_div]
          exact Or.inl rfl
      · exact Or.inl (if_neg hmax)
    · rcases ih hd with rfl | ⟨p, b, hp, hd, hb, hsource⟩
      · exact Or.inl rfl
      · refine Or.inr ⟨p, b, hp, hd, List.mem_cons_of_mem _ hb, ?_⟩
        rcases hsource with rfl | hpair
        · rcases max_choice peak e with h | h
          · exact Or.inl h
          · right
            rw [h]
            exact (List.singleton_sublist.mpr hb).cons_cons e
        · exact Or.inr (hpair.cons e)

/-- What a greatest drawdown is: no fall from an equity to a later one is deeper, and it is one of
them, if it is not zero. -/
structure GreatestFall (equity : List ℚ) (d : ℚ) : Prop where
  nonneg : 0 ≤ d
  above : ∀ a b, [a, b].Sublist equity → 0 < a → 0 ≤ b → (a - b) / a ≤ d
  reached : d = 0 ∨ ∃ a b, [a, b].Sublist equity ∧ 0 < a ∧ d = (a - b) / a

theorem greatestFall_calculateMaxDrawdown (equity : List ℚ) :
    GreatestFall equity (calculateMaxDrawdown equity).1 := by
  show GreatestFall equity (greatest (drawdowns equity))
  cases equity with
  | nil =>
    refine ⟨le_rfl, fun a b hpair => ?_, Or.inl rfl⟩
    cases hpair
  | cons e rest =>
    have hdrawdowns : drawdowns (e :: rest) = drawdownsFrom e (e :: rest) := rfl
    obtain ⟨hmem, hle⟩ := greatest_spec
      (if 0 < max e e then (max e e - e) / max e e else 0) (drawdownsFrom (max e e) rest)
    rw [← drawdownsFrom, ← hdrawdowns] at hmem hle
    refine ⟨?_, fun a b hpair ha hb => ?_, ?_⟩
    · refine le_trans ?_ (hle _ (List.mem_cons_self ..))
      rw [max_self, sub_self, zero_div, ite_self]
    · obtain ⟨d, hd, hfall⟩ := @exists_drawdown_of_pair e a b (e :: rest) ha hb hpair
      exact hfall.trans (hle d hd)
    · rcases fall_of_mem_drawdownsFrom hmem with hzero | ⟨p, b, hp, hd, hb, rfl | hpair⟩
      · exact Or.inl hzero
      · rcases List.mem_cons.mp hb with rfl | hb
        · rw [sub_self, zero_div] at hd
          exact Or.inl hd
        · exact Or.inr ⟨p, b, (List.singleton_sublist.mpr hb).cons_cons p, hp, hd⟩
      · exact Or.inr ⟨p, b, hpair, hp, hd⟩

/-- Fewer points show no deeper fall. -/
theorem GreatestFall.mono {fewer : List ℚ} {d d' : ℚ} (h : GreatestFall fewer d)
    (h' : GreatestFall equity d') (hsublist : fewer.Sublist equity) (hequity : ∀ e ∈ fewer, 0 ≤ e) :
    d ≤ d' := by
  rcases h.reached with rfl | ⟨a, b, hpair, ha, rfl⟩
  · exact h'.nonneg
  · exact h'.above a b (hpair.trans hsublist) ha (hequity b (hpair.subset (by simp)))

end Drawdown

/-! ## The longest drawdown -/

section Duration

variable {peak : ℚ}

/-- The longest run and the current one after a loop over some drawdowns. -/
structure CountedRuns (drawdowns : List ℚ) (s : ℕ × ℕ) : Prop where
  longest : ∀ before run after, drawdowns = before ++ run ++ after → (∀ d ∈ run, 0 < d) →
    run.length ≤ s.1
  reached : ∃ before run after, drawdowns = before ++ run ++ after ∧ (∀ d ∈ run, 0 < d) ∧
    run.length = s.1
  suffix : ∀ before run, drawdowns = before ++ run → (∀ d ∈ run, 0 < d) → run.length ≤ s.2
  current : ∃ before run, drawdowns = before ++ run ∧ (∀ d ∈ run, 0 < d) ∧ run.length = s.2

theorem CountedRuns.step {drawdowns : List ℚ} {s : ℕ × ℕ} (h : CountedRuns drawdowns s) (d : ℚ) :
    CountedRuns (drawdowns ++ [d]) (countRun s d) := by
  obtain ⟨current, run, hcurrent, hrun, hlength⟩ := h.current
  obtain ⟨before, top, after, htop, hpos, hreached⟩ := h.reached
  have hsuffix : ∀ before run, drawdowns ++ [d] = before ++ run → (∀ x ∈ run, 0 < x) →
      run = [] ∨ 0 < d ∧ run.length ≤ s.2 + 1 := by
    intro before run heq hpositive
    rcases List.eq_nil_or_concat run with rfl | ⟨run, x, rfl⟩
    · exact Or.inl rfl
    · rw [List.concat_eq_append, ← List.append_assoc] at heq
      obtain ⟨hinit, hx⟩ := List.append_inj' heq rfl
      obtain rfl := List.singleton_injective hx
      rw [List.concat_eq_append] at hpositive ⊢
      refine Or.inr ⟨hpositive d (by simp), ?_⟩
      rw [List.length_append, List.length_singleton]
      exact Nat.succ_le_succ (h.suffix _ _ hinit fun y hy => hpositive y (by simp [hy]))
  have hinner : ∀ before run after, drawdowns ++ [d] = before ++ run ++ after →
      (∀ x ∈ run, 0 < x) → run.length ≤ s.1 ∨ 0 < d ∧ run.length ≤ s.2 + 1 := by
    intro before run after heq hpositive
    rcases List.eq_nil_or_concat after with rfl | ⟨after, x, rfl⟩
    · rw [List.append_nil] at heq
      rcases hsuffix before run heq hpositive with rfl | hlong
      · exact Or.inl (Nat.zero_le _)
      · exact Or.inr hlong
    · rw [List.concat_eq_append, ← List.append_assoc] at heq
      exact Or.inl (h.longest before run after (List.append_inj' heq rfl).1 hpositive)
  unfold countRun
  split_ifs with hd
  · have hgrown : ∃ before run, drawdowns ++ [d] = before ++ run ∧ (∀ x ∈ run, 0 < x) ∧
        run.length = s.2 + 1 := by
      refine ⟨current, run ++ [d], by rw [hcurrent, List.append_assoc], ?_, by simp [hlength]⟩
      intro x hx
      rcases List.mem_append.mp hx with hx | hx
      · exact hrun x hx
      · exact List.mem_singleton.mp hx ▸ hd
    refine ⟨fun before run after heq hpositive => ?_, ?_, fun before run heq hpositive => ?_,
      hgrown⟩
    · rcases hinner before run after heq hpositive with hold | ⟨-, hnew⟩
      · exact hold.trans (le_max_left _ _)
      · exact hnew.trans (le_max_right _ _)
    · rcases max_choice s.1 (s.2 + 1) with hmax | hmax
      · exact ⟨before, top, after ++ [d], by rw [htop]; simp, hpos, hreached.trans hmax.symm⟩
      · obtain ⟨before', run', heq, hpositive, hlength'⟩ := hgrown
        exact ⟨before', run', [], by rw [heq, List.append_nil], hpositive, hlength'.trans hmax.symm⟩
    · rcases hsuffix before run heq hpositive with rfl | ⟨-, hlong⟩
      · exact Nat.zero_le _
      · exact hlong
  · refine ⟨fun before run after heq hpositive => ?_, ?_, fun before run heq hpositive => ?_, ?_⟩
    · rcases hinner before run after heq hpositive with hold | ⟨hpos, -⟩
      · exact hold
      · exact absurd hpos hd
    · exact ⟨before, top, after ++ [d], by rw [htop]; simp, hpos, hreached⟩
    · rcases hsuffix before run heq hpositive with rfl | ⟨hpos, -⟩
      · exact le_rfl
      · exact absurd hpos hd
    · exact ⟨drawdowns ++ [d], [], by simp, by simp, rfl⟩

theorem countedRuns (drawdowns : List ℚ) :
    CountedRuns drawdowns (drawdowns.foldl countRun (0, 0)) := by
  induction drawdowns using List.reverseRecOn with
  | nil =>
    refine ⟨fun before run after heq _ => ?_, ⟨[], [], [], rfl, by simp, rfl⟩,
      fun before run heq _ => ?_, ⟨[], [], rfl, by simp, rfl⟩⟩
    · have hlength := congrArg List.length heq
      simp only [List.length_nil, List.length_append] at hlength
      omega
    · have hlength := congrArg List.length heq
      simp only [List.length_nil, List.length_append] at hlength
      omega
  | append_singleton l d ih =>
    rw [List.foldl_append]
    exact ih.step d

theorem drawdownsFrom_append (before rest : List ℚ) : drawdownsFrom peak (before ++ rest) =
    drawdownsFrom peak before ++ drawdownsFrom (before.foldl max peak) rest := by
  induction before generalizing peak with
  | nil => rfl
  | cons e before ih => rw [List.cons_append, drawdownsFrom, ih, drawdownsFrom]; rfl

theorem length_drawdownsFrom (equity : List ℚ) :
    (drawdownsFrom peak equity).length = equity.length := by
  induction equity generalizing peak with
  | nil => rfl
  | cons e rest ih => rw [drawdownsFrom, List.length_cons, ih, List.length_cons]

/-- The drawdowns of a stretch are positive where it stays below the peak. -/
theorem drawdownsFrom_pos_iff {stretch : List ℚ} (hne : stretch ≠ []) :
    (∀ d ∈ drawdownsFrom peak stretch, 0 < d) ↔ 0 < peak ∧ ∀ e ∈ stretch, e < peak := by
  induction stretch with
  | nil => exact absurd rfl hne
  | cons e rest ih =>
    have hfirst : 0 < (if 0 < max peak e then (max peak e - e) / max peak e else 0) ↔
        0 < peak ∧ e < peak := by
      constructor
      · intro h
        split_ifs at h with hmax
        · have hlt : e < max peak e := sub_pos.mp (pos_of_mul_pos_left
            (div_eq_mul_inv _ (max peak e) ▸ h) (inv_nonneg.mpr hmax.le))
          have hpeak : e < peak := (lt_max_iff.mp hlt).resolve_right (lt_irrefl e)
          rw [max_eq_left hpeak.le] at hmax
          exact ⟨hmax, hpeak⟩
        · exact absurd h (lt_irrefl 0)
      · rintro ⟨hpeak, he⟩
        rw [max_eq_left he.le, if_pos hpeak]
        exact div_pos (sub_pos.mpr he) hpeak
    rw [drawdownsFrom, List.forall_mem_cons, hfirst, List.forall_mem_cons]
    constructor
    · rintro ⟨⟨hpeak, he⟩, hrest⟩
      refine ⟨hpeak, he, ?_⟩
      rw [max_eq_left he.le] at hrest
      cases rest with
      | nil => simp
      | cons x rest => exact ((ih (List.cons_ne_nil x rest)).mp hrest).2
    · rintro ⟨hpeak, he, hrest⟩
      refine ⟨⟨hpeak, he⟩, ?_⟩
      rw [max_eq_left he.le]
      cases rest with
      | nil => simp [drawdownsFrom]
      | cons x rest => exact (ih (List.cons_ne_nil x rest)).mpr ⟨hpeak, hrest⟩

/-- A stretch of points below an equity before them. -/
def Submerged (before stretch : List ℚ) : Prop := ∃ top ∈ before, 0 < top ∧ ∀ e ∈ stretch, e < top

/-- The length of the longest stretch below an earlier equity. -/
structure LongestStretch (equity : List ℚ) (n : ℕ) : Prop where
  above : ∀ before stretch after, equity = before ++ stretch ++ after → Submerged before stretch →
    stretch.length ≤ n
  reached : n = 0 ∨ ∃ before stretch after, equity = before ++ stretch ++ after ∧
    Submerged before stretch ∧ stretch.length = n

theorem longestStretch_calculateMaxDrawdown (equity : List ℚ) :
    LongestStretch equity (calculateMaxDrawdown equity).2 := by
  show LongestStretch equity ((drawdowns equity).foldl countRun (0, 0)).1
  have hcounted := countedRuns (drawdowns equity)
  cases equity with
  | nil =>
    refine ⟨fun before stretch after heq _ => ?_, Or.inl rfl⟩
    have hlength := congrArg List.length heq
    simp only [List.length_nil, List.length_append] at hlength
    omega
  | cons e rest =>
    have hdrawdowns : drawdowns (e :: rest) = drawdownsFrom e (e :: rest) := rfl
    have hsplit : ∀ before stretch after : List ℚ, e :: rest = before ++ stretch ++ after →
        drawdowns (e :: rest) = drawdownsFrom e before ++
          drawdownsFrom (greatest (e :: before)) stretch ++
            drawdownsFrom ((before ++ stretch).foldl max e) after := by
      intro before stretch after heq
      rw [hdrawdowns, heq, drawdownsFrom_append, drawdownsFrom_append]
      rfl
    refine ⟨fun before stretch after heq hsub => ?_, ?_⟩
    · obtain ⟨top, htop, hpos, hbelow⟩ := hsub
      by_cases hne : stretch = []
      · rw [hne]
        exact Nat.zero_le _
      · have hle := (greatest_spec e before).2 top (List.mem_cons_of_mem _ htop)
        have hrun := hcounted.longest _ _ _ (hsplit before stretch after heq)
          ((drawdownsFrom_pos_iff hne).mpr
            ⟨hpos.trans_le hle, fun x hx => (hbelow x hx).trans_le hle⟩)
        rwa [length_drawdownsFrom] at hrun
    · obtain ⟨head, run, tail, heq, hrun, hlength⟩ := hcounted.reached
      by_cases hzero : run = []
      · left
        rw [← hlength, hzero, List.length_nil]
      right
      have htotal : head.length + run.length + tail.length = (e :: rest).length := by
        rw [← length_drawdownsFrom (e :: rest), ← hdrawdowns, heq]
        simp only [List.length_append]
      have hparts : e :: rest = (e :: rest).take head.length ++
          ((e :: rest).drop head.length).take run.length ++
            ((e :: rest).drop head.length).drop run.length := by
        rw [List.append_assoc, List.take_append_drop, List.take_append_drop]
      have hbefore : ((e :: rest).take head.length).length = head.length :=
        List.length_take_of_le (by omega)
      have hstretch : (((e :: rest).drop head.length).take run.length).length = run.length :=
        List.length_take_of_le (by rw [List.length_drop]; omega)
      generalize (e :: rest).take head.length = before at hparts hbefore
      generalize ((e :: rest).drop head.length).take run.length = stretch at hparts hstretch
      rw [hsplit before stretch _ hparts] at heq
      have hpair := List.append_inj heq (by
        rw [List.length_append, List.length_append, length_drawdownsFrom, length_drawdownsFrom,
          hbefore, hstretch])
      have hsame := (List.append_inj hpair.1 (by rw [length_drawdownsFrom, hbefore])).2
      have hne : stretch ≠ [] := by
        rintro rfl
        exact hzero (List.length_eq_zero_iff.mp hstretch.symm)
      obtain ⟨hpos, hbelow⟩ := (drawdownsFrom_pos_iff hne).mp (hsame ▸ hrun)
      refine ⟨before, stretch, _, hparts, ⟨_, ?_, hpos, hbelow⟩, hstretch.trans hlength⟩
      cases before with
      | nil =>
        -- the stretch would begin with the first equity, which is its own peak
        obtain ⟨x, stretch, rfl⟩ := List.exists_cons_of_ne_nil hne
        rw [List.nil_append, List.cons_append] at hparts
        obtain rfl := (List.cons.inj hparts).1
        exact absurd (hbelow e (List.mem_cons_self ..)) (lt_irrefl e)
      | cons x before =>
        rw [List.cons_append, List.cons_append] at hparts
        obtain rfl := (List.cons.inj hparts).1
        rcases List.mem_cons.mp (greatest_spec e (e :: before)).1 with hfirst | hmem
        · rw [hfirst]
          exact List.mem_cons_self ..
        · exact hmem

end Duration

/-! ## The metrics of a run -/

section Results

variable (capital : ℚ) (curve : EquityCurve)

variable {curve}

end Results

namespace Sample

/-- The first three days of March 2024. -/
def marchDay (i : Fin 3) : CalendarDate where
  year := 2024
  month := 3
  day := i + 1
  year_pos := Nat.zero_lt_succ _
  month_pos := Nat.zero_lt_succ _
  month_le := Nat.le_add_left 3 9
  day_pos := Nat.succ_pos _
  day_le := i.isLt.trans (Nat.le_add_left 4 27)

/-- Two points on the first day and one on the third. -/
def marchCurve : EquityCurve :=
  [(⟨marchDay 0, 0⟩, 100), (⟨marchDay 0, 5⟩, 80), (⟨marchDay 2, 0⟩, 90)]

theorem marchCurve_chronological : marchCurve.Chronological := by
  refine List.Pairwise.cons ?_ (List.Pairwise.cons ?_ (List.pairwise_singleton _ _))
  · intro b hb
    rcases List.mem_cons.mp hb with rfl | hb
    · exact Or.inr ⟨rfl, by decide⟩
    · obtain rfl := List.mem_singleton.mp hb
      exact Or.inl (Or.inr ⟨rfl, Or.inr ⟨rfl, by decide⟩⟩)
  · intro b hb
    obtain rfl := List.mem_singleton.mp hb
    exact Or.inl (Or.inr ⟨rfl, Or.inr ⟨rfl, by decide⟩⟩)

end Sample

end LlamaTrade
