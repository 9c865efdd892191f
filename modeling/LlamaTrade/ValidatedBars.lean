import LlamaTrade.BarFeeds
import Mathlib.Algebra.Order.Field.Rat
import Mathlib.Data.List.Chain
import Mathlib.Tactic.Linarith

/-!
# Validated bars

A backtest checks the bars of its symbols before it simulates (`engine/validation.py`): errors end the
run, warnings do not. Prices are exact numbers; how numbers and times are printed is left open.
-/

namespace LlamaTrade

/-! ## The checks -/

inductive ValidationSeverity where
  | error | warning | info
  deriving DecidableEq

structure ValidationIssue where
  severity : ValidationSeverity
  symbol : String
  barIndex : ℕ
  timestamp : Option ℤ
  field : String
  message : String
  value : Option ℚ

/-- How the messages print numbers, times and percents. -/
structure BarTexts where
  price : ℚ → String
  time : ℤ → String
  percent : ℚ → String

/-- `DataValidator`, without the flag that nothing reads. -/
structure DataValidator where
  maxGapDays : ℤ := 5
  maxPriceChangePct : ℚ := 50
  minVolume : ℤ := 0

/-- A bar of the data set, with its time in microseconds. -/
abbrev DatasetBar := Bar ℤ ℚ

def dayMicros : ℤ := 86400000000

def issueIf (bad : Prop) [Decidable bad] (issue : ValidationIssue) : List ValidationIssue :=
  if bad then [issue] else []

section Checks

variable (texts : BarTexts) (v : DataValidator)

def nonPositive (issue : String → String → Option ℚ → ValidationIssue) (field capitalized : String)
    (value : ℚ) : List ValidationIssue :=
  issueIf (value ≤ 0) (issue field
    (capitalized ++ " price is non-positive (" ++ texts.price value ++ ")") (some value))

/-- `pct_change`. -/
def pctChange (previous close : ℚ) : ℚ := |(close - previous) / previous| * 100

/-- The checks against the bar before. -/
def validatePair (error warning : String → String → Option ℚ → ValidationIssue)
    (previous bar : DatasetBar) : List ValidationIssue :=
  issueIf (bar.timestamp ≤ previous.timestamp) (error "timestamp"
      ("Timestamp not increasing (prev: " ++ texts.time previous.timestamp ++ ")") none) ++
    issueIf (v.maxGapDays * dayMicros < bar.timestamp - previous.timestamp) (warning "timestamp"
      ("Large gap in data (" ++ toString ((bar.timestamp - previous.timestamp) / dayMicros) ++
        " days)") none) ++
    issueIf (0 < previous.close ∧ v.maxPriceChangePct < pctChange previous.close bar.close)
      (warning "close" ("Extreme price change (" ++
        texts.percent (pctChange previous.close bar.close) ++ "%). Possible split or data error")
        (some (pctChange previous.close bar.close)))

/-- `_validate_bar`. -/
def validateBar (symbol : String) (index : ℕ) (bar : DatasetBar) (previous : Option DatasetBar) :
    List ValidationIssue :=
  let error := ValidationIssue.mk .error symbol index (some bar.timestamp)
  let warning := ValidationIssue.mk .warning symbol index (some bar.timestamp)
  issueIf (bar.high < max bar.opening bar.close) (error "high"
      ("High (" ++ texts.price bar.high ++ ") is less than open (" ++ texts.price bar.opening ++
        ") or close (" ++ texts.price bar.close ++ ")") (some bar.high)) ++
    issueIf (min bar.opening bar.close < bar.low) (error "low"
      ("Low (" ++ texts.price bar.low ++ ") is greater than open (" ++ texts.price bar.opening ++
        ") or close (" ++ texts.price bar.close ++ ")") (some bar.low)) ++
    issueIf (bar.high < bar.low) (error "high/low"
      ("High (" ++ texts.price bar.high ++ ") is less than low (" ++ texts.price bar.low ++ ")")
      (some bar.high)) ++
    nonPositive texts error "open" "Open" bar.opening ++
    nonPositive texts error "high" "High" bar.high ++
    nonPositive texts error "low" "Low" bar.low ++
    nonPositive texts error "close" "Close" bar.close ++
    issueIf (bar.volume < 0) (error "volume"
      ("Negative volume (" ++ toString bar.volume ++ ")") (some bar.volume)) ++
    issueIf (bar.volume < v.minVolume ∧ 0 < v.minVolume) (warning "volume"
      ("Low volume (" ++ toString bar.volume ++ "), minimum expected: " ++ toString v.minVolume)
      (some bar.volume)) ++
    previous.elim [] fun previous => validatePair texts v error warning previous bar

/-- The loop over the bars of a symbol. -/
def validateFrom (symbol : String) : ℕ → Option DatasetBar → List DatasetBar → List ValidationIssue
  | _, _, [] => []
  | index, previous, bar :: rest =>
    validateBar texts v symbol index bar previous ++ validateFrom symbol (index + 1) (some bar) rest

/-- `_validate_symbol`. -/
def validateSymbol (symbol : String) (bars : List DatasetBar) : List ValidationIssue :=
  if bars.isEmpty then [⟨.warning, symbol, 0, none, "bars", "No bar data", none⟩]
  else validateFrom texts v symbol 0 none bars

structure BarValidationResult where
  valid : Bool
  issues : List ValidationIssue
  symbolsChecked : ℕ
  barsChecked : ℕ

def ValidationIssue.isError (issue : ValidationIssue) : Bool := issue.severity = .error

def ValidationIssue.isWarning (issue : ValidationIssue) : Bool := issue.severity = .warning

/-- `DataValidator.validate`. -/
def validate (bars : List (String × List DatasetBar)) : BarValidationResult :=
  let issues := bars.flatMap fun e => validateSymbol texts v e.1 e.2
  ⟨!issues.any ValidationIssue.isError, issues, bars.length, (bars.map fun e => e.2.length).sum⟩

/-- A warning made an error. -/
def ValidationIssue.elevate (issue : ValidationIssue) : ValidationIssue :=
  if issue.isWarning then { issue with severity := .error } else issue

/-- `validate_bars`. -/
def validateBars (bars : List (String × List DatasetBar)) (strict : Bool) : BarValidationResult :=
  let result := validate texts {} bars
  if strict ∧ result.issues.any ValidationIssue.isWarning then
    { result with valid := false, issues := result.issues.map ValidationIssue.elevate }
  else result

end Checks

/-! ## What valid bars are -/

/-- Prices are positive and inside the range of the bar, and the volume is not negative. -/
structure SoundBar (bar : DatasetBar) : Prop where
  low_pos : 0 < bar.low
  low_le : bar.low ≤ bar.opening ∧ bar.low ≤ bar.close
  le_high : bar.opening ≤ bar.high ∧ bar.close ≤ bar.high
  volume : 0 ≤ bar.volume

/-- The bars of a symbol are sound and go forward in time. -/
structure SoundSeries (bars : List DatasetBar) : Prop where
  sound : ∀ bar ∈ bars, SoundBar bar
  increasing : bars.Pairwise fun a b => a.timestamp < b.timestamp

/-- There is a bar, no gap of more than five days and no change by more than half. -/
structure CalmSeries (bars : List DatasetBar) : Prop where
  nonempty : bars ≠ []
  steady : bars.IsChain fun a b => b.timestamp - a.timestamp ≤ 5 * dayMicros ∧
    (0 < a.close → pctChange a.close b.close ≤ 50)

section Valid

variable {texts : BarTexts} {v : DataValidator} {symbol : String} {bar : DatasetBar}

theorem any_issueIf (bad : Prop) [Decidable bad] (issue : ValidationIssue)
    (p : ValidationIssue → Bool) : (issueIf bad issue).any p = (decide bad && p issue) := by
  by_cases h : bad
  · simp [issueIf, h]
  · simp [issueIf, h]

/-- A bar has no error if it is sound and later than the bar before. -/
theorem validateBar_any_error {index : ℕ} {previous : Option DatasetBar} :
    (validateBar texts v symbol index bar previous).any ValidationIssue.isError = false ↔
      SoundBar bar ∧ ∀ p ∈ previous, p.timestamp < bar.timestamp := by
  have hpair : (previous.elim [] fun previous => validatePair texts v
      (ValidationIssue.mk .error symbol index (some bar.timestamp))
      (ValidationIssue.mk .warning symbol index (some bar.timestamp)) previous bar).any
        ValidationIssue.isError = false ↔ ∀ p ∈ previous, p.timestamp < bar.timestamp := by
    cases previous with
    | none => simp
    | some p => simp [validatePair, any_issueIf, ValidationIssue.isError]
  simp only [validateBar, nonPositive, List.any_append, any_issueIf, Bool.or_eq_false_iff, hpair]
  simp only [ValidationIssue.isError, decide_true, Bool.and_true, decide_eq_false_iff_not, not_lt,
    not_le, max_le_iff, le_min_iff, reduceCtorEq, decide_false, Bool.and_false, and_true]
  constructor
  · rintro ⟨⟨⟨⟨⟨⟨⟨⟨hhigh, hlow⟩, -⟩, -⟩, -⟩, hpos⟩, -⟩, hvolume⟩, htime⟩
    exact ⟨⟨hpos, hlow, hhigh, hvolume⟩, htime⟩
  · rintro ⟨⟨hpos, hlow, hhigh, hvolume⟩, htime⟩
    have hopen : 0 < bar.opening := hpos.trans_le hlow.1
    exact ⟨⟨⟨⟨⟨⟨⟨⟨hhigh, hlow⟩, hlow.1.trans hhigh.1⟩, hopen⟩, hopen.trans_le hhigh.1⟩, hpos⟩,
      hpos.trans_le hlow.2⟩, hvolume⟩, htime⟩

/-- With the default settings a bar has no warning if it does not jump from the bar before. -/
theorem validateBar_any_warning {index : ℕ} {previous : Option DatasetBar} :
    (validateBar texts {} symbol index bar previous).any ValidationIssue.isWarning = false ↔
      True ∧ ∀ p ∈ previous, bar.timestamp - p.timestamp ≤ 5 * dayMicros ∧
        (0 < p.close → pctChange p.close bar.close ≤ 50) := by
  have hpair : (previous.elim [] fun previous => validatePair texts {}
      (ValidationIssue.mk .error symbol index (some bar.timestamp))
      (ValidationIssue.mk .warning symbol index (some bar.timestamp)) previous bar).any
        ValidationIssue.isWarning = false ↔
          ∀ p ∈ previous, bar.timestamp - p.timestamp ≤ 5 * dayMicros ∧
            (0 < p.close → pctChange p.close bar.close ≤ 50) := by
    cases previous with
    | none => simp
    | some p => simp [validatePair, any_issueIf, ValidationIssue.isWarning]
  simp only [validateBar, nonPositive, List.any_append, any_issueIf, Bool.or_eq_false_iff, hpair]
  simp [ValidationIssue.isWarning]

/-- The issues of one kind of a whole series, from those of its bars. -/
theorem validateFrom_any {p : ValidationIssue → Bool} {sound : DatasetBar → Prop}
    {follows : DatasetBar → DatasetBar → Prop}
    (hbar : ∀ index bar previous, (validateBar texts v symbol index bar previous).any p = false ↔
      sound bar ∧ ∀ q ∈ previous, follows q bar)
    (bars : List DatasetBar) (index : ℕ) (previous : Option DatasetBar) :
    (validateFrom texts v symbol index previous bars).any p = false ↔
      (∀ bar ∈ bars, sound bar) ∧ (previous.toList ++ bars).IsChain follows := by
  induction bars generalizing index previous with
  | nil => cases previous <;> simp [validateFrom]
  | cons bar rest ih =>
    rw [validateFrom, List.any_append, Bool.or_eq_false_iff, hbar, ih, List.forall_mem_cons]
    cases previous with
    | none => simp [and_assoc]
    | some q =>
      simp only [Option.mem_some_iff, forall_eq', Option.toList_some, List.singleton_append,
        List.isChain_cons_cons]
      constructor
      · rintro ⟨⟨hsound, hfollows⟩, hrest, hchain⟩
        exact ⟨⟨hsound, hrest⟩, hfollows, hchain⟩
      · rintro ⟨⟨hsound, hrest⟩, hfollows, hchain⟩
        exact ⟨⟨hsound, hfollows⟩, hrest, hchain⟩

theorem validateSymbol_any_error (bars : List DatasetBar) :
    (validateSymbol texts v symbol bars).any ValidationIssue.isError = false ↔ SoundSeries bars := by
  cases bars with
  | nil =>
    refine ⟨fun _ => ⟨by simp, List.Pairwise.nil⟩, fun _ => ?_⟩
    simp [validateSymbol, ValidationIssue.isError]
  | cons bar rest =>
    rw [validateSymbol, List.isEmpty_cons, if_neg Bool.false_ne_true,
      validateFrom_any (fun _ _ _ => validateBar_any_error), Option.toList_none, List.nil_append]
    have htrans : IsTrans DatasetBar fun a b => a.timestamp < b.timestamp :=
      ⟨fun _ _ _ hab hbc => hab.trans hbc⟩
    rw [List.isChain_iff_pairwise]
    exact ⟨fun h => ⟨h.1, h.2⟩, fun h => ⟨h.sound, h.increasing⟩⟩

theorem validateSymbol_any_warning (bars : List DatasetBar) :
    (validateSymbol texts {} symbol bars).any ValidationIssue.isWarning = false ↔ CalmSeries bars := by
  cases bars with
  | nil =>
    refine ⟨fun h => ?_, fun h => absurd rfl h.nonempty⟩
    simp [validateSymbol, ValidationIssue.isWarning] at h
  | cons bar rest =>
    rw [validateSymbol, List.isEmpty_cons, if_neg Bool.false_ne_true,
      validateFrom_any (fun _ _ _ => validateBar_any_warning), Option.toList_none, List.nil_append]
    exact ⟨fun h => ⟨List.cons_ne_nil _ _, h.2⟩, fun h => ⟨fun _ _ => trivial, h.steady⟩⟩

/-- The issues of a bar are about it. -/
theorem mem_validateBar {index : ℕ} {previous : Option DatasetBar} {issue : ValidationIssue}
    (h : issue ∈ validateBar texts v symbol index bar previous) :
    issue.symbol = symbol ∧ issue.barIndex = index ∧ issue.timestamp = some bar.timestamp := by
  have hif : ∀ {bad : Prop} [Decidable bad] {i : ValidationIssue}, issue ∈ issueIf bad i →
      issue = i := by
    intro bad _ i hi
    unfold issueIf at hi
    split_ifs at hi
    · exact List.mem_singleton.mp hi
    · cases hi
  simp only [validateBar, nonPositive, List.mem_append] at h
  rcases h with ((((((((h | h) | h) | h) | h) | h) | h) | h) | h) | h
  on_goal 10 =>
    cases previous with
    | none => cases h
    | some p =>
      simp only [Option.elim_some, validatePair, List.mem_append] at h
      rcases h with (h | h) | h <;> rw [hif h] <;> exact ⟨rfl, rfl, rfl⟩
  all_goals
    rw [hif h]
    exact ⟨rfl, rfl, rfl⟩

theorem mem_validateFrom {bars : List DatasetBar} {index : ℕ} {previous : Option DatasetBar}
    {issue : ValidationIssue} (h : issue ∈ validateFrom texts v symbol index previous bars) :
    ∃ before bar after, bars = before ++ bar :: after ∧
      issue ∈ validateBar texts v symbol (index + before.length) bar
        ((previous.toList ++ before).getLast?) := by
  induction bars generalizing index previous with
  | nil => cases h
  | cons bar rest ih =>
    rcases List.mem_append.mp h with h | h
    · refine ⟨[], bar, rest, rfl, ?_⟩
      cases previous <;> exact h
    · obtain ⟨before, b, after, rfl, hissue⟩ := ih h
      refine ⟨bar :: before, b, after, rfl, ?_⟩
      rw [List.length_cons, Nat.add_comm before.length, ← Nat.add_assoc]
      have hlast : (previous.toList ++ bar :: before).getLast? =
          ((some bar).toList ++ before).getLast? := by
        rw [List.getLast?_append_of_ne_nil _ (List.cons_ne_nil bar before)]
        rfl
      rw [hlast]
      exact hissue

/-- Every error names the symbol, the index and the time of a bar of the data that is not sound or
not later than the bar before. -/
theorem validate_errors_located (texts : BarTexts) (v : DataValidator)
    (bars : List (String × List DatasetBar)) :
    ∀ issue ∈ (validate texts v bars).issues, issue.isError = true →
      ∃ before bar after, (issue.symbol, before ++ bar :: after) ∈ bars ∧
        issue.barIndex = before.length ∧ issue.timestamp = some bar.timestamp ∧
        (SoundBar bar → ∃ p ∈ before.getLast?, bar.timestamp ≤ p.timestamp) := by
  intro issue hissue herror
  obtain ⟨⟨symbol, series⟩, hmem, hissue⟩ := List.mem_flatMap.mp hissue
  cases series with
  | nil =>
    obtain rfl := List.mem_singleton.mp hissue
    simp [ValidationIssue.isError] at herror
  | cons first rest =>
    rw [validateSymbol, List.isEmpty_cons, if_neg Bool.false_ne_true] at hissue
    obtain ⟨before, bar, after, hseries, hissue⟩ := mem_validateFrom hissue
    rw [Option.toList_none, List.nil_append, Nat.zero_add] at hissue
    obtain ⟨hsymbol, hindex, htime⟩ := mem_validateBar hissue
    refine ⟨before, bar, after, ?_, hindex, htime, fun hsound => ?_⟩
    · rw [hsymbol, ← hseries]
      exact hmem
    · by_contra hnone
      have hfalse : (validateBar texts v symbol before.length bar before.getLast?).any
          ValidationIssue.isError = false := validateBar_any_error.mpr
        ⟨hsound, fun p hp => lt_of_not_ge fun hle => hnone ⟨p, hp, hle⟩⟩
      exact absurd herror (List.any_eq_false.mp hfalse issue hissue)

def Sample.plainTexts : BarTexts := ⟨fun _ => "", fun _ => "", fun _ => ""⟩

def Sample.shortVolume : DatasetBar := ⟨0, 1, 1, 1, 1, -1⟩

theorem validate_errors_located_volume :
    ∃ issue ∈ (validate Sample.plainTexts {} [("SPY", [Sample.shortVolume])]).issues,
      ∃ before bar after, (issue.symbol, before ++ bar :: after) ∈ [("SPY", [Sample.shortVolume])] ∧
        issue.barIndex = before.length ∧ issue.timestamp = some bar.timestamp ∧
        (SoundBar bar → ∃ p ∈ before.getLast?, bar.timestamp ≤ p.timestamp) := by
  obtain ⟨issue, hissue, herror⟩ := List.any_eq_true.mp (show
    (validate Sample.plainTexts {} [("SPY", [Sample.shortVolume])]).issues.any
      ValidationIssue.isError = true by decide +kernel)
  exact ⟨issue, hissue, validate_errors_located _ _ _ issue hissue herror⟩

end Valid

/-! ## The data of a run -/

section Dataset

variable (texts : BarTexts)

/-- `summary`. -/
def BarValidationResult.summary (result : BarValidationResult) : String :=
  "Validated " ++ toString result.barsChecked ++ " bars across " ++ toString result.symbolsChecked ++
    " symbols. Found " ++ toString (result.issues.countP ValidationIssue.isError) ++ " errors, " ++
    toString (result.issues.countP ValidationIssue.isWarning) ++ " warnings."

/-- The bars that a run simulates with, or the message of the `ValueError` that ends it. -/
def runDataset (symbols : List String) (allBars : String → Option (List DatasetBar)) :
    Except String (List (String × List DatasetBar)) :=
  let missing := symbols.filter fun s => (allBars s).getD [] = []
  if missing ≠ [] then
    .error ("No market data available for symbols: " ++ ", ".intercalate missing)
  else
    let bars := symbols.filterMap fun s => (allBars s).map fun series => (s, series)
    let validation := validateBars texts bars false
    if validation.valid then .ok bars
    else .error ("Market data validation failed: " ++ validation.summary)

end Dataset

end LlamaTrade
