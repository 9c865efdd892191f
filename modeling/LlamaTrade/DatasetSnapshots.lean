import LlamaTrade.InsertionDict
import LlamaTrade.JsonValue
import Mathlib.Data.Finset.Sort
import Mathlib.Data.String.Basic

/-!
# Dataset snapshots

The bars of a backtest (`dataset/spec.py`, `dataset/prepare.py`, `dataset/store.py`). A
`DatasetSpec` names the bars and the file that holds them. To materialize a dataset is to fetch it
and to fetch once more the ranges where consecutive bars are too far apart. A snapshot is one table
of all symbols; complete bars read back from it as they were.

Dates are day numbers and timestamps microseconds, both since the epoch and in UTC. `K` is the type
of the prices.
-/

namespace LlamaTrade

/-! ## Dates and texts -/

structure CivilDate where
  year : ℤ
  month : ℤ
  day : ℤ
  deriving DecidableEq

/-- The date of a day number, in the proleptic Gregorian calendar. Years are counted from March
on, in eras of 400. -/
def civilDate (days : ℤ) : CivilDate :=
  let z := days + 719468
  let dayOfEra := z % 146097
  let yearOfEra := (dayOfEra - dayOfEra / 1460 + dayOfEra / 36524 - dayOfEra / 146096) / 365
  let dayOfYear := dayOfEra - (365 * yearOfEra + yearOfEra / 4 - yearOfEra / 100)
  let shifted := (5 * dayOfYear + 2) / 153
  let month := if shifted < 10 then shifted + 3 else shifted - 9
  { year := yearOfEra + z / 146097 * 400 + if month ≤ 2 then 1 else 0
    month := month
    day := dayOfYear - (153 * shifted + 2) / 5 + 1 }

/-- `date.isoformat()`. -/
def isoDate (days : ℤ) : String :=
  let date := civilDate days
  padded 4 date.year.toNat ++ "-" ++ padded 2 date.month.toNat ++ "-" ++ padded 2 date.day.toNat

example : isoDate 19723 = "2024-01-01" := by decide

def microsPerDay : ℤ := 86400000000

/-- `datetime.date()`. -/
def dateOf (timestamp : ℤ) : ℤ := timestamp / microsPerDay

/-- `str(datetime)` in UTC. -/
def datetimeText (timestamp : ℤ) : String :=
  let micros := (timestamp % microsPerDay).toNat
  let seconds := micros / 1000000
  let fraction := micros % 1000000
  isoDate (dateOf timestamp) ++ " " ++ padded 2 (seconds / 3600) ++ ":" ++
    padded 2 (seconds / 60 % 60) ++ ":" ++ padded 2 (seconds % 60) ++
    (if fraction = 0 then "" else "." ++ padded 6 fraction) ++ "+00:00"

/-- `\uXXXX`. -/
def unicodeEscape (n : ℕ) : List Char :=
  ['\\', 'u', Json.hexDigit (n / 4096), Json.hexDigit (n / 256), Json.hexDigit (n / 16),
    Json.hexDigit n]

/-- One character of a string in `json.dumps`. -/
def dumpsChar (c : Char) : List Char :=
  let n := c.toNat
  if c = '"' ∨ c = '\\' then ['\\', c]
  else if c = '\n' then ['\\', 'n']
  else if c = '\r' then ['\\', 'r']
  else if c = '\t' then ['\\', 't']
  else if n = 8 then ['\\', 'b']
  else if n = 12 then ['\\', 'f']
  else if 32 ≤ n ∧ n ≤ 126 then [c]
  else if n < 65536 then unicodeEscape n
  -- a pair of surrogates
  else unicodeEscape (0xd800 + (n - 65536) / 1024) ++ unicodeEscape (0xdc00 + (n - 65536) % 1024)

def dumpsText (s : String) : String :=
  String.ofList ('"' :: s.toList.flatMap dumpsChar ++ ['"'])

/-! ## Specs -/

structure DatasetSpec where
  symbols : List String
  timeframe : String
  fetchStart : ℤ
  stop : ℤ
  adjustment : String
  dataVersion : String
  deriving DecidableEq

namespace DatasetSpec

/-- `DatasetSpec.create`: the symbols in upper case, sorted and each once. -/
def create (symbols : List String) (timeframe : String) (fetchStart stop : ℤ) (adjustment : String)
    (dataVersion : String) : DatasetSpec where
  symbols := (symbols.map PyText.upper).toFinset.sort
  timeframe := timeframe
  fetchStart := fetchStart
  stop := stop
  adjustment := adjustment
  dataVersion := dataVersion

/-- The order of the symbols, their case and repetitions do not matter. -/
theorem create_congr {symbols symbols' : List String}
    (h : ∀ symbol, symbol ∈ symbols.map PyText.upper ↔ symbol ∈ symbols'.map PyText.upper)
    (timeframe : String) (fetchStart stop : ℤ) (adjustment dataVersion : String) :
    create symbols timeframe fetchStart stop adjustment dataVersion =
      create symbols' timeframe fetchStart stop adjustment dataVersion := by
  have hset : (symbols.map PyText.upper).toFinset = (symbols'.map PyText.upper).toFinset := by
    ext symbol
    rw [List.mem_toFinset, List.mem_toFinset, h]
  simp only [create, hset]

variable (spec : DatasetSpec)

/-- `json.dumps` of the spec, with sorted keys. -/
def payload : String :=
  "\x7b\"adjustment\":" ++ dumpsText spec.adjustment ++
    ",\"data_version\":" ++ dumpsText spec.dataVersion ++
    ",\"end\":" ++ dumpsText (isoDate spec.stop) ++
    ",\"fetch_start\":" ++ dumpsText (isoDate spec.fetchStart) ++
    ",\"symbols\":[" ++ String.intercalate "," (spec.symbols.map dumpsText) ++
    "],\"timeframe\":" ++ dumpsText spec.timeframe ++ "\x7d"

/-- `dataset_hash`; `hexdigest` is that of SHA-256. -/
def datasetHash (hexdigest : String → String) : String :=
  String.ofList ((hexdigest spec.payload).toList.take 32)

/-- `object_key`. -/
def objectKey (hexdigest : String → String) : String :=
  spec.timeframe ++ "/" ++ spec.datasetHash hexdigest ++ ".parquet"

end DatasetSpec

/-! ## Bars -/

/-- `BarData`: its fields are a static claim, and the market data serves nullable columns. -/
structure BarData (K : Type) where
  timestamp : ℤ
  opening : Option K
  high : Option K
  low : Option K
  close : Option K
  volume : Option ℚ

/-- Bars by symbol, as a dictionary. -/
structure Dataset (K : Type) where
  entries : InsertionDict (List (BarData K))
  nodup : entries.keys.Nodup

section Materialize

variable {K : Type}

/-- The bars of a symbol; an absent symbol has none. -/
def Dataset.series (dataset : Dataset K) (symbol : String) : List (BarData K) :=
  dataset.entries.getD symbol []

/-- What `fetch` returns for symbols, a timeframe and a range of dates. -/
abbrev Fetcher (K : Type) := List String → String → ℤ → ℤ → Except PyError (Dataset K)

/-- `_GAP_THRESHOLD_DAYS`. -/
def gapThresholdDays (timeframe : String) : ℤ :=
  if timeframe = "1D" ∨ timeframe = "1d" then 6
  else if timeframe = "1W" then 14
  else if timeframe = "1Month" then 45
  else 2

/-- `_find_gaps`. -/
def findGaps (thresholdDays : ℤ) : List (BarData K) → List (ℤ × ℤ)
  | current :: next :: rest =>
    let gaps := findGaps thresholdDays (next :: rest)
    if thresholdDays < dateOf next.timestamp - dateOf current.timestamp then
      (dateOf current.timestamp + 1, dateOf next.timestamp - 1) :: gaps
    else gaps
  | _ => []

/-- `merged[bar["timestamp"]] = bar`. -/
def setBar (merged : List (BarData K)) (bar : BarData K) : List (BarData K) :=
  if merged.any fun b => b.timestamp = bar.timestamp then
    merged.map fun b => if b.timestamp = bar.timestamp then bar else b
  else merged ++ [bar]

/-- `merged.setdefault(bar["timestamp"], bar)`. -/
def setDefaultBar (merged : List (BarData K)) (bar : BarData K) : List (BarData K) :=
  if merged.any fun b => b.timestamp = bar.timestamp then merged else merged ++ [bar]

/-- `_merge_dedup`. -/
def mergeDedup (existing patch : List (BarData K)) : List (BarData K) :=
  (patch.foldl setDefaultBar (existing.foldl setBar [])).insertionSort fun a b =>
    a.timestamp ≤ b.timestamp

/-- The gaps of one symbol are fetched one after the other. -/
def fillSeries (fetch : Fetcher K) (timeframe symbol : String) (series : List (BarData K)) :
    Except PyError (List (BarData K)) :=
  (findGaps (gapThresholdDays timeframe) series).foldlM
    (fun series gap => do
      let patch ← fetch [symbol] timeframe gap.1 gap.2
      pure (mergeDedup series (patch.series symbol)))
    series

/-- Each entry in turn, until one raises. -/
def fillEntries (fetch : Fetcher K) (timeframe : String) :
    InsertionDict (List (BarData K)) → Except PyError (InsertionDict (List (BarData K)))
  | [] => .ok []
  | (symbol, series) :: rest => do
    let series ← fillSeries fetch timeframe symbol series
    let rest ← fillEntries fetch timeframe rest
    pure ((symbol, series) :: rest)

theorem keys_fillEntries {fetch : Fetcher K} {timeframe : String}
    {entries filled : InsertionDict (List (BarData K))}
    (h : fillEntries fetch timeframe entries = .ok filled) : filled.keys = entries.keys := by
  induction entries generalizing filled with
  | nil =>
    cases h
    rfl
  | cons entry rest ih =>
    obtain ⟨symbol, series⟩ := entry
    simp only [fillEntries, bind_eq_ok, pure_eq_ok] at h
    obtain ⟨series', -, rest', hrest, hfilled⟩ := h
    cases hfilled
    simpa [InsertionDict.keys] using ih hrest

/-- `_fill_interior_gaps`. -/
def fillInteriorGaps (fetch : Fetcher K) (timeframe : String) (bars : Dataset K) :
    Except PyError (Dataset K) :=
  match h : fillEntries fetch timeframe bars.entries with
  | .ok entries => .ok ⟨entries, keys_fillEntries h ▸ bars.nodup⟩
  | .error e => .error e

/-- The bars of `_materialize`, without a store. -/
def materialize (fetch : Fetcher K) (spec : DatasetSpec) : Except PyError (Dataset K) := do
  let bars ← fetch spec.symbols spec.timeframe spec.fetchStart spec.stop
  fillInteriorGaps fetch spec.timeframe bars

end Materialize

/-! ## Tables -/

/-- A row of a snapshot. -/
structure SnapshotRow (K : Type) where
  symbol : String
  timestamp : ℤ
  opening : K
  high : K
  low : K
  close : K
  volume : ℤ

section Tables

variable {K : Type}

def missingPrice (symbol : String) (timestamp : ℤ) (field : String) : PyError :=
  .valueError "ValueError" (symbol ++ " bar at " ++ datetimeText timestamp ++ " has no " ++ field ++
    "; refusing to build a backtest dataset from incomplete prices")

def requirePrice (symbol : String) (timestamp : ℤ) (field : String) : Option K → Except PyError K
  | some price => .ok price
  | none => .error (missingPrice symbol timestamp field)

/-- One bar of `_bars_to_table`: a missing volume reads as zero. -/
def rowOfBar (symbol : String) (bar : BarData K) : Except PyError (SnapshotRow K) := do
  let opening ← requirePrice symbol bar.timestamp "open" bar.opening
  let high ← requirePrice symbol bar.timestamp "high" bar.high
  let low ← requirePrice symbol bar.timestamp "low" bar.low
  let close ← requirePrice symbol bar.timestamp "close" bar.close
  pure ⟨symbol, bar.timestamp, opening, high, low, close, (bar.volume.map Json.truncate).getD 0⟩

/-- The volume fits `pa.int64()`. -/
def SnapshotRow.fits (row : SnapshotRow K) : Bool := -2 ^ 63 ≤ row.volume ∧ row.volume < 2 ^ 63

/-- `_bars_to_table`. -/
def barsToTable (bars : Dataset K) : Except PyError (List (SnapshotRow K)) := do
  let groups ← (bars.entries.keys.insertionSort (· ≤ ·)).mapM fun symbol =>
    (bars.series symbol).mapM (rowOfBar symbol)
  if groups.flatten.all SnapshotRow.fits then pure groups.flatten
  else .error (.arithmeticError .overflowError)

def SnapshotRow.bar (row : SnapshotRow K) : BarData K where
  timestamp := row.timestamp
  opening := some row.opening
  high := some row.high
  low := some row.low
  close := some row.close
  volume := some row.volume

/-- The entries of `_table_to_bars`. -/
def tableEntries (rows : List (SnapshotRow K)) : InsertionDict (List (BarData K)) :=
  rows.foldl (fun entries row => entries.modify (· ++ [row.bar]) [] row.symbol) []

theorem nodup_tableEntries (rows : List (SnapshotRow K)) : (tableEntries rows).keys.Nodup := by
  have hgrow : ∀ (rows : List (SnapshotRow K)) (entries : InsertionDict (List (BarData K))),
      entries.keys.Nodup →
      (rows.foldl (fun entries row => entries.modify (· ++ [row.bar]) [] row.symbol)
        entries).keys.Nodup := by
    intro rows
    induction rows with
    | nil => exact fun _ h => h
    | cons row rows ih => exact fun entries h => ih _ (InsertionDict.nodup_modify h)
  exact hgrow rows [] List.nodup_nil

/-- `_table_to_bars`. -/
def tableToBars (rows : List (SnapshotRow K)) : Dataset K := ⟨tableEntries rows, nodup_tableEntries rows⟩

/-- The bar has its prices, and a whole volume that fits the column. -/
def BarData.isComplete (bar : BarData K) : Bool :=
  bar.opening.isSome && bar.high.isSome && bar.low.isSome && bar.close.isSome &&
    bar.volume.any fun volume => volume.den = 1 ∧ -2 ^ 63 ≤ volume.num ∧ volume.num < 2 ^ 63

def Dataset.isComplete (bars : Dataset K) : Bool :=
  bars.entries.all fun entry => entry.2.all BarData.isComplete

/-! ### Complete bars read back -/

theorem truncate_whole {q : ℚ} (h : q.den = 1) : Json.truncate q = q.num := by
  unfold Json.truncate
  rw [h]
  split_ifs <;> simp

theorem rowOfBar_complete {bar : BarData K} (symbol : String) (h : bar.isComplete = true) :
    ∃ row, rowOfBar symbol bar = .ok row ∧ row.symbol = symbol ∧ row.bar = bar ∧ row.fits = true := by
  obtain ⟨timestamp, opening, high, low, close, volume⟩ := bar
  simp only [BarData.isComplete, Bool.and_eq_true, Option.isSome_iff_exists, Option.any_eq_true,
    decide_eq_true_eq] at h
  obtain ⟨⟨⟨⟨⟨o, rfl⟩, h', rfl⟩, l, rfl⟩, c, rfl⟩, volume, rfl, hwhole, hlow, hhigh⟩ := h
  refine ⟨⟨symbol, timestamp, o, h', l, c, volume.num⟩, ?_, rfl, ?_, ?_⟩
  · simp [rowOfBar, requirePrice, truncate_whole hwhole]
  · simp [SnapshotRow.bar, Rat.den_eq_one_iff volume |>.mp hwhole]
  · exact decide_eq_true ⟨hlow, hhigh⟩

theorem rows_of_series {series : List (BarData K)} (symbol : String)
    (h : ∀ bar ∈ series, bar.isComplete = true) :
    ∃ rows, series.mapM (rowOfBar symbol) = .ok rows ∧ (∀ row ∈ rows, row.symbol = symbol) ∧
      rows.map SnapshotRow.bar = series ∧ ∀ row ∈ rows, row.fits = true := by
  induction series with
  | nil => exact ⟨[], rfl, nofun, rfl, nofun⟩
  | cons bar series ih =>
    obtain ⟨row, hrow, hsymbol, hbar, hfits⟩ := rowOfBar_complete symbol (h bar (by simp))
    obtain ⟨rows, hrows, hsymbols, hbars, hall⟩ := ih fun b hb => h b (List.mem_cons_of_mem bar hb)
    refine ⟨row :: rows, ?_, ?_, ?_, ?_⟩
    · simp [List.mapM_cons, hrow, hrows]
    · exact List.forall_mem_cons.mpr ⟨hsymbol, hsymbols⟩
    · rw [List.map_cons, hbar, hbars]
    · exact List.forall_mem_cons.mpr ⟨hfits, hall⟩

/-- A symbol reads back as its rows, in their order. -/
theorem series_tableToBars (rows : List (SnapshotRow K)) (symbol : String) :
    (tableToBars rows).series symbol =
      (rows.filter fun row => row.symbol = symbol).map SnapshotRow.bar := by
  have hgrow : ∀ (rows : List (SnapshotRow K)) (entries : InsertionDict (List (BarData K))),
      InsertionDict.getD (rows.foldl (fun entries row =>
        entries.modify (· ++ [row.bar]) [] row.symbol) entries) symbol [] =
      entries.getD symbol [] ++ (rows.filter fun row => row.symbol = symbol).map SnapshotRow.bar := by
    intro rows
    induction rows with
    | nil => simp
    | cons row rows ih =>
      intro entries
      rw [List.foldl_cons, ih, InsertionDict.getD_modify, List.filter_cons]
      by_cases hsymbol : row.symbol = symbol <;> simp [hsymbol]
  exact (hgrow rows []).trans (List.nil_append _)

theorem complete_of_mem_series {bars : Dataset K} (h : bars.isComplete = true) {symbol : String} :
    ∀ bar ∈ bars.series symbol, bar.isComplete = true := by
  intro bar hbar
  rw [Dataset.series, InsertionDict.getD] at hbar
  cases hlookup : bars.entries.lookup symbol with
  | none => simp [hlookup] at hbar
  | some series =>
    rw [hlookup, Option.getD_some] at hbar
    obtain ⟨entry, hentry, rfl⟩ := List.mem_map.mp (InsertionDict.mem_values_of_lookup hlookup)
    exact List.all_eq_true.mp (List.all_eq_true.mp h entry hentry) bar hbar

/-- The groups of distinct symbols: a symbol has the rows of its own group only. -/
theorem rows_of_symbols {bars : Dataset K} (h : bars.isComplete = true) {symbols : List String}
    (hnodup : symbols.Nodup) :
    ∃ groups, (symbols.mapM fun symbol => (bars.series symbol).mapM (rowOfBar symbol)) = .ok groups ∧
      (∀ row ∈ groups.flatten, row.fits = true ∧ row.symbol ∈ symbols) ∧
      ∀ symbol ∈ symbols,
        (groups.flatten.filter fun row => row.symbol = symbol).map SnapshotRow.bar =
          bars.series symbol := by
  induction symbols with
  | nil => exact ⟨[], rfl, nofun, nofun⟩
  | cons head rest ih =>
    obtain ⟨hhead, hrest⟩ := List.nodup_cons.mp hnodup
    have hcomplete : ∀ bar ∈ bars.series head, bar.isComplete = true := complete_of_mem_series h
    obtain ⟨rows, hrows, hsymbols, hbars, hfits⟩ := rows_of_series head hcomplete
    obtain ⟨groups, hgroups, hall, hseries⟩ := ih hrest
    refine ⟨rows :: groups, by simp [List.mapM_cons, hrows, hgroups], ?_, ?_⟩
    · intro row hrow
      rw [List.flatten_cons, List.mem_append] at hrow
      rcases hrow with hrow | hrow
      · exact ⟨hfits row hrow, by simp [hsymbols row hrow]⟩
      · exact ⟨(hall row hrow).1, List.mem_cons_of_mem head (hall row hrow).2⟩
    · intro symbol hsymbol
      rw [List.flatten_cons, List.filter_append, List.map_append]
      by_cases heq : symbol = head
      · subst heq
        have hown : rows.filter (fun row => row.symbol = symbol) = rows :=
          List.filter_eq_self.mpr fun row hrow => by simp [hsymbols row hrow]
        have hother : groups.flatten.filter (fun row => row.symbol = symbol) = [] := by
          refine List.filter_eq_nil_iff.mpr fun row hrow hrowsymbol => hhead ?_
          rw [← of_decide_eq_true hrowsymbol]
          exact (hall row hrow).2
        rw [hown, hother, hbars]
        simp
      · have hown : rows.filter (fun row => row.symbol = symbol) = [] :=
          List.filter_eq_nil_iff.mpr fun row hrow => by simp [hsymbols row hrow, Ne.symm heq]
        rw [hown, hseries symbol ((List.mem_cons.mp hsymbol).resolve_left heq)]
        rfl

/-- Complete bars are stored, and read back as they were. -/
theorem barsToTable_complete {bars : Dataset K} (h : bars.isComplete = true) :
    ∃ rows, barsToTable bars = .ok rows ∧
      ∀ symbol, (tableToBars rows).series symbol = bars.series symbol := by
  have hnodup : (bars.entries.keys.insertionSort (· ≤ ·)).Nodup :=
    (List.perm_insertionSort _ _).nodup_iff.mpr bars.nodup
  obtain ⟨groups, hgroups, hall, hseries⟩ := rows_of_symbols h hnodup
  have hfits : groups.flatten.all SnapshotRow.fits = true :=
    List.all_eq_true.mpr fun row hrow => (hall row hrow).1
  refine ⟨groups.flatten, by rw [barsToTable, hgroups, ok_bind, if_pos hfits]; rfl, fun symbol => ?_⟩
  rw [series_tableToBars]
  by_cases hsymbol : symbol ∈ bars.entries.keys
  · exact hseries symbol ((List.perm_insertionSort _ _).mem_iff.mpr hsymbol)
  · rw [Dataset.series, InsertionDict.getD_eq_of_not_mem_keys [] hsymbol]
    have hnone : groups.flatten.filter (fun row => row.symbol = symbol) = [] := by
      refine List.filter_eq_nil_iff.mpr fun row hrow hrowsymbol => hsymbol ?_
      rw [← of_decide_eq_true hrowsymbol]
      exact (List.perm_insertionSort _ _).mem_iff.mp (hall row hrow).2
    rw [hnone]
    rfl

end Tables

end LlamaTrade
