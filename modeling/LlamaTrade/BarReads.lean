import LlamaTrade.TransitionRuns
import Mathlib.Data.List.Sort
import Mathlib.Algebra.Order.Ring.Int

/-!
# Bars through the store

Reads of a base timeframe through the bar store (`_get_bars_via_store` in
`services/market_data_service.py`) and backfill passes (`ingest/backfill.py`). Both ask the
store for the span of the bars it has in the window, fetch from upstream what lies before and
after the span, up to a limit, and write the fetched bars back; a read keeps bars that are not
closed yet out of the store. Upstream serves the oldest bars of a window first. Bars do not
change, and later bars appear upstream at any time.
-/

namespace LlamaTrade

/-- A bar of one symbol and timeframe. -/
structure StoredBar (α : Type) where
  time : ℤ
  data : α
  deriving DecidableEq

/-- A half-open interval of time (`store/intervals.py`). -/
structure TimeInterval where
  start : ℤ
  stop : ℤ

/-! ## Intervals -/

/-- The loop of `merge`, with the interval that it appended last. -/
def coalesce : TimeInterval → List TimeInterval → List TimeInterval
  | last, [] => [last]
  | last, next :: rest =>
    if next.start ≤ last.stop then
      if last.stop < next.stop then coalesce ⟨last.start, next.stop⟩ rest else coalesce last rest
    else last :: coalesce next rest

/-- `merge`. -/
def mergeIntervals (intervals : List TimeInterval) : List TimeInterval :=
  match (intervals.filter fun i => i.start < i.stop).insertionSort fun i j =>
    i.start < j.start ∨ i.start = j.start ∧ i.stop ≤ j.stop with
  | [] => []
  | first :: rest => coalesce first rest

/-- What is left from the cursor on. -/
def restInterval (stop cursor : ℤ) : List TimeInterval :=
  if cursor < stop then [⟨cursor, stop⟩] else []

/-- The loop of `subtract` from its cursor on. -/
def subtractLoop (stop : ℤ) : ℤ → List TimeInterval → List TimeInterval
  | cursor, [] => restInterval stop cursor
  | cursor, covered :: rest =>
    if covered.stop ≤ cursor then subtractLoop stop cursor rest
    else if stop ≤ covered.start then restInterval stop cursor
    else
      let gap := if cursor < covered.start then [⟨cursor, min covered.start stop⟩] else []
      let cursor := max cursor covered.stop
      if stop ≤ cursor then gap ++ restInterval stop cursor
      else gap ++ subtractLoop stop cursor rest

/-- `subtract`. -/
def subtractIntervals (whole : TimeInterval) (covered : List TimeInterval) : List TimeInterval :=
  if whole.stop ≤ whole.start then []
  else subtractLoop whole.stop whole.start (mergeIntervals covered)

/-! ## The store and upstream -/

section Bars

variable {α : Type}

def TimeInterval.Contains (i : TimeInterval) (t : ℤ) : Prop := i.start ≤ t ∧ t < i.stop

instance (i : TimeInterval) (t : ℤ) : Decidable (i.Contains t) :=
  inferInstanceAs (Decidable (_ ∧ _))

def barsIn (bars : List (StoredBar α)) (i : TimeInterval) : List (StoredBar α) :=
  bars.filter fun b => i.Contains b.time

/-- `select_bars`. -/
def selectBars (store : List (StoredBar α)) (i : TimeInterval) : List (StoredBar α) :=
  (barsIn store i).insertionSort fun a b => a.time ≤ b.time

/-- `covered_interval`: the first and the last time stored in the interval. -/
def coveredInterval (store : List (StoredBar α)) (i : TimeInterval) : Option TimeInterval :=
  match ((barsIn store i).map (·.time)).min?, ((barsIn store i).map (·.time)).max? with
  | some lo, some hi => some ⟨lo, hi⟩
  | _, _ => none

/-- `missing_ranges`. -/
def missingRanges (store : List (StoredBar α)) (i : TimeInterval) : List TimeInterval :=
  subtractIntervals i (coveredInterval store i).toList

/-- The gaps of a read: the last stored bar covers one step. -/
def readGaps (step : ℤ) (store : List (StoredBar α)) (i : TimeInterval) : List TimeInterval :=
  subtractIntervals i ((coveredInterval store i).map fun c => ⟨c.start, c.stop + step⟩).toList

/-- `upsert_bars`, one row at a time. -/
def upsertBar (store : List (StoredBar α)) (bar : StoredBar α) : List (StoredBar α) :=
  bar :: store.filter fun b => b.time ≠ bar.time

def upsertBars (store rows : List (StoredBar α)) : List (StoredBar α) := rows.foldl upsertBar store

/-- The oldest bars of the interval, at most `limit`. -/
def fetchBars (upstream : List (StoredBar α)) (limit : ℕ) (i : TimeInterval) : List (StoredBar α) :=
  (barsIn upstream i).take limit

/-- The loop of `_dedupe_sorted_by_time`. -/
def dropRepeated (seen : List ℤ) : List (StoredBar α) → List (StoredBar α)
  | [] => []
  | bar :: bars =>
    if bar.time ∈ seen then dropRepeated seen bars else bar :: dropRepeated (bar.time :: seen) bars

def dedupeSortedByTime (bars : List (StoredBar α)) : List (StoredBar α) :=
  dropRepeated [] (bars.insertionSort fun a b => a.time ≤ b.time)

/-- `merged[-limit:] if limit else merged`. -/
def mostRecent (limit : ℕ) (bars : List (StoredBar α)) : List (StoredBar α) :=
  if limit = 0 then bars else bars.drop (bars.length - limit)

structure BarWorld (α : Type) where
  upstream : List (StoredBar α)
  store : List (StoredBar α)

/-- The bars that a read fetches for its gaps. -/
def readFetched (step : ℤ) (w : BarWorld α) (limit : ℕ) (i : TimeInterval) : List (StoredBar α) :=
  (readGaps step w.store i).flatMap (fetchBars w.upstream limit)

/-- What a read returns. -/
def readResult (step : ℤ) (w : BarWorld α) (limit : ℕ) (i : TimeInterval) : List (StoredBar α) :=
  mostRecent limit (dedupeSortedByTime (selectBars w.store i ++ readFetched step w limit i))

/-- What a read writes back: the fetched bars that are closed. -/
def readClosed (step : ℤ) (w : BarWorld α) (limit : ℕ) (i : TimeInterval) (now : ℤ) :
    List (StoredBar α) :=
  (readFetched step w limit i).filter fun b => b.time < now - step

/-- What a backfill pass writes. -/
def backfillRows (w : BarWorld α) (limit : ℕ) (i : TimeInterval) : List (StoredBar α) :=
  (missingRanges w.store i).flatMap (fetchBars w.upstream limit)

inductive BarAction (α : Type) where
  | read (limit : ℕ) (window : TimeInterval) (now : ℤ)
  | backfill (limit : ℕ) (window : TimeInterval)
  /-- A further bar appears upstream. -/
  | arrive (bar : StoredBar α)

def barStep (step : ℤ) (w : BarWorld α) : BarAction α → Option (BarWorld α)
  | .read limit i now => some { w with store := upsertBars w.store (readClosed step w limit i now) }
  | .backfill limit i => some { w with store := upsertBars w.store (backfillRows w limit i) }
  | .arrive bar =>
    if ∀ b ∈ w.upstream, b.time + step ≤ bar.time then
      some { w with upstream := w.upstream ++ [bar] }
    else none

/-! ## Complete reads -/

/-- The bars of the set leave out no bar of upstream between them. -/
def Unbroken (upstream : List (StoredBar α)) (kept : StoredBar α → Prop) : Prop :=
  ∀ a ∈ upstream, ∀ b ∈ upstream, ∀ c ∈ upstream, kept a → kept c → a.time < b.time →
    b.time < c.time → kept b

instance (upstream : List (StoredBar α)) (kept : StoredBar α → Prop) [DecidablePred kept] :
    Decidable (Unbroken upstream kept) :=
  inferInstanceAs (Decidable (∀ a ∈ upstream, ∀ b ∈ upstream, ∀ c ∈ upstream, _))

/-- No fetch is cut off at its limit, and what the step adds to the store leaves out no bar
between the bars stored then. -/
def FetchesWhole (step : ℤ) (w : BarWorld α) : BarAction α → Prop
  | .read limit i now => (∀ gap ∈ readGaps step w.store i, (barsIn w.upstream gap).length ≤ limit) ∧
      Unbroken w.upstream fun b => b ∈ w.store ∨ i.Contains b.time ∧ b.time < now - step
  | .backfill limit i => (∀ gap ∈ missingRanges w.store i, (barsIn w.upstream gap).length ≤ limit) ∧
      Unbroken w.upstream fun b => b ∈ w.store ∨ i.Contains b.time
  | .arrive _ => True

/-- The store holds bars of upstream, with none left out between them; bars are a step apart. -/
structure StoreUnbroken (step : ℤ) (w : BarWorld α) : Prop where
  spaced : w.upstream.Pairwise fun a b => a.time + step ≤ b.time
  stored : ∀ b ∈ w.store, b ∈ w.upstream
  unbroken : Unbroken w.upstream (· ∈ w.store)

variable {step : ℤ} {w w' : BarWorld α} {i : TimeInterval}

/-- The gaps are the times of the whole that are not covered. -/
theorem exists_gap_iff {covered : Option TimeInterval} {t : ℤ} :
    (∃ gap ∈ subtractIntervals i covered.toList, gap.Contains t) ↔
      i.Contains t ∧ ∀ c ∈ covered, ¬c.Contains t := by
  cases covered with
  | none =>
    simp only [subtractIntervals, mergeIntervals, Option.toList_none, List.filter_nil,
      List.insertionSort_nil, subtractLoop, restInterval, TimeInterval.Contains]
    split_ifs <;> simp <;> omega
  | some c =>
    by_cases hc : c.start < c.stop
    · simp only [subtractIntervals, mergeIntervals, Option.toList_some, List.filter_cons, hc, decide_true,
        if_true, List.filter_nil, List.insertionSort_cons, List.insertionSort_nil, List.orderedInsert, coalesce, subtractLoop, restInterval,
        TimeInterval.Contains]
      split_ifs <;> simp <;> omega
    · simp only [subtractIntervals, mergeIntervals, Option.toList_some, List.filter_cons, hc,
        decide_false, Bool.false_eq_true, if_false, List.filter_nil, List.insertionSort_nil, subtractLoop,
        restInterval, TimeInterval.Contains]
      split_ifs <;> simp <;> omega

theorem coveredInterval_some {store : List (StoredBar α)} {c : TimeInterval}
    (h : coveredInterval store i = some c) :
    (∃ b ∈ store, i.Contains b.time ∧ b.time = c.start) ∧
      (∃ b ∈ store, i.Contains b.time ∧ b.time = c.stop) ∧
      ∀ b ∈ store, i.Contains b.time → c.start ≤ b.time ∧ b.time ≤ c.stop := by
  unfold coveredInterval at h
  split at h
  · rename_i lo hi hmin hmax
    cases h
    obtain ⟨hlo, hleast⟩ := List.min?_eq_some_iff.mp hmin
    obtain ⟨hhi, hgreatest⟩ := List.max?_eq_some_iff.mp hmax
    obtain ⟨a, ha, rfl⟩ := List.mem_map.mp hlo
    obtain ⟨b, hb, rfl⟩ := List.mem_map.mp hhi
    simp only [barsIn, List.mem_filter, decide_eq_true_eq] at ha hb
    refine ⟨⟨a, ha.1, ha.2, rfl⟩, ⟨b, hb.1, hb.2, rfl⟩, fun x hx hin => ?_⟩
    have hmem : x.time ∈ (barsIn store i).map (·.time) :=
      List.mem_map.mpr ⟨x, List.mem_filter.mpr ⟨hx, by simpa using hin⟩, rfl⟩
    exact ⟨hleast _ hmem, hgreatest _ hmem⟩
  · cases h

/-- Two bars of upstream are the same or a step apart. -/
theorem StoreUnbroken.apart (h : StoreUnbroken step w) {a b : StoredBar α} (ha : a ∈ w.upstream)
    (hb : b ∈ w.upstream) : a = b ∨ a.time + step ≤ b.time ∨ b.time + step ≤ a.time := by
  have hpairs : w.upstream.Pairwise fun a b =>
      a = b ∨ a.time + step ≤ b.time ∨ b.time + step ≤ a.time :=
    h.spaced.imp fun hle => .inr (.inl hle)
  have hflipped : w.upstream.Pairwise (flip fun a b =>
      a = b ∨ a.time + step ≤ b.time ∨ b.time + step ≤ a.time) :=
    h.spaced.imp fun hle => .inr (.inr hle)
  exact List.Pairwise.forall_of_forall_of_flip (fun _ _ => .inl rfl) hpairs hflipped ha hb

/-- A gap of a read is in the window. -/
theorem contains_of_readGap {store : List (StoredBar α)} {gap : TimeInterval} {t : ℤ}
    (hgap : gap ∈ readGaps step store i) (hin : gap.Contains t) : i.Contains t :=
  (exists_gap_iff.mp ⟨gap, hgap, hin⟩).1

/-- Every bar of upstream in the window is stored or in a gap of the read. -/
theorem StoreUnbroken.stored_or_readGap (h : StoreUnbroken step w) (hstep : 0 < step)
    {b : StoredBar α} (hb : b ∈ w.upstream) (hin : i.Contains b.time) :
    b ∈ w.store ∨ ∃ gap ∈ readGaps step w.store i, gap.Contains b.time := by
  by_cases hstored : b ∈ w.store
  · exact .inl hstored
  · refine .inr (exists_gap_iff.mpr ⟨hin, fun c' hc' => ?_⟩)
    obtain ⟨c, hc, rfl⟩ := Option.map_eq_some_iff.mp hc'
    obtain ⟨⟨lo, hlo, -, hlotime⟩, ⟨hi, hhi, -, hhitime⟩, -⟩ := coveredInterval_some hc
    rintro ⟨hfrom, hto⟩
    have hloapart := h.apart (h.stored lo hlo) hb
    have hhiapart := h.apart (h.stored hi hhi) hb
    have hlone : lo ≠ b := fun heq => hstored (heq ▸ hlo)
    have hhine : hi ≠ b := fun heq => hstored (heq ▸ hhi)
    have hbefore : lo.time < b.time := by
      obtain heq | hle | hle := hloapart
      · exact absurd heq hlone
      · omega
      · simp only at hfrom
        omega
    have hafter : b.time < hi.time := by
      obtain heq | hle | hle := hhiapart
      · exact absurd heq hhine
      · simp only at hto
        omega
      · omega
    exact hstored (h.unbroken lo (h.stored lo hlo) b hb hi (h.stored hi hhi) hlo hhi hbefore hafter)

/-- What a read fetches when no fetch is cut off. -/
theorem mem_flatMap_fetchBars {gaps : List TimeInterval} {limit : ℕ}
    (hwhole : ∀ gap ∈ gaps, (barsIn w.upstream gap).length ≤ limit) {b : StoredBar α} :
    b ∈ gaps.flatMap (fetchBars w.upstream limit) ↔
      b ∈ w.upstream ∧ ∃ gap ∈ gaps, gap.Contains b.time := by
  simp only [List.mem_flatMap, fetchBars]
  constructor
  · rintro ⟨gap, hgap, hb⟩
    have hmem := List.mem_of_mem_take hb
    simp only [barsIn, List.mem_filter, decide_eq_true_eq] at hmem
    exact ⟨hmem.1, gap, hgap, hmem.2⟩
  · rintro ⟨hb, gap, hgap, hin⟩
    refine ⟨gap, hgap, ?_⟩
    rw [List.take_of_length_le (hwhole gap hgap)]
    simpa [barsIn] using ⟨hb, hin⟩

/-! ## Sorting and dropping repeated bars -/

theorem mem_dropRepeated {seen : List ℤ} {bars : List (StoredBar α)} {b : StoredBar α}
    (h : b ∈ dropRepeated seen bars) : b ∈ bars ∧ b.time ∉ seen := by
  induction bars generalizing seen with
  | nil => cases h
  | cons bar bars ih =>
    rw [dropRepeated] at h
    split_ifs at h with hseen
    · exact ⟨List.mem_cons_of_mem _ (ih h).1, (ih h).2⟩
    · obtain rfl | hrest := List.mem_cons.mp h
      · exact ⟨List.mem_cons_self, hseen⟩
      · exact ⟨List.mem_cons_of_mem _ (ih hrest).1,
          fun hmem => (ih hrest).2 (List.mem_cons_of_mem _ hmem)⟩

/-- Some bar of each time that was not seen before is kept. -/
theorem exists_mem_dropRepeated {seen : List ℤ} {bars : List (StoredBar α)} {b : StoredBar α}
    (hb : b ∈ bars) (hseen : b.time ∉ seen) : ∃ kept ∈ dropRepeated seen bars, kept.time = b.time := by
  induction bars generalizing seen with
  | nil => cases hb
  | cons bar bars ih =>
    rw [dropRepeated]
    obtain rfl | hrest := List.mem_cons.mp hb
    · rw [if_neg hseen]
      exact ⟨b, List.mem_cons_self, rfl⟩
    · split_ifs with hrepeated
      · exact ih hrest hseen
      · by_cases hsame : b.time = bar.time
        · exact ⟨bar, List.mem_cons_self, hsame.symm⟩
        · obtain ⟨kept, hkept, htime⟩ : ∃ kept ∈ dropRepeated (bar.time :: seen) bars,
              kept.time = b.time := ih hrest (by simp [hsame, hseen])
          exact ⟨kept, List.mem_cons_of_mem _ hkept, htime⟩

theorem dropRepeated_ascending {seen : List ℤ} {bars : List (StoredBar α)}
    (h : bars.Pairwise fun a b => a.time ≤ b.time) :
    (dropRepeated seen bars).Pairwise fun a b => a.time < b.time := by
  induction bars generalizing seen with
  | nil => exact List.Pairwise.nil
  | cons bar bars ih =>
    obtain ⟨hbar, hbars⟩ := List.pairwise_cons.mp h
    rw [dropRepeated]
    split_ifs with hseen
    · exact ih hbars
    · refine List.pairwise_cons.mpr ⟨fun b hb => ?_, ih hbars⟩
      obtain ⟨hmem, hnew⟩ := mem_dropRepeated hb
      have hne : b.time ≠ bar.time := fun heq => hnew (heq ▸ List.mem_cons_self)
      exact lt_of_le_of_ne (hbar b hmem) hne.symm

/-- The merged list is the bars of upstream in the window, if it has these bars and no others. -/
theorem StoreUnbroken.dedupe_eq (h : StoreUnbroken step w) (hstep : 0 < step)
    {bars : List (StoredBar α)} (hbars : ∀ b, b ∈ bars ↔ b ∈ w.upstream ∧ i.Contains b.time) :
    dedupeSortedByTime bars = barsIn w.upstream i := by
  have htotal : Std.Total fun a b : StoredBar α => a.time ≤ b.time :=
    ⟨fun a b => le_total a.time b.time⟩
  have htrans : IsTrans (StoredBar α) fun a b => a.time ≤ b.time := ⟨fun _ _ _ => le_trans⟩
  have hsorted := List.pairwise_insertionSort (fun a b : StoredBar α => a.time ≤ b.time) bars
  have hascending : (barsIn w.upstream i).Pairwise fun a b => a.time < b.time :=
    (h.spaced.imp fun hle => by omega).filter _
  have hirrefl : Std.Irrefl fun a b : StoredBar α => a.time < b.time := ⟨fun a => lt_irrefl a.time⟩
  have hantisymm : Std.Antisymm fun a b : StoredBar α => a.time < b.time :=
    ⟨fun a b hab hba => absurd hba (lt_asymm hab)⟩
  refine List.Pairwise.eq_of_mem_iff (dropRepeated_ascending hsorted) hascending fun b => ?_
  have hin : b ∈ barsIn w.upstream i ↔ b ∈ bars := by
    rw [hbars b]
    simp [barsIn]
  rw [hin]
  constructor
  · exact fun hb => (List.mem_insertionSort _).mp (mem_dropRepeated hb).1
  · intro hb
    obtain ⟨kept, hkept, htime⟩ : ∃ kept ∈ dedupeSortedByTime bars, kept.time = b.time :=
      exists_mem_dropRepeated ((List.mem_insertionSort _).mpr hb) List.not_mem_nil
    have hkeptbar : kept ∈ bars := (List.mem_insertionSort _).mp (mem_dropRepeated hkept).1
    obtain rfl | hle | hle := h.apart ((hbars kept).mp hkeptbar).1 ((hbars b).mp hb).1
    · exact hkept
    · omega
    · omega

/-! ## Steps and runs -/

theorem mem_upsertBars {store rows : List (StoredBar α)}
    (hsame : ∀ a ∈ store ++ rows, ∀ b ∈ store ++ rows, a.time = b.time → a = b) {b : StoredBar α} :
    b ∈ upsertBars store rows ↔ b ∈ store ∨ b ∈ rows := by
  induction rows generalizing store with
  | nil => simp [upsertBars]
  | cons row rows ih =>
    have hstep : ∀ b, b ∈ upsertBar store row ↔ b ∈ store ∨ b = row := by
      intro b
      simp only [upsertBar, List.mem_cons, List.mem_filter, ne_eq, decide_not, Bool.not_eq_true',
        decide_eq_false_iff_not]
      constructor
      · rintro (rfl | ⟨hb, -⟩)
        · exact .inr rfl
        · exact .inl hb
      · rintro (hb | rfl)
        · by_cases htime : b.time = row.time
          · exact .inl (hsame b (by simp [hb]) row (by simp) htime)
          · exact .inr ⟨hb, htime⟩
        · exact .inl rfl
    have hrest : ∀ b, b ∈ upsertBar store row ++ rows ↔ b ∈ store ++ row :: rows := by
      intro b
      simp only [List.mem_append, hstep, List.mem_cons]
      tauto
    have hrun : upsertBars store (row :: rows) = upsertBars (upsertBar store row) rows := rfl
    rw [hrun, ih fun a ha b hb => hsame a ((hrest a).mp ha) b ((hrest b).mp hb), hstep]
    simp only [List.mem_cons]
    tauto

/-- The store after rows of upstream are written that leave no bar out. -/
theorem StoreUnbroken.upsert (h : StoreUnbroken step w) (hstep : 0 < step)
    {rows : List (StoredBar α)} {kept : StoredBar α → Prop} (hrows : ∀ b ∈ rows, b ∈ w.upstream)
    (hkept : ∀ b ∈ w.upstream, kept b ↔ b ∈ w.store ∨ b ∈ rows)
    (hunbroken : Unbroken w.upstream kept) :
    StoreUnbroken step { w with store := upsertBars w.store rows } := by
  have hupstream : ∀ b ∈ w.store ++ rows, b ∈ w.upstream := by
    intro b hb
    obtain hold | hnew := List.mem_append.mp hb
    · exact h.stored b hold
    · exact hrows b hnew
  have hmem : ∀ b, b ∈ upsertBars w.store rows ↔ b ∈ w.store ∨ b ∈ rows := fun b =>
    mem_upsertBars fun a ha c hc htime => by
      obtain heq | hle | hle := h.apart (hupstream a ha) (hupstream c hc)
      · exact heq
      · omega
      · omega
  refine ⟨h.spaced, fun b hb => hupstream b (List.mem_append.mpr ((hmem b).mp hb)), ?_⟩
  intro a ha b hb c hc hka hkc hab hbc
  rw [hmem, ← hkept _ ‹_›] at hka hkc ⊢
  exact hunbroken a ha b hb c hc hka hkc hab hbc

/-- A read with its gaps fetched whole has all bars of upstream in the window. -/
theorem StoreUnbroken.mem_readFetched (h : StoreUnbroken step w) (hstep : 0 < step) {limit : ℕ}
    (hwhole : ∀ gap ∈ readGaps step w.store i, (barsIn w.upstream gap).length ≤ limit)
    {b : StoredBar α} :
    b ∈ selectBars w.store i ++ readFetched step w limit i ↔ b ∈ w.upstream ∧ i.Contains b.time := by
  rw [List.mem_append, readFetched, mem_flatMap_fetchBars hwhole]
  simp only [selectBars, List.mem_insertionSort, barsIn, List.mem_filter, decide_eq_true_eq]
  constructor
  · rintro (⟨hb, hin⟩ | ⟨hb, gap, hgap, hin⟩)
    · exact ⟨h.stored b hb, hin⟩
    · exact ⟨hb, contains_of_readGap hgap hin⟩
  · rintro ⟨hb, hin⟩
    obtain hstored | hgap := h.stored_or_readGap hstep hb hin
    · exact .inl ⟨hstored, hin⟩
    · exact .inr ⟨hb, hgap⟩

/-- A bar of upstream in the window is stored or in a gap of the backfill. -/
theorem StoreUnbroken.stored_or_missing (h : StoreUnbroken step w) (hstep : 0 < step)
    {b : StoredBar α} (hb : b ∈ w.upstream) (hin : i.Contains b.time) :
    b ∈ w.store ∨ ∃ gap ∈ missingRanges w.store i, gap.Contains b.time := by
  by_cases hstored : b ∈ w.store
  · exact .inl hstored
  · refine .inr (exists_gap_iff.mpr ⟨hin, fun c hc => ?_⟩)
    obtain ⟨⟨lo, hlo, -, hlotime⟩, ⟨hi, hhi, -, hhitime⟩, -⟩ := coveredInterval_some hc
    rintro ⟨hfrom, hto⟩
    have hlone : lo.time ≠ b.time := by
      intro htime
      obtain rfl | hle | hle := h.apart (h.stored lo hlo) hb
      · exact hstored hlo
      · omega
      · omega
    exact hstored (h.unbroken lo (h.stored lo hlo) b hb hi (h.stored hi hhi) hlo hhi (by omega)
      (by omega))

theorem storeUnbroken_step (hstep : 0 < step) (h : StoreUnbroken step w) {action : BarAction α}
    (hok : FetchesWhole step w action) (hrun : barStep step w action = some w') :
    StoreUnbroken step w' := by
  cases action with
  | read limit i now =>
    cases hrun
    obtain ⟨hwhole, hunbroken⟩ := hok
    refine h.upsert hstep (fun b hb => ?_) (fun b hb => ?_) hunbroken
    · have hfetched := (List.mem_filter.mp hb).1
      exact ((h.mem_readFetched hstep hwhole).mp (List.mem_append_right _ hfetched)).1
    · simp only [readClosed, readFetched, List.mem_filter, mem_flatMap_fetchBars hwhole,
        decide_eq_true_eq]
      constructor
      · rintro (hstored | ⟨hin, hclosed⟩)
        · exact .inl hstored
        · exact (h.stored_or_readGap hstep hb hin).imp_right fun hgap => ⟨⟨hb, hgap⟩, hclosed⟩
      · rintro (hstored | ⟨⟨-, gap, hgap, hin⟩, hclosed⟩)
        · exact .inl hstored
        · exact .inr ⟨contains_of_readGap hgap hin, hclosed⟩
  | backfill limit i =>
    cases hrun
    obtain ⟨hwhole, hunbroken⟩ := hok
    refine h.upsert hstep (fun b hb => ?_) (fun b hb => ?_) hunbroken
    · exact ((mem_flatMap_fetchBars hwhole).mp hb).1
    · rw [backfillRows, mem_flatMap_fetchBars hwhole]
      constructor
      · rintro (hstored | hin)
        · exact .inl hstored
        · exact (h.stored_or_missing hstep hb hin).imp_right fun hgap => ⟨hb, hgap⟩
      · rintro (hstored | ⟨-, gap, hgap, hin⟩)
        · exact .inl hstored
        · exact .inr (exists_gap_iff.mp ⟨gap, hgap, hin⟩).1
  | arrive bar =>
    simp only [barStep, Option.ite_none_right_eq_some, Option.some.injEq] at hrun
    obtain ⟨hlater, rfl⟩ := hrun
    refine ⟨?_, fun b hb => List.mem_append_left _ (h.stored b hb), ?_⟩
    · exact List.pairwise_append.mpr ⟨h.spaced, List.pairwise_singleton _ _, fun a ha b hb => by
        rw [List.mem_singleton.mp hb]
        exact hlater a ha⟩
    · intro a _ b hb c _ hka hkc hab hbc
      obtain hold | hnew := List.mem_append.mp hb
      · exact h.unbroken a (h.stored a hka) b hold c (h.stored c hkc) hka hkc hab hbc
      · have hc := hlater c (h.stored c hkc)
        rw [List.mem_singleton.mp hnew] at hbc
        omega

/-- **Reads through the store are complete.** In every run of reads and backfill passes from an
empty store, with bars arriving upstream, in which no fetch is cut off at its limit and no step
leaves out an upstream bar between the bars stored then: a read returns the most recent bars,
up to its limit, among all that upstream has in the window. -/
theorem reads_complete (hstep : 0 < step) {before : List (BarAction α)} {limit : ℕ} {now : ℤ}
    (hspaced : w.upstream.Pairwise fun a b => a.time + step ≤ b.time) (hempty : w.store = [])
    (hmeets : Transition.Meets (barStep step) (FetchesWhole step) w (before ++ [.read limit i now]))
    (hrun : Transition.run (barStep step) w before = some w') :
    readResult step w' limit i = mostRecent limit (barsIn w'.upstream i) := by
  have hinit : StoreUnbroken step w := by
    refine ⟨hspaced, ?_, ?_⟩
    · simp [hempty]
    · intro a _ b _ c _ hka
      rw [hempty] at hka
      cases hka
  have hunbroken : StoreUnbroken step w' :=
    Transition.run_invariant (fun _ _ _ h hok hrun => storeUnbroken_step hstep h hok hrun) hinit
      (Transition.meets_left hmeets) hrun
  have hread := (Transition.meets_of_append hmeets hrun).1
  rw [readResult, hunbroken.dedupe_eq hstep fun b => hunbroken.mem_readFetched hstep hread.1]

end Bars

namespace Sample

def barAt (time : ℤ) : StoredBar Unit := ⟨time, ()⟩

/-- Five bars, a unit of time apart. -/
def fiveBars : BarWorld Unit := ⟨[barAt 0, barAt 1, barAt 2, barAt 3, barAt 4], []⟩

end Sample

theorem reads_complete_extended :
    ∃ w', Transition.run (barStep 1) Sample.fiveBars [.read 10 ⟨1, 3⟩ 100] = some w' ∧
      w'.store.length = 2 ∧
      readResult 1 w' 3 ⟨0, 5⟩ = mostRecent 3 (barsIn w'.upstream ⟨0, 5⟩) := by
  have hmeets : Transition.Meets (barStep 1) (FetchesWhole 1) Sample.fiveBars
      ([.read 10 ⟨1, 3⟩ 100] ++ [.read 3 ⟨0, 5⟩ 100]) := by
    refine Transition.meets_cons rfl ⟨by decide, by decide⟩ ?_
    exact Transition.meets_cons rfl ⟨by decide, by decide⟩ trivial
  exact ⟨_, rfl, by decide,
    reads_complete Int.one_pos (by decide) rfl hmeets rfl⟩

/-- The first read is cut off at the oldest two bars; the third misses the bars between those
and the one that the second has stored. -/
theorem truncated_reads_leave_hole :
    (readResult 1 Sample.fiveBars 2 ⟨0, 5⟩).map (·.time) = [0, 1] ∧
      ((mostRecent 2 (barsIn Sample.fiveBars.upstream ⟨0, 5⟩)).map (·.time)) = [3, 4] ∧
      ∃ w', Transition.run (barStep 1) Sample.fiveBars
          [.read 2 ⟨0, 5⟩ 100, .read 2 ⟨4, 5⟩ 100] = some w' ∧
        (readResult 1 w' 10 ⟨0, 5⟩).map (·.time) = [0, 1, 4] ∧
        (mostRecent 10 (barsIn w'.upstream ⟨0, 5⟩)).map (·.time) = [0, 1, 2, 3, 4] := by
  refine ⟨by decide, by decide, _, rfl, by decide, by decide⟩

end LlamaTrade
