import LlamaTrade.BarHistory
import LlamaTrade.StrategyTree
import Mathlib.Data.List.Induction
import Mathlib.Data.List.Infix

/-!
# Live history and backtest history

A session stores the snapshots that `FormingBarFeed` yields: a bar that carries the timestamp of
the last one replaces it. A backtest stores the completed bar of every period. The two histories
are the same when the last bar of every period, over all subscribed symbols, is one at which the
feed yields; the session never sees what a period's bars add after the feed's last tick in it.
-/

namespace LlamaTrade

variable {T K : Type} [LinearOrder T]

/-! ## The session's history -/

/-- `CompiledStrategy.add_bars`. -/
def addBars (window : ℕ) (history : String → List (Bar T K)) (bars : Snapshot T K) :
    String → List (Bar T K) :=
  fun s => match bars s with
    | none => history s
    | some bar => addBar window (history s) bar

/-- A bar of the intraday source, with the answer of the gate. -/
structure MinuteBar (T K : Type) where
  symbol : String
  bar : Bar T K
  gate : Bool

/-- A live session: the feed, and the history of its strategy. -/
structure LiveWorld (T K : Type) where
  feed : FeedState T K
  history : String → List (Bar T K)

def LiveWorld.fresh : LiveWorld T K := ⟨.fresh fun _ => none, fun _ => []⟩

/-- A bar arrives; if the feed yields, the session adds the snapshot to its history. -/
def LiveWorld.step [LinearOrder K] (grid : PeriodGrid T) (symbols : List String) (window : ℕ) (w : LiveWorld T K)
    (e : MinuteBar T K) : LiveWorld T K :=
  match w.feed.iterate grid symbols e.gate e.symbol e.bar with
  | (feed, none) => ⟨feed, w.history⟩
  | (feed, some (_, bars)) => ⟨feed, addBars window w.history bars⟩

/-- The feed yields at the bar. -/
def LiveWorld.yields [LinearOrder K] (grid : PeriodGrid T) (symbols : List String) (w : LiveWorld T K)
    (e : MinuteBar T K) : Bool :=
  (w.feed.iterate grid symbols e.gate e.symbol e.bar).2.isSome

/-! ## The backtest's history -/

/-- The fold of the bars of one period: first open, highest high, lowest low, last close, summed
volume. -/
def periodBar [LinearOrder K] (grid : PeriodGrid T) : List (Bar T K) → Option (Bar T K)
  | [] => none
  | bar :: bars => some (bars.foldl extendBar (openBar (grid.start bar.timestamp) bar))

/-- The bars of a symbol in a period. -/
def barsOf (grid : PeriodGrid T) (symbol : String) (period : T) (events : List (MinuteBar T K)) :
    List (Bar T K) :=
  (events.filter fun e => e.symbol = symbol ∧ grid.start e.bar.timestamp = period).map (·.bar)

/-- The periods of the subscribed symbols' bars, in order. -/
def periodsOf (grid : PeriodGrid T) (symbols : List String) (events : List (MinuteBar T K)) :
    List T :=
  (events.filter (·.symbol ∈ symbols)).foldl (fun periods e =>
    if grid.start e.bar.timestamp ∈ periods then periods
    else periods ++ [grid.start e.bar.timestamp]) []

/-- The bars of each symbol come in the order of their timestamps. -/
def TimeOrdered (events : List (MinuteBar T K)) : Prop :=
  events.Pairwise fun e e' => e.symbol = e'.symbol → e.bar.timestamp ≤ e'.bar.timestamp

/-- The timestamp of the symbol's last bar. -/
def lastTs (symbol : String) (events : List (MinuteBar T K)) : Option T :=
  (events.filter (·.symbol = symbol)).getLast?.map (·.bar.timestamp)

/-- The last bar of every subscribed symbol is at `ts`. -/
def LinedUp (symbols : List String) (events : List (MinuteBar T K)) (ts : T) : Prop :=
  ∀ s ∈ symbols, lastTs s events = some ts

/-- The last bar of every period, over all subscribed symbols, finds the gate open and is the
first one at which the symbols line up on its timestamp. -/
def PeriodsCaught (grid : PeriodGrid T) (symbols : List String) :
    List (MinuteBar T K) → List (MinuteBar T K) → Prop
  | _, [] => True
  | before, e :: after =>
    (e.symbol ∈ symbols → ∀ e' ∈ after.find? (·.symbol ∈ symbols),
      grid.start e'.bar.timestamp ≠ grid.start e.bar.timestamp →
        e.gate = true ∧ LinedUp symbols (before ++ [e]) e.bar.timestamp ∧
          ∀ earlier ∈ before.inits, ¬ LinedUp symbols earlier e.bar.timestamp) ∧
    PeriodsCaught grid symbols (before ++ [e]) after

instance (events : List (MinuteBar T K)) : Decidable (TimeOrdered events) :=
  inferInstanceAs (Decidable (events.Pairwise fun e e' =>
    e.symbol = e'.symbol → e.bar.timestamp ≤ e'.bar.timestamp))

instance (symbols : List String) (events : List (MinuteBar T K)) (ts : T) :
    Decidable (LinedUp symbols events ts) :=
  inferInstanceAs (Decidable (∀ s ∈ symbols, lastTs s events = some ts))

instance decidablePeriodsCaught (grid : PeriodGrid T) (symbols : List String) :
    (before events : List (MinuteBar T K)) → Decidable (PeriodsCaught grid symbols before events)
  | _, [] => .isTrue trivial
  | before, e :: after =>
    have := decidablePeriodsCaught grid symbols (before ++ [e]) after
    inferInstanceAs (Decidable (_ ∧ PeriodsCaught grid symbols (before ++ [e]) after))

/-- As `PeriodsCaught`, along a run of the feed. `last` is the period of the subscribed bar before,
with whether the feed yielded at it. -/
def PeriodsSeen [LinearOrder K] (grid : PeriodGrid T) (symbols : List String) (window : ℕ) :
    LiveWorld T K → Option (T × Bool) → List (MinuteBar T K) → Prop
  | _, _, [] => True
  | w, last, e :: events =>
    if e.symbol ∈ symbols then
      (∀ period yielded, last = some (period, yielded) →
        period = grid.start e.bar.timestamp ∨ yielded = true) ∧
      PeriodsSeen grid symbols window (w.step grid symbols window e)
        (some (grid.start e.bar.timestamp, w.yields grid symbols e)) events
    else PeriodsSeen grid symbols window (w.step grid symbols window e) last events

/-! ## Lemmas -/

section Folds

variable {grid : PeriodGrid T} {symbols : List String}

theorem barsOf_append (symbol : String) (period : T) (events events' : List (MinuteBar T K)) :
    barsOf grid symbol period (events ++ events') =
      barsOf grid symbol period events ++ barsOf grid symbol period events' := by
  rw [barsOf, List.filter_append, List.map_append, ← barsOf, ← barsOf]

theorem barsOf_concat (symbol : String) (period : T) (events : List (MinuteBar T K))
    (e : MinuteBar T K) :
    barsOf grid symbol period (events ++ [e]) = barsOf grid symbol period events ++
      if e.symbol = symbol ∧ grid.start e.bar.timestamp = period then [e.bar] else [] := by
  rw [barsOf_append]
  congr 1
  split_ifs with h
  · simp [barsOf, h]
  · simp [barsOf, h]

theorem mem_barsOf {symbol : String} {period : T} {events : List (MinuteBar T K)} {bar : Bar T K} :
    bar ∈ barsOf grid symbol period events ↔ ∃ e ∈ events, e.symbol = symbol ∧
      grid.start e.bar.timestamp = period ∧ e.bar = bar := by
  simp only [barsOf, List.mem_map, List.mem_filter, decide_eq_true_eq, and_assoc]

theorem periodsOf_concat (events : List (MinuteBar T K)) (e : MinuteBar T K) :
    periodsOf grid symbols (events ++ [e]) =
      if e.symbol ∈ symbols ∧ grid.start e.bar.timestamp ∉ periodsOf grid symbols events then
        periodsOf grid symbols events ++ [grid.start e.bar.timestamp]
      else periodsOf grid symbols events := by
  rw [periodsOf, List.filter_append, List.foldl_append, ← periodsOf]
  by_cases hsymbol : e.symbol ∈ symbols
  · by_cases hold : grid.start e.bar.timestamp ∈ periodsOf grid symbols events
    · simp [hsymbol, hold]
    · simp [hsymbol, hold]
  · simp [hsymbol]

theorem mem_periodsOf {done : List (MinuteBar T K)} {p : T} :
    p ∈ periodsOf grid symbols done ↔
      ∃ e ∈ done, e.symbol ∈ symbols ∧ grid.start e.bar.timestamp = p := by
  induction done using List.reverseRecOn with
  | nil => exact ⟨fun h => absurd h List.not_mem_nil, fun ⟨_, h, _⟩ => absurd h List.not_mem_nil⟩
  | append_singleton done e ih =>
    have hsplit : (∃ e' ∈ done ++ [e], e'.symbol ∈ symbols ∧ grid.start e'.bar.timestamp = p) ↔
        p ∈ periodsOf grid symbols done ∨ e.symbol ∈ symbols ∧ grid.start e.bar.timestamp = p := by
      rw [ih]
      simp only [List.mem_append, List.mem_singleton, or_and_right, exists_or, exists_eq_left]
    rw [hsplit, periodsOf_concat]
    split_ifs with hnew
    · simp only [List.mem_append, List.mem_singleton, hnew.1, true_and, eq_comm]
    · constructor
      · exact .inl
      · rintro (hold | ⟨hsymbol, rfl⟩)
        · exact hold
        · by_contra hnot
          exact hnew ⟨hsymbol, hnot⟩

theorem periodsOf_skip {done : List (MinuteBar T K)} {e : MinuteBar T K}
    (hsymbol : e.symbol ∉ symbols) :
    periodsOf grid symbols (done ++ [e]) = periodsOf grid symbols done := by
  rw [periodsOf_concat, if_neg fun h => hsymbol h.1]

theorem barsOf_eq_nil {done : List (MinuteBar T K)} {s : String} {p : T} (hs : s ∈ symbols)
    (h : p ∉ periodsOf grid symbols done) : barsOf grid s p done = [] := by
  rw [List.eq_nil_iff_forall_not_mem]
  intro bar hbar
  obtain ⟨e, he, hsym, hperiod, -⟩ := mem_barsOf.mp hbar
  exact h (mem_periodsOf.mpr ⟨e, he, hsym ▸ hs, hperiod⟩)

variable [LinearOrder K]

theorem periodBar_concat {bars : List (Bar T K)} {folded : Bar T K} (bar : Bar T K)
    (h : periodBar grid bars = some folded) :
    periodBar grid (bars ++ [bar]) = some (extendBar folded bar) := by
  cases bars with
  | nil => cases h
  | cons first rest =>
    cases h
    rw [List.cons_append, periodBar, List.foldl_append, List.foldl_cons, List.foldl_nil]

omit [LinearOrder T] in
theorem foldl_extendBar_timestamp (bars : List (Bar T K)) (bar : Bar T K) :
    (bars.foldl extendBar bar).timestamp = bar.timestamp := by
  induction bars generalizing bar with
  | nil => rfl
  | cons next bars ih =>
    rw [List.foldl_cons, ih]
    rfl

/-- The bar of a period is stamped at the start of the period. -/
theorem periodBar_timestamp {symbol : String} {period : T} {events : List (MinuteBar T K)}
    {folded : Bar T K} (h : periodBar grid (barsOf grid symbol period events) = some folded) :
    folded.timestamp = period := by
  cases hbars : barsOf grid symbol period events with
  | nil =>
    rw [hbars] at h
    cases h
  | cons first rest =>
    have hfirst : first ∈ barsOf grid symbol period events := by
      rw [hbars]
      exact List.mem_cons_self ..
    obtain ⟨e, -, -, hperiod, rfl⟩ := mem_barsOf.mp hfirst
    rw [hbars, periodBar, Option.some.injEq] at h
    rw [← h, foldl_extendBar_timestamp]
    exact hperiod

theorem periodBar_eq_none {bars : List (Bar T K)} : periodBar grid bars = none ↔ bars = [] := by
  cases bars with
  | nil => exact ⟨fun _ => rfl, fun _ => rfl⟩
  | cons first rest => exact ⟨nofun, nofun⟩

/-- What the feed keeps after a bar of a subscribed symbol, and what it yields. -/
theorem iterate_spec (grid : PeriodGrid T) (symbols : List String) (st : FeedState T K) (gate : Bool) {symbol : String} (bar : Bar T K)
    (hsymbol : symbol ∈ symbols) :
    let next := st.iterate grid symbols gate symbol bar
    next.1.forming = (st.receive grid symbol bar).forming ∧
      next.1.latest = (st.receive grid symbol bar).latest ∧
      next.1.latestTs = (st.receive grid symbol bar).latestTs ∧
      (next.2 = none ∨ next.2 = some (bar.timestamp, (st.receive grid symbol bar).latest) ∧
        (st.receive grid symbol bar).reported symbols bar.timestamp = true) := by
  simp only [FeedState.iterate, if_pos hsymbol]
  split_ifs with hreported hlast hgate
  · exact ⟨rfl, rfl, rfl, .inl rfl⟩
  · exact ⟨rfl, rfl, rfl, .inl rfl⟩
  · exact ⟨rfl, rfl, rfl, .inl rfl⟩
  · exact ⟨rfl, rfl, rfl, .inr ⟨rfl, by simpa using hreported⟩⟩

end Folds

/-! ## The invariant -/

/-- A symbol of a live session in which the period `period` is in progress and the `completed`
ones are over. -/
structure SymbolParity [LinearOrder K] (grid : PeriodGrid T) (window : ℕ)
    (done : List (MinuteBar T K)) (w : LiveWorld T K) (completed : List T) (period : T)
    (yielded : Bool) (s : String) : Prop where
  forming : w.feed.forming s = periodBar grid (barsOf grid s period done) ∨
    (barsOf grid s period done = [] ∧
      ∀ bar, w.feed.forming s = some bar → grid.start bar.timestamp ≠ period)
  latest : w.feed.latest s = w.feed.forming s
  latestTs : ∀ ts, w.feed.latestTs s = some ts → ∃ e ∈ done, e.symbol = s ∧ e.bar.timestamp = ts
  history : ∃ slots : List (Bar T K),
    slots.map some = (completed.map fun p => periodBar grid (barsOf grid s p done)) ∧
      ((yielded = false ∧ w.history s = lastBars window slots) ∨
        ∃ bar, bar.timestamp = period ∧ w.history s = lastBars window (slots ++ [bar]) ∧
          (yielded = true → periodBar grid (barsOf grid s period done) = some bar))

/-- A live session after the bars of `done`. -/
structure LiveParity [LinearOrder K] (grid : PeriodGrid T) (symbols : List String) (window : ℕ)
    (done : List (MinuteBar T K)) (w : LiveWorld T K) (completed : List T) (period : T)
    (yielded : Bool) : Prop where
  symbol : ∀ s ∈ symbols, SymbolParity grid window done w completed period yielded s
  periods : periodsOf grid symbols done = completed ++ [period]
  passed : ∀ p ∈ completed, p < period
  tick : yielded = true → ∃ ts, grid.start ts = period ∧ ∀ s ∈ symbols, w.feed.latestTs s = some ts

section Parity

variable [LinearOrder K] {grid : PeriodGrid T} {symbols : List String} {window : ℕ}
  {done : List (MinuteBar T K)} {w : LiveWorld T K} {completed : List T} {period : T}
  {yielded : Bool} {e : MinuteBar T K} {s : String}

/-- The stored bars of completed periods are stamped with them. -/
theorem slot_timestamp_mem {slots : List (Bar T K)}
    (h : slots.map some = completed.map fun p => periodBar grid (barsOf grid s p done)) :
    ∀ slot ∈ slots, slot.timestamp ∈ completed := by
  intro slot hslot
  have hmem : some slot ∈ completed.map fun p => periodBar grid (barsOf grid s p done) := by
    rw [← h]
    exact List.mem_map_of_mem hslot
  obtain ⟨p, hp, hbar⟩ := List.mem_map.mp hmem
  rw [periodBar_timestamp hbar]
  exact hp

/-- A session between two bars, as a step of the feed leaves it: the bar is folded, and if the
feed yields the snapshot is stored. -/
theorem step_subscribed (grid : PeriodGrid T) (window : ℕ) (w : LiveWorld T K)
    (hsymbol : e.symbol ∈ symbols) :
    let next := w.step grid symbols window e
    let received := w.feed.receive grid e.symbol e.bar
    next.feed.forming = received.forming ∧ next.feed.latest = received.latest ∧
      next.feed.latestTs = received.latestTs ∧
      ((w.yields grid symbols e = false ∧ next.history = w.history) ∨
        (w.yields grid symbols e = true ∧ next.history = addBars window w.history received.latest ∧
          received.reported symbols e.bar.timestamp = true)) := by
  obtain ⟨hforming, hlatest, hts, hsnd⟩ :=
    iterate_spec grid symbols w.feed e.gate e.bar hsymbol
  unfold LiveWorld.step LiveWorld.yields
  obtain hnone | ⟨hsome, hreported⟩ := hsnd
  · generalize w.feed.iterate grid symbols e.gate e.symbol e.bar = next at *
    obtain ⟨feed, out⟩ := next
    simp only at hnone hforming hlatest hts
    subst hnone
    exact ⟨hforming, hlatest, hts, .inl ⟨rfl, rfl⟩⟩
  · generalize w.feed.iterate grid symbols e.gate e.symbol e.bar = next at *
    obtain ⟨feed, out⟩ := next
    simp only at hsome hforming hlatest hts
    subst hsome
    exact ⟨hforming, hlatest, hts, .inr ⟨rfl, rfl, hreported⟩⟩

/-- The forming bar after a bar of the period in progress. -/
theorem formingBar_eq_periodBar {current : Option (Bar T K)} {bars : List (Bar T K)}
    {bar : Bar T K} (hperiod : grid.start bar.timestamp = period)
    (hstamp : ∀ folded, periodBar grid bars = some folded → grid.start folded.timestamp = period)
    (h : current = periodBar grid bars ∨
      (bars = [] ∧ ∀ c, current = some c → grid.start c.timestamp ≠ period)) :
    some (formingBar grid current bar) = periodBar grid (bars ++ [bar]) := by
  have hopen : (∀ c, current = some c → grid.start c.timestamp ≠ period) →
      formingBar grid current bar = openBar (grid.start bar.timestamp) bar := by
    intro hother
    unfold formingBar
    split
    · rfl
    · rename_i c
      rw [if_pos]
      rw [hperiod]
      exact hother c rfl
  obtain hfolded | ⟨rfl, hother⟩ := h
  · cases hbars : periodBar grid bars with
    | none =>
      rw [periodBar_eq_none] at hbars
      subst hbars
      rw [hopen (by rw [hfolded]; exact nofun)]
      rfl
    | some folded =>
      rw [periodBar_concat bar hbars, hfolded, hbars, formingBar, if_neg]
      rw [not_not, hperiod]
      exact hstamp folded hbars
  · rw [hopen hother]
    rfl

theorem latest_receive (feed : FeedState T K) (symbol : String) (bar : Bar T K)
    (h : feed.latest s = feed.forming s) :
    (feed.receive grid symbol bar).latest s = (feed.receive grid symbol bar).forming s := by
  by_cases heq : s = symbol
  · subst heq
    simp only [FeedState.receive, Function.update_self]
  · simp only [FeedState.receive, Function.update_of_ne heq]
    exact h

/-- A bar of the period in progress. -/
theorem SymbolParity.fold (h : SymbolParity grid window done w completed period false s)
    (hwindow : 0 < window) (hsymbol : e.symbol ∈ symbols) (hs : s ∈ symbols)
    (hperiod : grid.start e.bar.timestamp = period) (hover : ∀ p ∈ completed, p < period) :
    SymbolParity grid window (done ++ [e]) (w.step grid symbols window e) completed period
      (w.yields grid symbols e) s := by
  obtain ⟨hforming, hlatest, hts, hhistory⟩ := step_subscribed grid window w hsymbol
  have hstart : grid.start period = period := by rw [← hperiod, grid.start_start]
  have hstamp : ∀ folded, periodBar grid (barsOf grid s period done) = some folded →
      grid.start folded.timestamp = period := by
    intro folded hfolded
    rw [periodBar_timestamp hfolded, hstart]
  have hnew : (w.step grid symbols window e).feed.forming s =
        periodBar grid (barsOf grid s period (done ++ [e])) ∨
      (barsOf grid s period (done ++ [e]) = [] ∧ ∀ bar,
        (w.step grid symbols window e).feed.forming s = some bar →
          grid.start bar.timestamp ≠ period) := by
    rw [hforming, barsOf_concat]
    by_cases heq : e.symbol = s
    · subst heq
      left
      simp only [FeedState.receive, Function.update_self, hperiod, and_self, if_true]
      exact formingBar_eq_periodBar hperiod hstamp h.forming
    · simp only [FeedState.receive, Function.update_of_ne (Ne.symm heq), heq, false_and, if_false,
        List.append_nil]
      exact h.forming
  have hlatestTs : ∀ ts, (w.step grid symbols window e).feed.latestTs s = some ts →
      ∃ e' ∈ done ++ [e], e'.symbol = s ∧ e'.bar.timestamp = ts := by
    intro ts hsome
    rw [hts] at hsome
    by_cases heq : s = e.symbol
    · subst heq
      simp only [FeedState.receive, Function.update_self, Option.some.injEq] at hsome
      exact ⟨e, List.mem_append_right _ (List.mem_singleton_self e), rfl, hsome⟩
    · simp only [FeedState.receive, Function.update_of_ne heq] at hsome
      obtain ⟨e', he', hsym⟩ := h.latestTs ts hsome
      exact ⟨e', List.mem_append_left _ he', hsym⟩
  have hkept : (completed.map fun p => periodBar grid (barsOf grid s p (done ++ [e]))) =
      completed.map fun p => periodBar grid (barsOf grid s p done) := by
    refine List.map_congr_left fun p hp => ?_
    rw [barsOf_concat, if_neg, List.append_nil]
    rintro ⟨-, hsame⟩
    exact absurd (hover p hp) (by rw [← hsame, hperiod]; exact lt_irrefl _)
  refine ⟨hnew, ?_, hlatestTs, ?_⟩
  · rw [hlatest, hforming]
    exact latest_receive w.feed e.symbol e.bar h.latest
  · obtain ⟨slots, hslots, hstored⟩ := h.history
    refine ⟨slots, hkept ▸ hslots, ?_⟩
    obtain ⟨hno, hsame⟩ | ⟨hyes, hadded, hreported⟩ := hhistory
    · rw [hno, hsame]
      obtain ⟨-, hstored⟩ | ⟨bar, hbar, hstored, -⟩ := hstored
      · exact .inl ⟨rfl, hstored⟩
      · exact .inr ⟨bar, hbar, hstored, nofun⟩
    · -- the snapshot has the fold of all bars of the period so far
      have hreportedTs : (w.step grid symbols window e).feed.latestTs s = some e.bar.timestamp := by
        rw [hts]
        simpa using List.all_eq_true.mp hreported s hs
      obtain ⟨e', he', hsym', hts'⟩ := hlatestTs _ hreportedTs
      have hmem : e'.bar ∈ barsOf grid s period (done ++ [e]) :=
        mem_barsOf.mpr ⟨e', he', hsym', by rw [hts', hperiod], rfl⟩
      have hne : barsOf grid s period (done ++ [e]) ≠ [] := List.ne_nil_of_mem hmem
      obtain ⟨folded, hfolded⟩ : ∃ folded,
          periodBar grid (barsOf grid s period (done ++ [e])) = some folded := by
        rw [← Option.ne_none_iff_exists', Ne, periodBar_eq_none]
        exact hne
      have hfoldedTs := periodBar_timestamp hfolded
      have hsnapshot : (w.feed.receive grid e.symbol e.bar).latest s = some folded := by
        rw [latest_receive w.feed e.symbol e.bar h.latest, ← hforming]
        obtain heq | ⟨hnil, -⟩ := hnew
        · exact heq.trans hfolded
        · exact absurd hnil hne
      refine .inr ⟨folded, hfoldedTs, ?_, fun _ => hfolded⟩
      rw [hadded, addBars]
      simp only [hsnapshot]
      obtain ⟨-, hstored⟩ | ⟨bar, hbar, hstored, -⟩ := hstored
      · rw [hstored, addBar_new hwindow]
        intro slot hslot hsame
        have hlt := hover _ (slot_timestamp_mem hslots slot hslot)
        rw [hsame, hfoldedTs] at hlt
        exact lt_irrefl _ hlt
      · rw [hstored, addBar_replace hwindow (hbar.trans hfoldedTs.symm)]

/-- Before the first bar every symbol is at the start of the period. -/
theorem SymbolParity.fresh (grid : PeriodGrid T) (window : ℕ) (period : T) (s : String)
    (hdone : ∀ p, barsOf grid s p done = [])
    (hfeed : w.feed.forming s = none ∧ w.feed.latest s = none ∧ w.feed.latestTs s = none)
    (hhistory : w.history s = []) : SymbolParity grid window done w [] period false s := by
  refine ⟨.inr ⟨hdone period, by rw [hfeed.1]; exact nofun⟩, hfeed.2.1.trans hfeed.1.symm,
    by rw [hfeed.2.2]; exact nofun, [], rfl, .inl ⟨rfl, ?_⟩⟩
  rw [hhistory, lastBars, List.drop_nil]

/-- The same period goes on. -/
theorem SymbolParity.continue (h : SymbolParity grid window done w completed period yielded s) :
    SymbolParity grid window done w completed period false s := by
  refine ⟨h.forming, h.latest, h.latestTs, ?_⟩
  obtain ⟨slots, hslots, ⟨-, hstored⟩ | ⟨bar, hbar, hstored, -⟩⟩ := h.history
  · exact ⟨slots, hslots, .inl ⟨rfl, hstored⟩⟩
  · exact ⟨slots, hslots, .inr ⟨bar, hbar, hstored, nofun⟩⟩

/-- The period is over: the last tick has stored the fold of all its bars. -/
theorem SymbolParity.close (h : SymbolParity grid window done w completed period true s) {next : T}
    (hstart : grid.start period = period) (hnext : period ≠ next)
    (hnone : barsOf grid s next done = []) :
    SymbolParity grid window done w (completed ++ [period]) next false s := by
  obtain ⟨slots, hslots, ⟨hfalse, -⟩ | ⟨bar, hbar, hstored, hfolded⟩⟩ := h.history
  · cases hfalse
  · have hfold := hfolded rfl
    have hforming : w.feed.forming s = some bar := by
      obtain heq | ⟨hnil, -⟩ := h.forming
      · exact heq.trans hfold
      · rw [hnil] at hfold
        cases hfold
    refine ⟨.inr ⟨hnone, fun b hb => ?_⟩, h.latest, h.latestTs, slots ++ [bar], ?_,
      .inl ⟨rfl, hstored⟩⟩
    · rw [hforming, Option.some.injEq] at hb
      rw [← hb, hbar, hstart]
      exact hnext
    · rw [List.map_append, List.map_append, hslots, List.map_singleton, List.map_singleton, hfold]

/-- A bar of the period in progress, over all symbols. -/
theorem LiveParity.fold (hwindow : 0 < window) (hsymbol : e.symbol ∈ symbols)
    (h : ∀ s ∈ symbols, SymbolParity grid window done w completed period false s)
    (hperiod : grid.start e.bar.timestamp = period) (hover : ∀ p ∈ completed, p < period)
    (hperiods : periodsOf grid symbols (done ++ [e]) = completed ++ [period]) :
    LiveParity grid symbols window (done ++ [e]) (w.step grid symbols window e) completed period
      (w.yields grid symbols e) := by
  refine ⟨fun s hs => (h s hs).fold hwindow hsymbol hs hperiod hover, hperiods, hover, ?_⟩
  intro hyields
  obtain ⟨-, -, hts, ⟨hno, -⟩ | ⟨-, -, hreported⟩⟩ := step_subscribed grid window w hsymbol
  · rw [hno] at hyields
    cases hyields
  · refine ⟨e.bar.timestamp, hperiod, fun s hs => ?_⟩
    rw [hts]
    simpa using List.all_eq_true.mp hreported s hs

/-- The next bar of a subscribed symbol: the period goes on, or it was over and the next one
begins. -/
theorem LiveParity.next (h : LiveParity grid symbols window done w completed period yielded)
    (hwindow : 0 < window) (hsymbol : e.symbol ∈ symbols) (hordered : TimeOrdered (done ++ [e]))
    (hseen : period = grid.start e.bar.timestamp ∨ yielded = true) :
    ∃ completed', LiveParity grid symbols window (done ++ [e]) (w.step grid symbols window e)
      completed' (grid.start e.bar.timestamp) (w.yields grid symbols e) := by
  by_cases hsame : period = grid.start e.bar.timestamp
  · subst hsame
    refine ⟨completed, LiveParity.fold hwindow hsymbol (fun s hs => (h.symbol s hs).continue) rfl
      h.passed ?_⟩
    rw [periodsOf_concat, if_neg, h.periods]
    rw [h.periods]
    simp
  · obtain rfl : yielded = true := hseen.resolve_left hsame
    obtain ⟨ts, hts, hticked⟩ := h.tick rfl
    -- every symbol has reached the end of the period, so the bar is a later one
    obtain ⟨e', he', hsym', hts'⟩ := (h.symbol e.symbol hsymbol).latestTs ts (hticked _ hsymbol)
    have hle : ts ≤ e.bar.timestamp := by
      rw [← hts']
      exact (List.pairwise_append.mp hordered).2.2 e' he' e (List.mem_singleton_self e) hsym'
    have hlt : period < grid.start e.bar.timestamp :=
      lt_of_le_of_ne (hts ▸ grid.monotone hle) hsame
    have hfresh : grid.start e.bar.timestamp ∉ periodsOf grid symbols done := by
      rw [h.periods, List.mem_append, List.mem_singleton]
      rintro (hold | heq)
      · exact absurd (h.passed _ hold) (not_lt.mpr hlt.le)
      · exact hsame heq.symm
    have hstart : grid.start period = period := by rw [← hts, grid.start_start]
    refine ⟨completed ++ [period], LiveParity.fold hwindow hsymbol (fun s hs => ?_) rfl ?_ ?_⟩
    · exact (h.symbol s hs).close hstart hsame (barsOf_eq_nil hs hfresh)
    · intro p hp
      obtain hold | heq := List.mem_append.mp hp
      · exact (h.passed p hold).trans hlt
      · exact (List.mem_singleton.mp heq) ▸ hlt
    · rw [periodsOf_concat, if_pos ⟨hsymbol, hfresh⟩, h.periods]

/-! ## Runs -/

/-- A live session after the bars of `done`, when `last` is the period of the last subscribed bar
with whether the feed yielded at it. -/
def LiveKnown (grid : PeriodGrid T) (symbols : List String) (window : ℕ)
    (done : List (MinuteBar T K)) (w : LiveWorld T K) : Option (T × Bool) → Prop
  | none => periodsOf grid symbols done = [] ∧ ∀ s ∈ symbols,
    (w.feed.forming s = none ∧ w.feed.latest s = none ∧ w.feed.latestTs s = none) ∧ w.history s = []
  | some (period, yielded) => ∃ completed,
    LiveParity grid symbols window done w completed period yielded

theorem step_skip (hsymbol : e.symbol ∉ symbols) : w.step grid symbols window e = w := by
  simp [LiveWorld.step, FeedState.iterate, hsymbol]

/-- A bar of another symbol changes nothing. -/
theorem LiveKnown.skip {last : Option (T × Bool)} (h : LiveKnown grid symbols window done w last)
    (hsymbol : e.symbol ∉ symbols) : LiveKnown grid symbols window (done ++ [e]) w last := by
  cases last with
  | none => exact ⟨(periodsOf_skip hsymbol).trans h.1, h.2⟩
  | some last =>
    obtain ⟨completed, hparity⟩ := h
    refine ⟨completed, fun s hs => ?_, (periodsOf_skip hsymbol).trans hparity.periods, hparity.passed,
      hparity.tick⟩
    have hbars : ∀ p, barsOf grid s p (done ++ [e]) = barsOf grid s p done := by
      intro p
      rw [barsOf_concat, if_neg, List.append_nil]
      rintro ⟨rfl, -⟩
      exact hsymbol hs
    obtain ⟨hforming, hlatest, hts, hhistory⟩ := hparity.symbol s hs
    refine ⟨by simpa only [hbars] using hforming, hlatest, fun ts hsome => ?_,
      by simpa only [hbars] using hhistory⟩
    obtain ⟨e', he', hsym⟩ := hts ts hsome
    exact ⟨e', List.mem_append_left _ he', hsym⟩

/-- A bar of a subscribed symbol. -/
theorem LiveKnown.next {last : Option (T × Bool)} (h : LiveKnown grid symbols window done w last)
    (hwindow : 0 < window) (hsymbol : e.symbol ∈ symbols) (hordered : TimeOrdered (done ++ [e]))
    (hseen : ∀ period yielded, last = some (period, yielded) →
      period = grid.start e.bar.timestamp ∨ yielded = true) :
    LiveKnown grid symbols window (done ++ [e]) (w.step grid symbols window e)
      (some (grid.start e.bar.timestamp, w.yields grid symbols e)) := by
  cases last with
  | none =>
    refine ⟨[], LiveParity.fold hwindow hsymbol (fun s hs => ?_) rfl
      (fun p hp => absurd hp List.not_mem_nil) ?_⟩
    · refine SymbolParity.fresh grid window _ s (fun p => barsOf_eq_nil hs ?_) (h.2 s hs).1
        (h.2 s hs).2
      rw [h.1]
      exact List.not_mem_nil
    · rw [periodsOf_concat, h.1, if_pos ⟨hsymbol, List.not_mem_nil⟩]
  | some last =>
    obtain ⟨completed, hparity⟩ := h
    exact hparity.next hwindow hsymbol hordered (hseen _ _ rfl)

/-- What is known after the first bars of a stream. -/
theorem LiveKnown.run {last : Option (T × Bool)} {events after : List (MinuteBar T K)}
    (h : LiveKnown grid symbols window done w last) (hwindow : 0 < window)
    (hordered : TimeOrdered (done ++ events))
    (hseen : PeriodsSeen grid symbols window w last (events ++ after)) :
    ∃ last', LiveKnown grid symbols window (done ++ events)
        (events.foldl (LiveWorld.step grid symbols window) w) last' ∧
      PeriodsSeen grid symbols window (events.foldl (LiveWorld.step grid symbols window) w) last'
        after := by
  induction events generalizing done w last with
  | nil => exact ⟨last, by rwa [List.append_nil], hseen⟩
  | cons e events ih =>
    have hassoc : done ++ e :: events = (done ++ [e]) ++ events := by simp
    rw [hassoc] at hordered ⊢
    have hfirst : TimeOrdered (done ++ [e]) := (List.pairwise_append.mp hordered).1
    rw [List.cons_append, PeriodsSeen] at hseen
    by_cases hsymbol : e.symbol ∈ symbols
    · rw [if_pos hsymbol] at hseen
      exact ih (h.next hwindow hsymbol hfirst hseen.1) hordered hseen.2
    · rw [if_neg hsymbol] at hseen
      have hstep : w.step grid symbols window e = w := step_skip hsymbol
      rw [hstep] at hseen
      rw [List.foldl_cons, hstep]
      exact ih (h.skip hsymbol) hordered hseen

end Parity

section Ticks

variable {grid : PeriodGrid T} {symbols : List String} {window : ℕ} {done : List (MinuteBar T K)}
  {e : MinuteBar T K}

omit [LinearOrder T] in
theorem lastTs_concat (symbol : String) (events : List (MinuteBar T K)) (e : MinuteBar T K) :
    lastTs symbol (events ++ [e]) =
      if e.symbol = symbol then some e.bar.timestamp else lastTs symbol events := by
  rw [lastTs, List.filter_append]
  split_ifs with h
  · simp [h]
  · simp [h, lastTs]

/-- The feed has the timestamps of the last bars, and has evaluated a timestamp only if the
symbols lined up on it. -/
def FeedRead (symbols : List String) (done : List (MinuteBar T K)) (feed : FeedState T K) : Prop :=
  (∀ s ∈ symbols, feed.latestTs s = lastTs s done) ∧
    ∀ ts, feed.lastEvaluated = some ts → ∃ earlier ∈ done.inits, LinedUp symbols earlier ts

variable [LinearOrder K] {w : LiveWorld T K}

theorem FeedRead.receive (h : FeedRead symbols done w.feed) (grid : PeriodGrid T) :
    ∀ s ∈ symbols, (w.feed.receive grid e.symbol e.bar).latestTs s = lastTs s (done ++ [e]) := by
  intro s hs
  rw [lastTs_concat]
  split_ifs with hsym
  · simp [FeedState.receive, hsym]
  · simp [FeedState.receive, Ne.symm hsym, h.1 s hs]

theorem FeedRead.reported (h : FeedRead symbols done w.feed) (grid : PeriodGrid T) (ts : T) :
    (w.feed.receive grid e.symbol e.bar).reported symbols ts = true ↔
      LinedUp symbols (done ++ [e]) ts := by
  rw [FeedState.reported, List.all_eq_true]
  refine forall₂_congr fun s hs => ?_
  rw [decide_eq_true_iff, h.receive grid s hs]

theorem FeedRead.step (h : FeedRead symbols done w.feed) :
    FeedRead symbols (done ++ [e]) (w.step grid symbols window e).feed := by
  have hstep : (w.step grid symbols window e).feed =
      (w.feed.iterate grid symbols e.gate e.symbol e.bar).1 := by
    unfold LiveWorld.step
    split
    · rename_i hiterate
      rw [hiterate]
    · rename_i hiterate
      rw [hiterate]
  have hinits : ∀ earlier ∈ done.inits, earlier ∈ (done ++ [e]).inits := fun earlier hearlier =>
    (List.mem_inits _ _).mpr (((List.mem_inits _ _).mp hearlier).trans (List.prefix_append ..))
  have hold : ∀ ts, w.feed.lastEvaluated = some ts →
      ∃ earlier ∈ (done ++ [e]).inits, LinedUp symbols earlier ts := by
    intro ts hts
    obtain ⟨earlier, hearlier, hlined⟩ := h.2 ts hts
    exact ⟨earlier, hinits earlier hearlier, hlined⟩
  have hnow : (w.feed.receive grid e.symbol e.bar).reported symbols e.bar.timestamp = true →
      ∀ ts, some e.bar.timestamp = some ts →
        ∃ earlier ∈ (done ++ [e]).inits, LinedUp symbols earlier ts := by
    rintro hreported _ ⟨⟩
    exact ⟨done ++ [e], (List.mem_inits _ _).mpr List.prefix_rfl, (h.reported grid _).mp hreported⟩
  rw [hstep]
  by_cases hsymbol : e.symbol ∈ symbols
  · simp only [FeedState.iterate, if_pos hsymbol]
    split_ifs with hreported hlast hgate
    · exact ⟨h.receive grid, hold⟩
    · exact ⟨h.receive grid, hold⟩
    · exact ⟨h.receive grid, hnow (by simpa using hreported)⟩
    · exact ⟨h.receive grid, hnow (by simpa using hreported)⟩
  · rw [FeedState.iterate, if_neg hsymbol]
    refine ⟨fun s hs => ?_, hold⟩
    have hother : e.symbol ≠ s := by
      rintro rfl
      exact hsymbol hs
    rw [lastTs_concat, if_neg hother]
    exact h.1 s hs

/-- The feed yields at the first bar at which the symbols line up on its timestamp. -/
theorem FeedRead.yields (h : FeedRead symbols done w.feed) (hsymbol : e.symbol ∈ symbols)
    (hgate : e.gate = true) (hlined : LinedUp symbols (done ++ [e]) e.bar.timestamp)
    (hfirst : ∀ earlier ∈ done.inits, ¬ LinedUp symbols earlier e.bar.timestamp) :
    w.yields grid symbols e = true := by
  have hlast : w.feed.lastEvaluated ≠ some e.bar.timestamp := by
    intro hts
    obtain ⟨earlier, hearlier, hlined⟩ := h.2 _ hts
    exact hfirst earlier hearlier hlined
  have hreceived : (w.feed.receive grid e.symbol e.bar).lastEvaluated = w.feed.lastEvaluated := rfl
  have hreported := (h.reported grid _).mpr hlined
  simp [LiveWorld.yields, FeedState.iterate, hsymbol, hreported, hreceived, hlast, hgate]

/-- The condition on the bars gives the condition on the run. -/
theorem PeriodsCaught.seen {events : List (MinuteBar T K)} {last : Option (T × Bool)}
    (h : PeriodsCaught grid symbols done events) (hread : FeedRead symbols done w.feed)
    (hlast : ∀ period yielded, last = some (period, yielded) →
      ∀ e ∈ events.find? (·.symbol ∈ symbols), grid.start e.bar.timestamp ≠ period →
        yielded = true) :
    PeriodsSeen grid symbols window w last events := by
  induction events generalizing done w last with
  | nil => trivial
  | cons e events ih =>
    rw [PeriodsSeen]
    split_ifs with hsymbol
    · refine ⟨fun period yielded hsome => ?_, ih h.2 hread.step ?_⟩
      · by_cases hperiod : grid.start e.bar.timestamp = period
        · exact .inl hperiod.symm
        · exact .inr (hlast period yielded hsome e (by simp [hsymbol]) hperiod)
      · rintro _ _ ⟨⟩ e' he' hperiod
        obtain ⟨hgate, hlined, hfirst⟩ := h.1 hsymbol e' he' hperiod
        exact hread.yields hsymbol hgate hlined hfirst
    · refine ih h.2 hread.step fun period yielded hsome e' he' => ?_
      refine hlast period yielded hsome e' ?_
      rw [List.find?_cons_of_neg (by simpa using hsymbol)]
      exact he'

end Ticks

/-- **Live history is backtest history.** Take minute bars that are in order for each symbol, and
any answers of the gate. If the last bar of every period finds the gate open and is the first at
which the symbols line up on its timestamp, then whenever the feed yields, the session's history of a subscribed symbol has one slot for each period, the last one
for the period in progress, and the others hold the folds of all bars of their periods: what a
backtest over the period bars has, as far back as the window goes. -/
theorem live_history_eq_backtest [LinearOrder K] (grid : PeriodGrid T) (symbols : List String)
    (needed : ℕ) {events before after : List (MinuteBar T K)} {e : MinuteBar T K}
    (hordered : TimeOrdered events)
    (hcaught : PeriodsCaught grid symbols [] events)
    (hevents : events = before ++ e :: after)
    (hyields : (before.foldl (LiveWorld.step grid symbols (needed + windowBuffer))
      .fresh).yields grid symbols e = true) :
    ∃ completed, periodsOf grid symbols (before ++ [e]) =
        completed ++ [grid.start e.bar.timestamp] ∧
      (∀ p ∈ completed, p < grid.start e.bar.timestamp) ∧ ∀ s ∈ symbols, ∃ slots forming,
        ((before ++ [e]).foldl (LiveWorld.step grid symbols (needed + windowBuffer))
            .fresh).history s = lastBars (needed + windowBuffer) (slots ++ [forming]) ∧
          forming.timestamp = grid.start e.bar.timestamp ∧
          slots.map some = completed.map fun p => periodBar grid (barsOf grid s p events) := by
  have hwindow : 0 < needed + windowBuffer := Nat.add_pos_right _ (by decide)
  have hassoc : events = (before ++ [e]) ++ after := by rw [hevents]; simp
  have hfresh : LiveKnown grid symbols (needed + windowBuffer) ([] : List (MinuteBar T K)) .fresh
      none := ⟨rfl, fun _ _ => ⟨⟨rfl, rfl, rfl⟩, rfl⟩⟩
  have hseen : PeriodsSeen grid symbols (needed + windowBuffer) .fresh none events :=
    hcaught.seen ⟨fun _ _ => rfl, nofun⟩ nofun
  have hsymbol : e.symbol ∈ symbols := by
    by_contra hnot
    simp [LiveWorld.yields, FeedState.iterate, hnot] at hyields
  have hall : TimeOrdered ((before ++ [e]) ++ after) := hassoc ▸ hordered
  have hfirst : TimeOrdered (before ++ [e]) := (List.pairwise_append.mp hall).1
  obtain ⟨last, hknown, hrest⟩ := hfresh.run hwindow (List.pairwise_append.mp hfirst).1
    (hevents ▸ hseen)
  rw [PeriodsSeen, if_pos hsymbol] at hrest
  obtain ⟨completed, hparity⟩ := hknown.next hwindow hsymbol hfirst hrest.1
  rw [hyields, List.nil_append] at hparity
  refine ⟨completed, hparity.periods, hparity.passed, fun s hs => ?_⟩
  obtain ⟨slots, hslots, ⟨hfalse, -⟩ | ⟨bar, hbar, hstored, -⟩⟩ := (hparity.symbol s hs).history
  · cases hfalse
  · refine ⟨slots, bar, ?_, hbar, hslots.trans (List.map_congr_left fun p hp => ?_)⟩
    · rw [List.foldl_append, List.foldl_cons, List.foldl_nil]
      exact hstored
    · -- the bars that follow are not before the tick, so none of them is in an earlier period
      obtain ⟨ts, hts, hticked⟩ := hparity.tick rfl
      obtain ⟨e', he', hsym', hts'⟩ := (hparity.symbol s hs).latestTs ts (hticked s hs)
      have hlater : barsOf grid s p after = [] := by
        rw [List.eq_nil_iff_forall_not_mem]
        intro b hb
        obtain ⟨e₁, he₁, hsym₁, hperiod₁, -⟩ := mem_barsOf.mp hb
        have hle := (List.pairwise_append.mp hall).2.2 e' he' e₁ he₁
          (hsym'.trans hsym₁.symm)
        have hge := grid.monotone hle
        rw [hts', hts, hperiod₁] at hge
        exact absurd (hparity.passed p hp) (not_lt.mpr hge)
      have hwhole : barsOf grid s p ((before ++ [e]) ++ after) = barsOf grid s p (before ++ [e]) := by
        rw [barsOf_append, hlater, List.append_nil]
      rw [hassoc, hwhole]

namespace Sample

/-- A minute of a symbol, with the gate open. -/
def minuteBar (symbol : String) (minute : ℕ) (price : ℤ) : MinuteBar ℕ ℤ :=
  ⟨symbol, ⟨minute, price, price, price, price, 100⟩, true⟩

/-- Two symbols, both up to the last minute of the first day. -/
def alignedDays : List (MinuteBar ℕ ℤ) :=
  [minuteBar "SPY" 1 50, minuteBar "TLT" 1 90, minuteBar "SPY" 2 51, minuteBar "SPY" 3 52,
    minuteBar "TLT" 3 91, minuteBar "TLT" 1441 92]

/-- Two symbols, of which one misses the last minute of the first day. -/
def missedMinute : List (MinuteBar ℕ ℤ) :=
  [minuteBar "SPY" 1 50, minuteBar "TLT" 1 90, minuteBar "SPY" 2 51, minuteBar "TLT" 1441 92]

end Sample

/-- The feed yields on the second day, after a first day that ends with a tick. -/
theorem live_history_eq_backtest_aligned :
    let world := Sample.alignedDays.foldl
      (LiveWorld.step Sample.days ["SPY", "TLT"] (10 + windowBuffer)) .fresh
    let e := Sample.minuteBar "SPY" 1441 53
    ∃ completed, periodsOf Sample.days ["SPY", "TLT"] (Sample.alignedDays ++ [e]) =
        completed ++ [1440] ∧
      (∀ p ∈ completed, p < 1440) ∧ ∀ s ∈ ["SPY", "TLT"], ∃ slots forming,
        (world.step Sample.days ["SPY", "TLT"] (10 + windowBuffer) e).history s =
            lastBars (10 + windowBuffer) (slots ++ [forming]) ∧
          forming.timestamp = 1440 ∧ slots.map some = completed.map fun p =>
            periodBar Sample.days (barsOf Sample.days s p (Sample.alignedDays ++ [e])) := by
  intro world e
  have hordered : TimeOrdered (Sample.alignedDays ++ [e]) := by decide
  have h := live_history_eq_backtest Sample.days ["SPY", "TLT"] 10 hordered (by decide) rfl
    (by decide)
  have hday : Sample.days.start e.bar.timestamp = 1440 := by decide
  rw [List.foldl_append, hday] at h
  exact h

/-- The minute that one symbol misses never reaches the stored bar of the other. -/
theorem missed_minute_not_stored :
    let e := Sample.minuteBar "SPY" 1441 53
    let world := (Sample.missedMinute ++ [e]).foldl
      (LiveWorld.step Sample.days ["SPY", "TLT"] (10 + windowBuffer)) .fresh
    TimeOrdered (Sample.missedMinute ++ [e]) ∧
      (Sample.missedMinute.foldl (LiveWorld.step Sample.days ["SPY", "TLT"] (10 + windowBuffer))
        .fresh).yields Sample.days ["SPY", "TLT"] e = true ∧
      (world.history "SPY")[0]? ≠
        periodBar Sample.days (barsOf Sample.days "SPY" 0 (Sample.missedMinute ++ [e])) := by
  decide

end LlamaTrade
