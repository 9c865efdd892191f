import LlamaTrade.BarFeeds
import LlamaTrade.TransitionRuns
import Mathlib.Data.Set.Insert

/-!
# The two live loops

A live runner evaluates its session in a loop of its own, or through `StrategyRuntime.stream` over
a `StreamBarFeed`. The first drops a bar that arrives while the runner is paused; the second folds
it and only skips the evaluation. An evaluation that raises is logged by the first and ends the
second. Otherwise the two loops feed the session the same snapshots and take the same orders.
-/

namespace LlamaTrade

variable {T K B : Type} [LinearOrder T]

/-! ## The loops -/

/-- A `StrategySession`: an evaluation gives orders, or raises. Orders are sized against the
prices of the snapshot, so every order is for a symbol that has a bar. -/
structure LiveSession (T K B : Type) where
  State : Type
  Order : Type
  symbol : Order → String
  evaluate : State → Snapshot T K → B → State × Option (List Order)
  priced : ∀ state bars book orders, (evaluate state bars book).2 = some orders →
    ∀ order ∈ orders, (bars (symbol order)).isSome

/-- A bar of the stream, with what the loop finds when it handles it: the pause flag, the answers
of the market hours and of the circuit breaker, and the holdings and equity. -/
structure LoopEvent (T K B : Type) where
  symbol : String
  bar : Bar T K
  paused : Bool
  marketOpen : Bool
  canTrade : Bool
  book : B

/-- A loop: its feed buffers, the session, and what it has evaluated and submitted; `stopped` when
an exception has ended it. -/
structure LoopState (session : LiveSession T K B) where
  feed : FeedState T K
  state : session.State
  log : List (T × Snapshot T K × Option (List session.Order))
  stopped : Bool

/-- A loop before its first bar. -/
def LoopState.fresh (session : LiveSession T K B) (seed : Snapshot T K) (state : session.State) :
    LoopState session :=
  ⟨.fresh seed, state, [], false⟩

namespace LoopState

variable [LinearOrder K] (grid : PeriodGrid T) (symbols : List String) {session : LiveSession T K B}
  (st : LoopState session) (e : LoopEvent T K B)

/-- `_evaluate_session`; an exception is caught by `_process_bar`. -/
def evaluateSession : LoopState session :=
  let feed := st.feed.receive grid e.symbol e.bar
  let ts := e.bar.timestamp
  if !feed.reported symbols ts then { st with feed }
  else if feed.lastEvaluated = some ts then { st with feed }
  else
    let feed := { feed with lastEvaluated := some ts }
    if !e.marketOpen then { st with feed }
    else if !e.canTrade then { st with feed }
    else
      let result := session.evaluate st.state feed.latest e.book
      { st with feed, state := result.1, log := st.log ++ [(ts, feed.latest, result.2)] }

/-- `_process_bar`, for a runner with a session. -/
def processBar : LoopState session :=
  if e.symbol ∈ symbols then st.evaluateSession grid symbols e else st

/-- One turn of the hand-rolled loop of `StrategyRunner.start`. -/
def handRolled : LoopState session := if e.paused then st else st.processBar grid symbols e

/-- `_live_gate`. -/
def liveGate (e : LoopEvent T K B) : Bool := !e.paused && e.marketOpen && e.canTrade

/-- One turn of `StrategyRuntime.stream` over a `StreamBarFeed`. -/
def streamed : LoopState session :=
  if st.stopped then st
  else
    match st.feed.iterate grid symbols (liveGate e) e.symbol e.bar with
    | (feed, none) => { st with feed }
    | (feed, some (ts, bars)) =>
      let result := session.evaluate st.state bars e.book
      { feed, state := result.1, stopped := result.2.isNone,
        log := st.log ++ [(ts, bars, result.2.map fun orders =>
          orders.filter fun order => (bars (session.symbol order)).isSome)] }

end LoopState

/-! ## When they agree -/

/-- No bar that arrives unpaused belongs to a period that had bars before a pause: a pause in
which bars arrive lasts until every period that has begun is over. -/
def PausesLast (grid : PeriodGrid T) (symbols : List String) (seen closed : Set T) :
    List (LoopEvent T K B) → Prop
  | [] => True
  | e :: es =>
    let period := grid.start e.bar.timestamp
    if e.symbol ∈ symbols then
      if e.paused then PausesLast grid symbols (insert period seen) (insert period seen) es
      else period ∉ closed ∧ PausesLast grid symbols (insert period seen) closed es
    else PausesLast grid symbols seen closed es

/-- The hand-rolled loop evaluates its session at the bar. -/
def LoopState.evaluates [LinearOrder K] (grid : PeriodGrid T) (symbols : List String) {session : LiveSession T K B}
    (st : LoopState session) (e : LoopEvent T K B) : Prop :=
  e.paused = false ∧ e.symbol ∈ symbols ∧
    (st.feed.receive grid e.symbol e.bar).reported symbols e.bar.timestamp = true ∧
    st.feed.lastEvaluated ≠ some e.bar.timestamp ∧ e.marketOpen = true ∧ e.canTrade = true

/-- If the hand-rolled loop evaluates its session at the bar, the evaluation does not raise. -/
def EvaluationReturns [LinearOrder K] (grid : PeriodGrid T) (symbols : List String) {session : LiveSession T K B}
    (st : LoopState session) (e : LoopEvent T K B) : Prop :=
  st.evaluates grid symbols e →
    (session.evaluate st.state (st.feed.receive grid e.symbol e.bar).latest e.book).2 ≠ none

/-- The periods of what a feed has kept of the subscribed symbols. -/
structure FeedState.Within (grid : PeriodGrid T) (symbols : List String) (periods : Set T)
    (feed : FeedState T K) : Prop where
  forming : ∀ s ∈ symbols, ∀ bar, feed.forming s = some bar → grid.start bar.timestamp ∈ periods
  latestTs : ∀ s ∈ symbols, ∀ ts, feed.latestTs s = some ts → grid.start ts ∈ periods
  lastEvaluated : ∀ ts, feed.lastEvaluated = some ts → grid.start ts ∈ periods
  unsubscribed : ∀ s, s ∉ symbols → feed.latest s = none

/-- What two feeds have kept is the same, but for what belongs to periods that are over. -/
structure FeedState.Agree (grid : PeriodGrid T) (symbols : List String) (closed : Set T)
    (hand run : FeedState T K) : Prop where
  symbols : ∀ s ∈ symbols,
    (hand.forming s = run.forming s ∧ hand.latest s = run.latest s ∧
      hand.latestTs s = run.latestTs s) ∨
    ((∀ bar, hand.forming s = some bar → grid.start bar.timestamp ∈ closed) ∧
      (∀ bar, run.forming s = some bar → grid.start bar.timestamp ∈ closed) ∧
      (∀ ts, hand.latestTs s = some ts → grid.start ts ∈ closed) ∧
      ∀ ts, run.latestTs s = some ts → grid.start ts ∈ closed)
  lastEvaluated : hand.lastEvaluated = run.lastEvaluated ∨
    ((∀ ts, hand.lastEvaluated = some ts → grid.start ts ∈ closed) ∧
      ∀ ts, run.lastEvaluated = some ts → grid.start ts ∈ closed)

section Buffers

variable {grid : PeriodGrid T} {symbols : List String} {seen closed : Set T}
  {feed hand run : FeedState T K}

theorem FeedState.Within.mono (h : feed.Within grid symbols seen) {seen' : Set T}
    (hsub : seen ⊆ seen') : feed.Within grid symbols seen' :=
  ⟨fun s hs b hb => hsub (h.forming s hs b hb), fun s hs ts hts => hsub (h.latestTs s hs ts hts),
    fun ts hts => hsub (h.lastEvaluated ts hts), h.unsubscribed⟩

theorem FeedState.Within.evaluated (h : feed.Within grid symbols seen) {ts : T}
    (hts : grid.start ts ∈ seen) :
    FeedState.Within grid symbols seen { feed with lastEvaluated := some ts } :=
  ⟨h.forming, h.latestTs, fun _ hsome => Option.some.inj hsome ▸ hts, h.unsubscribed⟩

/-- Whatever two feeds have kept is over. -/
theorem FeedState.Agree.of_within (hhand : hand.Within grid symbols closed)
    (hrun : run.Within grid symbols closed) : hand.Agree grid symbols closed run :=
  ⟨fun s hs => .inr ⟨hhand.forming s hs, hrun.forming s hs, hhand.latestTs s hs, hrun.latestTs s hs⟩,
    .inr ⟨hhand.lastEvaluated, hrun.lastEvaluated⟩⟩

/-- The feeds agree on which symbols have reported in a period that is not over. -/
theorem FeedState.Agree.latestTs_iff (h : hand.Agree grid symbols closed run) {ts : T}
    (hopen : grid.start ts ∉ closed) {s : String} (hs : s ∈ symbols) :
    hand.latestTs s = some ts ↔ run.latestTs s = some ts := by
  obtain ⟨-, -, hsame⟩ | ⟨-, -, hhand, hrun⟩ := h.symbols s hs
  · rw [hsame]
  · exact ⟨fun hts => absurd (hhand ts hts) hopen, fun hts => absurd (hrun ts hts) hopen⟩

theorem FeedState.Agree.reported (h : hand.Agree grid symbols closed run) {ts : T}
    (hopen : grid.start ts ∉ closed) : hand.reported symbols ts = run.reported symbols ts := by
  rw [Bool.eq_iff_iff]
  simp only [FeedState.reported, List.all_eq_true, decide_eq_true_eq]
  exact forall₂_congr fun s hs => h.latestTs_iff hopen hs

theorem FeedState.Agree.lastEvaluated_iff (h : hand.Agree grid symbols closed run) {ts : T}
    (hopen : grid.start ts ∉ closed) :
    hand.lastEvaluated = some ts ↔ run.lastEvaluated = some ts := by
  obtain hsame | ⟨hhand, hrun⟩ := h.lastEvaluated
  · rw [hsame]
  · exact ⟨fun hts => absurd (hhand ts hts) hopen, fun hts => absurd (hrun ts hts) hopen⟩

theorem FeedState.Agree.evaluated (h : hand.Agree grid symbols closed run) (ts : T) :
    FeedState.Agree grid symbols closed { hand with lastEvaluated := some ts }
      { run with lastEvaluated := some ts } :=
  ⟨h.symbols, .inl rfl⟩

/-- The snapshots of a tick are the same. -/
theorem FeedState.Agree.latest_eq (h : hand.Agree grid symbols closed run)
    (hhand : hand.Within grid symbols seen) (hrun : run.Within grid symbols seen) {ts : T}
    (hopen : grid.start ts ∉ closed) (hreported : hand.reported symbols ts = true) :
    hand.latest = run.latest := by
  funext s
  by_cases hs : s ∈ symbols
  · have hts : hand.latestTs s = some ts := by
      simpa using List.all_eq_true.mp hreported s hs
    obtain ⟨-, hsame, -⟩ | ⟨-, -, hclosed, -⟩ := h.symbols s hs
    · exact hsame
    · exact absurd (hclosed ts hts) hopen
  · rw [hhand.unsubscribed s hs, hrun.unsubscribed s hs]

end Buffers

section Feeds

variable [LinearOrder K] {grid : PeriodGrid T} {symbols : List String} {seen closed : Set T}
  {feed hand run : FeedState T K} {symbol : String} {bar : Bar T K}

theorem formingBar_period (grid : PeriodGrid T) (current : Option (Bar T K)) (bar : Bar T K) :
    grid.start (formingBar grid current bar).timestamp = grid.start bar.timestamp := by
  unfold formingBar
  split
  · exact grid.start_start _
  · split_ifs with hnew
    · exact grid.start_start _
    · exact not_not.mp hnew

theorem formingBar_of_closed {current : Option (Bar T K)}
    (h : ∀ c, current = some c → grid.start c.timestamp ∈ closed)
    (hopen : grid.start bar.timestamp ∉ closed) :
    formingBar grid current bar = openBar (grid.start bar.timestamp) bar := by
  unfold formingBar
  split
  · rfl
  · rename_i c
    rw [if_pos]
    intro hsame
    exact hopen (hsame ▸ h c rfl)

theorem FeedState.Within.receive (h : feed.Within grid symbols seen) (hsymbol : symbol ∈ symbols) :
    (feed.receive grid symbol bar).Within grid symbols (insert (grid.start bar.timestamp) seen) := by
  have hmono := h.mono (Set.subset_insert (grid.start bar.timestamp) seen)
  constructor
  case forming =>
    intro s hs b hb
    by_cases heq : s = symbol
    · subst heq
      simp only [FeedState.receive, Function.update_self, Option.some.injEq] at hb
      subst hb
      rw [formingBar_period]
      exact Set.mem_insert _ _
    · simp only [FeedState.receive, Function.update_of_ne heq] at hb
      exact hmono.forming s hs b hb
  case latestTs =>
    intro s hs ts hts
    by_cases heq : s = symbol
    · subst heq
      simp only [FeedState.receive, Function.update_self, Option.some.injEq] at hts
      subst hts
      exact Set.mem_insert _ _
    · simp only [FeedState.receive, Function.update_of_ne heq] at hts
      exact hmono.latestTs s hs ts hts
  case lastEvaluated => exact hmono.lastEvaluated
  case unsubscribed =>
    intro s hs
    have heq : s ≠ symbol := fun heq => hs (heq ▸ hsymbol)
    simp only [FeedState.receive, Function.update_of_ne heq]
    exact h.unsubscribed s hs

/-- A bar of a period that is not over is folded alike. -/
theorem FeedState.Agree.receive (h : hand.Agree grid symbols closed run) (hsymbol : symbol ∈ symbols)
    (hopen : grid.start bar.timestamp ∉ closed) :
    (hand.receive grid symbol bar).Agree grid symbols closed (run.receive grid symbol bar) := by
  refine ⟨fun s hs => ?_, h.lastEvaluated⟩
  by_cases heq : s = symbol
  · subst heq
    have hforming : formingBar grid (hand.forming s) bar = formingBar grid (run.forming s) bar := by
      obtain ⟨hsame, -⟩ | ⟨hhand, hrun, -⟩ := h.symbols s hs
      · rw [hsame]
      · rw [formingBar_of_closed hhand hopen, formingBar_of_closed hrun hopen]
    left
    simp only [FeedState.receive, Function.update_self, hforming, true_and]
  · simp only [FeedState.receive, Function.update_of_ne heq]
    exact h.symbols s hs

end Feeds

/-! ## Steps and runs -/

/-- The loops have evaluated and submitted the same, and go on in the same way in every period
that is not over. -/
structure LoopsAgree (grid : PeriodGrid T) (symbols : List String) (seen closed : Set T)
    {session : LiveSession T K B} (hand run : LoopState session) : Prop where
  feeds : hand.feed.Agree grid symbols closed run.feed
  handWithin : hand.feed.Within grid symbols seen
  runWithin : run.feed.Within grid symbols seen
  state : hand.state = run.state
  log : hand.log = run.log
  running : run.stopped = false

section Loops

variable [LinearOrder K] {grid : PeriodGrid T} {symbols : List String} {seen closed : Set T}
  {session : LiveSession T K B} {hand run : LoopState session} {e : LoopEvent T K B}

section Turns

variable {st : LoopState session}

theorem handRolled_missing (hsymbol : e.symbol ∈ symbols) (hpaused : e.paused = false)
    (h : (st.feed.receive grid e.symbol e.bar).reported symbols e.bar.timestamp = false) :
    st.handRolled grid symbols e = { st with feed := st.feed.receive grid e.symbol e.bar } := by
  simp [LoopState.handRolled, LoopState.processBar, LoopState.evaluateSession, hsymbol, hpaused, h]

theorem handRolled_seen (hsymbol : e.symbol ∈ symbols) (hpaused : e.paused = false)
    (h : st.feed.lastEvaluated = some e.bar.timestamp) :
    st.handRolled grid symbols e = { st with feed := st.feed.receive grid e.symbol e.bar } := by
  have hlast : (st.feed.receive grid e.symbol e.bar).lastEvaluated = some e.bar.timestamp := h
  simp [LoopState.handRolled, LoopState.processBar, LoopState.evaluateSession, hsymbol, hpaused,
    hlast]

theorem handRolled_gated (hsymbol : e.symbol ∈ symbols) (hpaused : e.paused = false)
    (hreported : (st.feed.receive grid e.symbol e.bar).reported symbols e.bar.timestamp = true)
    (hlast : st.feed.lastEvaluated ≠ some e.bar.timestamp)
    (hgate : (e.marketOpen && e.canTrade) = false) :
    st.handRolled grid symbols e = { st with feed :=
      { st.feed.receive grid e.symbol e.bar with lastEvaluated := some e.bar.timestamp } } := by
  have hnew : (st.feed.receive grid e.symbol e.bar).lastEvaluated ≠ some e.bar.timestamp := hlast
  cases hmarket : e.marketOpen with
  | false =>
    simp [LoopState.handRolled, LoopState.processBar, LoopState.evaluateSession, hsymbol, hpaused,
      hreported, hnew, hmarket]
  | true =>
    rw [hmarket, Bool.true_and] at hgate
    simp [LoopState.handRolled, LoopState.processBar, LoopState.evaluateSession, hsymbol, hpaused,
      hreported, hnew, hmarket, hgate]

theorem handRolled_evaluates (hsymbol : e.symbol ∈ symbols) (hpaused : e.paused = false)
    (hreported : (st.feed.receive grid e.symbol e.bar).reported symbols e.bar.timestamp = true)
    (hlast : st.feed.lastEvaluated ≠ some e.bar.timestamp)
    (hgate : e.marketOpen = true ∧ e.canTrade = true) :
    st.handRolled grid symbols e =
      let latest := (st.feed.receive grid e.symbol e.bar).latest
      let result := session.evaluate st.state latest e.book
      { st with
        feed := { st.feed.receive grid e.symbol e.bar with lastEvaluated := some e.bar.timestamp }
        state := result.1
        log := st.log ++ [(e.bar.timestamp, latest, result.2)] } := by
  have hnew : (st.feed.receive grid e.symbol e.bar).lastEvaluated ≠ some e.bar.timestamp := hlast
  simp [LoopState.handRolled, LoopState.processBar, LoopState.evaluateSession, hsymbol, hpaused,
    hreported, hnew, hgate]

theorem streamed_missing (hsymbol : e.symbol ∈ symbols) (hrunning : st.stopped = false)
    (h : (st.feed.receive grid e.symbol e.bar).reported symbols e.bar.timestamp = false) :
    st.streamed grid symbols e = { st with feed := st.feed.receive grid e.symbol e.bar } := by
  simp [LoopState.streamed, FeedState.iterate, hsymbol, hrunning, h]

theorem streamed_seen (hsymbol : e.symbol ∈ symbols) (hrunning : st.stopped = false)
    (h : st.feed.lastEvaluated = some e.bar.timestamp) :
    st.streamed grid symbols e = { st with feed := st.feed.receive grid e.symbol e.bar } := by
  have hlast : (st.feed.receive grid e.symbol e.bar).lastEvaluated = some e.bar.timestamp := h
  simp [LoopState.streamed, FeedState.iterate, hsymbol, hrunning, hlast]

theorem streamed_gated (hsymbol : e.symbol ∈ symbols) (hrunning : st.stopped = false)
    (hreported : (st.feed.receive grid e.symbol e.bar).reported symbols e.bar.timestamp = true)
    (hlast : st.feed.lastEvaluated ≠ some e.bar.timestamp)
    (hgate : LoopState.liveGate e = false) :
    st.streamed grid symbols e = { st with feed :=
      { st.feed.receive grid e.symbol e.bar with lastEvaluated := some e.bar.timestamp } } := by
  have hnew : (st.feed.receive grid e.symbol e.bar).lastEvaluated ≠ some e.bar.timestamp := hlast
  simp [LoopState.streamed, FeedState.iterate, hsymbol, hrunning, hreported, hnew, hgate]

theorem streamed_evaluates (hsymbol : e.symbol ∈ symbols) (hrunning : st.stopped = false)
    (hreported : (st.feed.receive grid e.symbol e.bar).reported symbols e.bar.timestamp = true)
    (hlast : st.feed.lastEvaluated ≠ some e.bar.timestamp)
    (hgate : LoopState.liveGate e = true) :
    st.streamed grid symbols e =
      let latest := (st.feed.receive grid e.symbol e.bar).latest
      let result := session.evaluate st.state latest e.book
      { feed := { st.feed.receive grid e.symbol e.bar with lastEvaluated := some e.bar.timestamp }
        state := result.1
        log := st.log ++ [(e.bar.timestamp, latest, result.2.map fun orders =>
          orders.filter fun order => (latest (session.symbol order)).isSome)]
        stopped := result.2.isNone } := by
  have hnew : (st.feed.receive grid e.symbol e.bar).lastEvaluated ≠ some e.bar.timestamp := hlast
  simp [LoopState.streamed, FeedState.iterate, hsymbol, hrunning, hreported, hnew, hgate]

end Turns

/-- Neither loop looks at a bar of another symbol. -/
theorem LoopsAgree.unsubscribed (h : LoopsAgree grid symbols seen closed hand run)
    (hsymbol : e.symbol ∉ symbols) :
    LoopsAgree grid symbols seen closed (hand.handRolled grid symbols e)
      (run.streamed grid symbols e) := by
  have hhand : hand.handRolled grid symbols e = hand := by
    simp [LoopState.handRolled, LoopState.processBar, hsymbol]
  have hrun : run.streamed grid symbols e = run := by
    simp [LoopState.streamed, FeedState.iterate, hsymbol]
  rw [hhand, hrun]
  exact h

/-- A paused bar is dropped by one loop and folded by the other. -/
theorem LoopsAgree.paused (h : LoopsAgree grid symbols seen closed hand run)
    (hsymbol : e.symbol ∈ symbols) (hpaused : e.paused = true) :
    LoopsAgree grid symbols (insert (grid.start e.bar.timestamp) seen)
      (insert (grid.start e.bar.timestamp) seen) (hand.handRolled grid symbols e)
      (run.streamed grid symbols e) := by
  have hhand : hand.handRolled grid symbols e = hand := by simp [LoopState.handRolled, hpaused]
  obtain ⟨feed, hwithin, hrun⟩ : ∃ feed : FeedState T K,
      feed.Within grid symbols (insert (grid.start e.bar.timestamp) seen) ∧
        run.streamed grid symbols e = { run with feed } := by
    have hreceive : (run.feed.receive grid e.symbol e.bar).Within grid symbols
        (insert (grid.start e.bar.timestamp) seen) := h.runWithin.receive hsymbol
    cases hreported : (run.feed.receive grid e.symbol e.bar).reported symbols e.bar.timestamp with
    | false => exact ⟨_, hreceive, streamed_missing hsymbol h.running hreported⟩
    | true =>
      by_cases hlast : run.feed.lastEvaluated = some e.bar.timestamp
      · exact ⟨_, hreceive, streamed_seen hsymbol h.running hlast⟩
      · exact ⟨_, hreceive.evaluated (Set.mem_insert _ _),
          streamed_gated hsymbol h.running hreported hlast (by simp [LoopState.liveGate, hpaused])⟩
  have hhandWithin := h.handWithin.mono (Set.subset_insert (grid.start e.bar.timestamp) seen)
  rw [hhand, hrun]
  exact ⟨.of_within hhandWithin hwithin, hhandWithin, hwithin, h.state, h.log, h.running⟩

/-- A bar that is not paused, of a period that is not over. -/
theorem LoopsAgree.handled (h : LoopsAgree grid symbols seen closed hand run)
    (hsymbol : e.symbol ∈ symbols) (hpaused : e.paused = false)
    (hopen : grid.start e.bar.timestamp ∉ closed)
    (hreturns : EvaluationReturns grid symbols hand e) :
    LoopsAgree grid symbols (insert (grid.start e.bar.timestamp) seen) closed
      (hand.handRolled grid symbols e) (run.streamed grid symbols e) := by
  have hagree := h.feeds.receive hsymbol hopen
  have hhand : (hand.feed.receive grid e.symbol e.bar).Within grid symbols
      (insert (grid.start e.bar.timestamp) seen) := h.handWithin.receive hsymbol
  have hrun : (run.feed.receive grid e.symbol e.bar).Within grid symbols
      (insert (grid.start e.bar.timestamp) seen) := h.runWithin.receive hsymbol
  have hquiet : ∀ {feed feed' : FeedState T K},
      hand.handRolled grid symbols e = { hand with feed } →
      run.streamed grid symbols e = { run with feed := feed' } →
      feed.Agree grid symbols closed feed' →
      feed.Within grid symbols (insert (grid.start e.bar.timestamp) seen) →
      feed'.Within grid symbols (insert (grid.start e.bar.timestamp) seen) →
      LoopsAgree grid symbols (insert (grid.start e.bar.timestamp) seen) closed
        (hand.handRolled grid symbols e) (run.streamed grid symbols e) := by
    intro feed feed' hh hr hfeeds hw hw'
    rw [hh, hr]
    exact ⟨hfeeds, hw, hw', h.state, h.log, h.running⟩
  have hreportedRun := hagree.reported hopen
  have hlastRun := hagree.lastEvaluated_iff hopen
  have hevaluated := hhand.evaluated (Set.mem_insert (grid.start e.bar.timestamp) seen)
  have hevaluatedRun := hrun.evaluated (Set.mem_insert (grid.start e.bar.timestamp) seen)
  have hagreeEvaluated := hagree.evaluated e.bar.timestamp
  by_cases hreported :
      (hand.feed.receive grid e.symbol e.bar).reported symbols e.bar.timestamp = true
  · by_cases hlast : hand.feed.lastEvaluated = some e.bar.timestamp
    · refine hquiet ?_ ?_ hagree hhand hrun
      · exact handRolled_seen hsymbol hpaused hlast
      · exact streamed_seen hsymbol h.running (hlastRun.mp hlast)
    · have hlast' : run.feed.lastEvaluated ≠ some e.bar.timestamp := fun hsame =>
        hlast (hlastRun.mpr hsame)
      cases hgate : e.marketOpen && e.canTrade with
      | false =>
        refine hquiet ?_ ?_ hagreeEvaluated hevaluated hevaluatedRun
        · exact handRolled_gated hsymbol hpaused hreported hlast hgate
        · exact streamed_gated hsymbol h.running (hreportedRun ▸ hreported) hlast'
            (by simp [LoopState.liveGate, hpaused, hgate])
      | true =>
        have hlatest := hagree.latest_eq hhand hrun hopen hreported
        rw [Bool.and_eq_true] at hgate
        have hsome := hreturns ⟨hpaused, hsymbol, hreported, hlast, hgate⟩
        obtain ⟨orders, horders⟩ := Option.ne_none_iff_exists'.mp hsome
        rw [handRolled_evaluates hsymbol hpaused hreported hlast hgate,
          streamed_evaluates hsymbol h.running (hreportedRun ▸ hreported) hlast'
            (by simp [LoopState.liveGate, hpaused, hgate]), ← hlatest, ← h.state, ← h.log]
        have hkept : orders.filter (fun order =>
            ((hand.feed.receive grid e.symbol e.bar).latest (session.symbol order)).isSome) =
              orders :=
          List.filter_eq_self.mpr (session.priced _ _ _ _ horders)
        refine ⟨hagreeEvaluated, hevaluated, hevaluatedRun, rfl, ?_, ?_⟩
        · simp only [horders, Option.map_some, hkept]
        · simp only [horders, Option.isNone_some]
  · rw [Bool.not_eq_true] at hreported
    refine hquiet ?_ ?_ hagree hhand hrun
    · exact handRolled_missing hsymbol hpaused hreported
    · exact streamed_missing hsymbol h.running (hreportedRun ▸ hreported)

/-- From states that agree, the loops log the same. -/
theorem LoopsAgree.log_eq {events : List (LoopEvent T K B)}
    (hagree : LoopsAgree grid symbols seen closed hand run)
    (hpauses : PausesLast grid symbols seen closed events)
    (hreturns : Transition.Meets (fun st e => some (LoopState.handRolled grid symbols st e))
      (EvaluationReturns grid symbols) hand events) :
    (events.foldl (LoopState.handRolled grid symbols) hand).log =
      (events.foldl (LoopState.streamed grid symbols) run).log := by
  induction events generalizing seen closed hand run with
  | nil => exact hagree.log
  | cons e events ih =>
    have hrest := hreturns.2 _ rfl
    rw [PausesLast] at hpauses
    by_cases hsymbol : e.symbol ∈ symbols
    · simp only [if_pos hsymbol] at hpauses
      cases hpaused : e.paused with
      | true =>
        simp only [hpaused, if_true] at hpauses
        exact ih (hagree.paused hsymbol hpaused) hpauses hrest
      | false =>
        simp only [hpaused, Bool.false_eq_true, if_false] at hpauses
        exact ih (hagree.handled hsymbol hpaused hpauses.1 hreturns.1) hpauses.2 hrest
    · simp only [if_neg hsymbol] at hpauses
      exact ih (hagree.unsubscribed hsymbol) hpauses hrest

end Loops

/-- **The two live loops agree.** Take any bars, any answers of the gates and any books. If a
pause in which bars arrive lasts until every period that has begun is over, and no evaluation
raises, the two loops feed the session the same snapshots at the same timestamps and submit the
same orders. -/
theorem live_loops_agree [LinearOrder K] (grid : PeriodGrid T) (symbols : List String)
    (session : LiveSession T K B) (seed : Snapshot T K) (state : session.State)
    (events : List (LoopEvent T K B))
    (hpauses : PausesLast grid symbols
      {period | ∃ s ∈ symbols, ∃ bar, seed s = some bar ∧ grid.start bar.timestamp = period} ∅ events)
    (hreturns : Transition.Meets (fun st e => some (LoopState.handRolled grid symbols st e))
      (EvaluationReturns grid symbols) (LoopState.fresh session seed state) events) :
    (events.foldl (LoopState.handRolled grid symbols)
        (LoopState.fresh session seed state)).log =
      (events.foldl (LoopState.streamed grid symbols) (LoopState.fresh session seed state)).log := by
  refine LoopsAgree.log_eq ?_ hpauses hreturns
  have hwithin : (FeedState.fresh seed).Within grid symbols
      {period | ∃ s ∈ symbols, ∃ bar, seed s = some bar ∧ grid.start bar.timestamp = period} :=
    ⟨fun s hs bar hbar => ⟨s, hs, bar, hbar, rfl⟩, fun _ _ _ h => (nomatch h), fun _ h => (nomatch h),
      fun _ _ => rfl⟩
  exact ⟨⟨fun _ _ => .inl ⟨rfl, rfl, rfl⟩, .inl rfl⟩, hwithin, hwithin, rfl, rfl, rfl⟩

namespace Sample

/-- A session that buys at the close of SPY. -/
def closeBuyer : LiveSession ℕ ℤ Unit where
  State := Unit
  Order := ℤ
  symbol _ := "SPY"
  evaluate _ bars _ := ((), some ((bars "SPY").toList.map (·.close)))
  priced := by
    rintro _ bars _ orders horders order hmem
    cases hbar : bars "SPY" with
    | none =>
      rw [hbar] at horders
      cases horders
      cases hmem
    | some bar => rfl

/-- A minute of SPY. -/
def spyMinute (minute : ℕ) (price : ℤ) (paused : Bool) : LoopEvent ℕ ℤ Unit :=
  ⟨"SPY", ⟨minute, price, price, price, price, 100⟩, paused, true, true, ()⟩

end Sample

/-- The runner is paused for the rest of the first day. -/
theorem live_loops_agree_next_day :
    let events := [Sample.spyMinute 1 50 false, Sample.spyMinute 2 51 true,
      Sample.spyMinute 1441 52 false]
    (events.foldl (LoopState.handRolled Sample.days ["SPY"])
        (LoopState.fresh Sample.closeBuyer (fun _ => none) ())).log =
      (events.foldl (LoopState.streamed Sample.days ["SPY"])
        (LoopState.fresh Sample.closeBuyer (fun _ => none) ())).log := by
  refine live_loops_agree Sample.days ["SPY"] Sample.closeBuyer (fun _ => none) () _ ?_ ?_
  · simp [PausesLast, Sample.spyMinute, Sample.days]
  · exact Transition.meets_of_forall (fun _ _ _ _ => nofun) _

/-- A bar that arrives while the runner is paused is missing from the snapshots of one loop. -/
theorem paused_minute_missing :
    let events := [Sample.spyMinute 1 50 false, Sample.spyMinute 2 60 true,
      Sample.spyMinute 3 51 false]
    (events.foldl (LoopState.handRolled Sample.days ["SPY"])
        (LoopState.fresh Sample.closeBuyer (fun _ => none) ())).log ≠
      (events.foldl (LoopState.streamed Sample.days ["SPY"])
        (LoopState.fresh Sample.closeBuyer (fun _ => none) ())).log := by
  intro events heq
  have hhighs := congrArg (List.map fun entry => (entry.2.1 "SPY").map (·.high)) heq
  exact absurd hhighs (by decide)

end LlamaTrade
