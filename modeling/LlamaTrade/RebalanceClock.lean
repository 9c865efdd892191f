import LlamaTrade.CalendarDates
import LlamaTrade.TransitionRuns
import LlamaTrade.ValidatedStrategies

/-!
# The rebalance clock

A session of one strategy (`rebalance.py`, `session.py`): every call feeds the latest bars, and the
clock decides whether the weights are computed again. The sizing of the orders is a parameter.
-/

namespace LlamaTrade

/-- `should_rebalance`. -/
def shouldRebalance (currentDate : CalendarDate) (lastRebalance : Option CalendarDate)
    (frequency : Option RebalanceFrequency) : Bool :=
  match lastRebalance with
  | none => true
  | some last =>
    if currentDate = last then false
    else
      match frequency.getD .daily with
      | .daily => last < currentDate
      | .weekly => currentDate.isoCalendar ≠ last.isoCalendar
      | .monthly => currentDate.month ≠ last.month ∨ currentDate.year ≠ last.year
      | .quarterly =>
        (currentDate.month - 1) / 3 ≠ (last.month - 1) / 3 ∨ currentDate.year ≠ last.year
      | .annually => currentDate.year ≠ last.year

/-- The number of the calendar period of a date. -/
def RebalanceFrequency.period (frequency : RebalanceFrequency) (d : CalendarDate) : ℤ :=
  match frequency with
  | .daily => d.ordinal
  | .weekly => d.weekNumber
  | .monthly => 12 * d.year + d.month
  | .quarterly => 4 * d.year + (d.month + 2) / 3
  | .annually => d.year

section Periods

variable {a b : CalendarDate} {frequency : RebalanceFrequency}

theorem RebalanceFrequency.period_mono (h : a ≤ b) : frequency.period a ≤ frequency.period b := by
  have hordinal := CalendarDate.ordinal_le_of_le h
  have hyear := CalendarDate.year_month_of_le h
  have hmonth := a.month_le
  have hmonth' := b.month_pos
  cases frequency <;> simp only [period, CalendarDate.weekNumber] <;> omega

/-- The clock strikes on a later date when its period is another one. -/
theorem shouldRebalance_iff {last : CalendarDate} (h : last ≤ a)
    (frequency : Option RebalanceFrequency) :
    shouldRebalance a (some last) frequency = true ↔
      (frequency.getD .daily).period a ≠ (frequency.getD .daily).period last := by
  by_cases hsame : a = last
  · simp [shouldRebalance, hsame]
  have hlt : last < a := h.resolve_right (Ne.symm hsame)
  have hordinal := CalendarDate.ordinal_lt_of_lt hlt
  have ha := a.month_pos
  have ha' := a.month_le
  have hl := last.month_pos
  have hl' := last.month_le
  simp only [shouldRebalance, hsame, if_false]
  cases frequency.getD .daily
  · simpa [RebalanceFrequency.period, hlt] using hordinal.ne'
  · simp [RebalanceFrequency.period, CalendarDate.isoCalendar_eq_iff]
  · simp only [RebalanceFrequency.period, decide_eq_true_eq]
    omega
  · simp only [RebalanceFrequency.period, decide_eq_true_eq]
    omega
  · simp only [RebalanceFrequency.period, decide_eq_true_eq]
    omega

end Periods

/-! ## Sessions -/

/-- The arguments of `evaluate`. -/
structure EvaluateCall (T K H : Type) where
  bars : InsertionDict (Bar T K)
  holdings : H
  equity : K
  warmUp : Bool

/-- What `StrategySession` remembers between two calls. -/
structure StrategySession (T K : Type) where
  memory : StrategyMemory T K
  lastRebalance : Option CalendarDate
  currentWeights : Weights K

/-- What a call does about the weights. -/
inductive Evaluation (K O : Type) where
  | kept
  | raised
  | recomputed (weights : Weights K) (orders : List O)

/-- A session before its first bars. -/
def StrategySession.fresh {T K : Type} : StrategySession T K := ⟨⟨[], []⟩, none, []⟩

/-- `_latest_date`. -/
def latestDate {T K : Type} (date : T → CalendarDate) (bars : InsertionDict (Bar T K)) :
    Option CalendarDate :=
  (bars.values.map fun bar => date bar.timestamp).foldl
    (fun latest d => some (latest.elim d fun latest => if latest < d then d else latest)) none

/-! ## The clock -/

section Clocks

variable {T K : Type} {session : StrategySession T K} {dates : List CalendarDate}
  {frequency : RebalanceFrequency}

/-- The last rebalance opened the period of the latest of the evaluated dates. -/
structure StrategySession.Clocked (frequency : RebalanceFrequency)
    (dates : List CalendarDate) (session : StrategySession T K) : Prop where
  started : session.lastRebalance = none → dates = []
  last_mem : ∀ last, session.lastRebalance = some last → last ∈ dates
  last_max : ∀ last, session.lastRebalance = some last →
    ∀ d ∈ dates, frequency.period d ≤ frequency.period last

/-- The clock strikes on the first evaluated date of a period. -/
theorem StrategySession.Clocked.shouldRebalance_iff {rebalance : Option RebalanceFrequency}
    {d : CalendarDate} (hclocked : session.Clocked (rebalance.getD .daily) dates)
    (hlater : ∀ earlier ∈ dates, earlier ≤ d) :
    shouldRebalance d session.lastRebalance rebalance = true ↔
      ∀ earlier ∈ dates,
        (rebalance.getD .daily).period earlier ≠ (rebalance.getD .daily).period d := by
  cases hlast : session.lastRebalance with
  | none => simp [shouldRebalance, hclocked.started hlast]
  | some last =>
    have hmem := hclocked.last_mem last hlast
    have hmono : (rebalance.getD .daily).period last ≤ (rebalance.getD .daily).period d :=
      RebalanceFrequency.period_mono (hlater last hmem)
    rw [LlamaTrade.shouldRebalance_iff (hlater last hmem)]
    constructor
    · intro hne earlier hearlier heq
      have hmax := hclocked.last_max last hlast earlier hearlier
      omega
    · intro h
      exact (h last hmem).symm

theorem StrategySession.Clocked.of_eq {session' : StrategySession T K}
    (hclocked : session.Clocked frequency dates)
    (hlast : session'.lastRebalance = session.lastRebalance) :
    session'.Clocked frequency dates := by
  refine ⟨?_, ?_, ?_⟩
  · rw [hlast]
    exact hclocked.started
  · rw [hlast]
    exact hclocked.last_mem
  · rw [hlast]
    exact hclocked.last_max

/-- A date of a period that has been opened. -/
theorem StrategySession.Clocked.concat_old {d : CalendarDate}
    (hclocked : session.Clocked frequency dates)
    (hold : ∃ earlier ∈ dates, frequency.period earlier = frequency.period d) :
    session.Clocked frequency (dates ++ [d]) := by
  obtain ⟨earlier, hearlier, hperiod⟩ := hold
  refine ⟨fun hnone => ?_, fun last hlast => ?_, fun last hlast => ?_⟩
  · rw [hclocked.started hnone] at hearlier
    exact absurd hearlier List.not_mem_nil
  · exact List.mem_append_left _ (hclocked.last_mem last hlast)
  · intro e he
    obtain he | he := List.mem_append.mp he
    · exact hclocked.last_max last hlast e he
    · rw [List.mem_singleton.mp he, ← hperiod]
      exact hclocked.last_max last hlast earlier hearlier

/-- A date on which the weights are computed. -/
theorem StrategySession.Clocked.concat_new {d : CalendarDate}
    (hlater : ∀ earlier ∈ dates, earlier ≤ d) (hlast : session.lastRebalance = some d) :
    session.Clocked frequency (dates ++ [d]) := by
  refine ⟨fun hnone => ?_, fun last hlast' => ?_, fun last hlast' => ?_⟩
  · rw [hlast] at hnone
    cases hnone
  · cases hlast.symm.trans hlast'
    exact List.mem_append_right _ (List.mem_singleton_self d)
  · cases hlast.symm.trans hlast'
    intro e he
    obtain he | he := List.mem_append.mp he
    · exact RebalanceFrequency.period_mono (hlater e he)
    · rw [List.mem_singleton.mp he]

end Clocks

/-! ## Evaluation -/

section Sessions

variable {T K H O : Type} [Field K] [LinearOrder K] [DecidableEq T]
variable (date : T → CalendarDate) (num : Numerics K) (compiled : CompiledStrategy K)
  (sizeOrders : EvaluateCall T K H → Weights K → Weights K → List O)

/-- `StrategySession.evaluate`. -/
def StrategySession.evaluate (session : StrategySession T K) (call : EvaluateCall T K H) :
    StrategySession T K × Evaluation K O :=
  match latestDate date call.bars with
  | none => (session, .kept)
  | some currentDate =>
    if call.warmUp ||
        !shouldRebalance currentDate session.lastRebalance compiled.strategy.rebalance then
      ({ session with memory := { session.memory with
          barHistory := compiled.addBars session.memory.barHistory call.bars } }, .kept)
    else
      match compiled.computeAllocation num session.memory call.bars with
      | (memory, none) => ({ session with memory }, .raised)
      | (memory, some allocation) =>
        -- Empty weights count as insufficient history.
        if allocation.weights.isEmpty then ({ session with memory }, .recomputed [] [])
        else (⟨memory, some currentDate, allocation.weights⟩,
          .recomputed allocation.weights
            (sizeOrders call allocation.weights session.currentWeights))

/-- One call of `evaluate`. -/
def StrategySession.step (session : StrategySession T K) (call : EvaluateCall T K H) :
    Option (StrategySession T K) :=
  some (session.evaluate date num compiled sizeOrders call).1

/-- The date on which a call evaluates the strategy. -/
def EvaluateCall.evaluationDate (call : EvaluateCall T K H) : Option CalendarDate :=
  if call.warmUp then none else latestDate date call.bars

/-- A call that evaluates the strategy finds enough history. -/
def StrategySession.HasHistory (session : StrategySession T K) (call : EvaluateCall T K H) : Prop :=
  call.evaluationDate date ≠ none →
    compiled.hasEnoughHistory (compiled.addBars session.memory.barHistory call.bars) = true

/-- Where the clock strikes, the strategy tree holds some symbol and no indicator raises. -/
def StrategySession.HoldsSomething (session : StrategySession T K) (call : EvaluateCall T K H) :
    Prop :=
  ∀ d, call.evaluationDate date = some d →
    shouldRebalance d session.lastRebalance compiled.strategy.rebalance = true →
    ∃ state, compiled.buildState num call.bars
      (compiled.addBars session.memory.barHistory call.bars) = some state ∧
      evaluateSiblings (sharesAndAllocations num state compiled.strategy.children) ≠ []

/-- The call computes the weights. -/
def Evaluation.isRecomputed : Evaluation K O → Bool
  | .recomputed .. => true
  | _ => false

/-- The frequency with its default. -/
def CompiledStrategy.frequency (compiled : CompiledStrategy K) : RebalanceFrequency :=
  compiled.strategy.rebalance.getD .daily

section Steps

variable {date num compiled sizeOrders}
variable {session : StrategySession T K} {call : EvaluateCall T K H}

omit [LinearOrder K] [DecidableEq T] [Field K] in
theorem EvaluateCall.evaluationDate_eq_some {d : CalendarDate}
    (h : call.evaluationDate date = some d) :
    call.warmUp = false ∧ latestDate date call.bars = some d := by
  rw [evaluationDate] at h
  split_ifs at h with hwarm
  exact ⟨by simpa using hwarm, h⟩

omit [Field K] [LinearOrder K] [DecidableEq T] in
theorem latestDate_ne_none {bars : InsertionDict (Bar T K)} (h : bars ≠ []) :
    latestDate date bars ≠ none := by
  obtain ⟨⟨symbol, bar⟩, bars, rfl⟩ := List.exists_cons_of_ne_nil h
  have hfold : ∀ (dates : List CalendarDate) (d : CalendarDate), dates.foldl (fun latest d =>
      some (latest.elim d fun latest => if latest < d then d else latest)) (some d) ≠ none := by
    intro dates
    induction dates with
    | nil => exact fun d => Option.some_ne_none d
    | cons e dates ih => exact fun d => ih _
  exact hfold _ _

variable (date num compiled session call) in
/-- Every call feeds its bars. -/
theorem evaluate_barHistory (sizeOrders : EvaluateCall T K H → Weights K → Weights K → List O) :
    (session.evaluate date num compiled sizeOrders call).1.memory.barHistory =
      compiled.addBars session.memory.barHistory call.bars := by
  unfold StrategySession.evaluate
  cases hlatest : latestDate date call.bars with
  | none =>
    have hempty : call.bars = [] := by
      by_contra hne
      exact latestDate_ne_none hne hlatest
    rw [hempty]
    rfl
  | some d =>
    have hmemory : (compiled.computeAllocation num session.memory call.bars).1.barHistory =
        compiled.addBars session.memory.barHistory call.bars := by
      simp only [CompiledStrategy.computeAllocation]
      split_ifs
      · rfl
      · split <;> rfl
    dsimp only
    split_ifs
    · rfl
    · split
      · next h => rw [h] at hmemory; exact hmemory
      · next h => rw [h] at hmemory; split_ifs <;> exact hmemory

variable (num session) in
theorem evaluate_kept (sizeOrders : EvaluateCall T K H → Weights K → Weights K → List O)
    (h : ∀ d, call.evaluationDate date = some d →
      shouldRebalance d session.lastRebalance compiled.strategy.rebalance = false) :
    (session.evaluate date num compiled sizeOrders call).1.lastRebalance =
        session.lastRebalance ∧
      (session.evaluate date num compiled sizeOrders call).2.isRecomputed = false := by
  unfold StrategySession.evaluate
  cases hlatest : latestDate date call.bars with
  | none => exact ⟨rfl, rfl⟩
  | some d =>
    cases hwarm : call.warmUp with
    | true => exact ⟨rfl, rfl⟩
    | false =>
      have hclosed := h d (by simp [EvaluateCall.evaluationDate, hwarm, hlatest])
      simp [hclosed, Evaluation.isRecomputed]

theorem normalizeWeights_eq_nil {weights : Weights K} :
    CompiledStrategy.normalizeWeights weights = [] ↔ weights = [] := by
  rw [CompiledStrategy.normalizeWeights]
  split_ifs
  · rfl
  · exact List.map_eq_nil_iff

/-- Where the clock strikes, it is set unless the strategy tree holds nothing. -/
theorem evaluate_recomputed (sizeOrders : EvaluateCall T K H → Weights K → Weights K → List O)
    {d : CalendarDate} {state : EvaluationState T K} (h : call.evaluationDate date = some d)
    (hopen : shouldRebalance d session.lastRebalance compiled.strategy.rebalance = true)
    (hhistory : session.HasHistory date compiled call)
    (hstate : compiled.buildState num call.bars
      (compiled.addBars session.memory.barHistory call.bars) = some state) :
    (session.evaluate date num compiled sizeOrders call).1.lastRebalance =
        (if evaluateSiblings (sharesAndAllocations num state compiled.strategy.children) = [] then
          session.lastRebalance else some d) ∧
      (session.evaluate date num compiled sizeOrders call).2.isRecomputed = true := by
  obtain ⟨hwarm, hlatest⟩ := EvaluateCall.evaluationDate_eq_some h
  have henough := hhistory (by rw [h]; exact Option.some_ne_none d)
  have hgate : (call.warmUp ||
      !shouldRebalance d session.lastRebalance compiled.strategy.rebalance) = false := by
    rw [hwarm, hopen]
    rfl
  simp only [StrategySession.evaluate, hlatest, hgate, CompiledStrategy.computeAllocation, henough,
    hstate, Bool.not_true, Bool.false_eq_true, if_false, List.isEmpty_iff, normalizeWeights_eq_nil]
  split_ifs
  · exact ⟨rfl, rfl⟩
  · exact ⟨rfl, rfl⟩

end Steps

/-! ## Runs -/

section Runs

variable {date num compiled}
variable {session : StrategySession T K} {call : EvaluateCall T K H} {dates : List CalendarDate}

/-- One call: the weights are computed on the first evaluated date of a period. -/
theorem StrategySession.Clocked.evaluate
    (sizeOrders : EvaluateCall T K H → Weights K → Weights K → List O)
    (hclocked : session.Clocked compiled.frequency dates)
    (hlater : ∀ d, call.evaluationDate date = some d → ∀ earlier ∈ dates, earlier ≤ d)
    (hhistory : session.HasHistory date compiled call)
    (hholds : session.HoldsSomething date num compiled call) :
    (session.evaluate date num compiled sizeOrders call).1.Clocked compiled.frequency
        (dates ++ (call.evaluationDate date).toList) ∧
      ((session.evaluate date num compiled sizeOrders call).2.isRecomputed = true ↔
        ∃ d, call.evaluationDate date = some d ∧
          ∀ earlier ∈ dates, compiled.frequency.period earlier ≠ compiled.frequency.period d) := by
  cases hdate : call.evaluationDate date with
  | none =>
    have hnever : ∀ d, call.evaluationDate date = some d →
        shouldRebalance d session.lastRebalance compiled.strategy.rebalance = false := by
      intro d hd
      rw [hdate] at hd
      cases hd
    obtain ⟨hlast, hkept⟩ := evaluate_kept num session sizeOrders hnever
    rw [hkept, Option.toList_none, List.append_nil]
    exact ⟨hclocked.of_eq hlast, by simp⟩
  | some d =>
    have hlater := hlater d hdate
    have hstrikes := hclocked.shouldRebalance_iff hlater
    rw [← CompiledStrategy.frequency] at hstrikes
    simp only [Option.some.injEq, exists_eq_left', Option.toList_some]
    rw [← hstrikes]
    cases hgate : shouldRebalance d session.lastRebalance compiled.strategy.rebalance with
    | false =>
      have hclosed : ∀ e, call.evaluationDate date = some e →
          shouldRebalance e session.lastRebalance compiled.strategy.rebalance = false := by
        intro e he
        cases hdate.symm.trans he
        exact hgate
      obtain ⟨hlast, hkept⟩ := evaluate_kept num session sizeOrders hclosed
      have hold : ∃ earlier ∈ dates,
          compiled.frequency.period earlier = compiled.frequency.period d := by
        by_contra hnone
        push Not at hnone
        exact absurd (hgate.symm.trans (hstrikes.mpr hnone)) Bool.false_ne_true
      exact ⟨(hclocked.concat_old hold).of_eq hlast, by rw [hkept]⟩
    | true =>
      obtain ⟨state, hstate, hne⟩ := hholds d hdate hgate
      obtain ⟨hlast, hrecomputed⟩ :=
        evaluate_recomputed sizeOrders hdate hgate hhistory hstate
      rw [if_neg hne] at hlast
      exact ⟨.concat_new hlater hlast, by rw [hrecomputed]⟩

/-- A run of calls. -/
theorem StrategySession.Clocked.run {session' : StrategySession T K}
    {sizeOrders : EvaluateCall T K H → Weights K → Weights K → List O}
    {calls : List (EvaluateCall T K H)}
    (hclocked : session.Clocked compiled.frequency dates)
    (hdates : (dates ++ calls.filterMap (·.evaluationDate date)).Pairwise (· ≤ ·))
    (hmeets : Transition.Meets (StrategySession.step date num compiled sizeOrders)
      (fun session call => session.HasHistory date compiled call ∧
        session.HoldsSomething date num compiled call) session calls)
    (hrun : Transition.run (StrategySession.step date num compiled sizeOrders) session calls =
      some session') :
    session'.Clocked compiled.frequency
      (dates ++ calls.filterMap (·.evaluationDate date)) := by
  induction calls generalizing session dates with
  | nil =>
    rw [Transition.run, Option.some.injEq] at hrun
    rwa [List.filterMap_nil, List.append_nil, ← hrun]
  | cons call calls ih =>
    have hsplit : dates ++ (call :: calls).filterMap (·.evaluationDate date) =
        dates ++ (call.evaluationDate date).toList ++
          calls.filterMap (·.evaluationDate date) := by
      rw [List.filterMap_cons]
      cases call.evaluationDate date <;> simp
    rw [hsplit] at hdates ⊢
    have hlater : ∀ d, call.evaluationDate date = some d → ∀ earlier ∈ dates, earlier ≤ d := by
      intro d hd earlier hearlier
      rw [hd, List.pairwise_append, List.pairwise_append] at hdates
      exact hdates.1.2.2 earlier hearlier d (List.mem_singleton_self d)
    obtain ⟨⟨hhistory, hholds⟩, hrest⟩ := hmeets
    exact ih (hclocked.evaluate sizeOrders hlater hhistory hholds).1 hdates
      (hrest _ rfl) hrun

end Runs

/-- On the calls of a session that hold something whenever the clock strikes, the weights are
computed on the first evaluated date of each period. -/
theorem rebalances_once_a_period
    {sizeOrders : EvaluateCall T K H → Weights K → Weights K → List O}
    {calls : List (EvaluateCall T K H)} {call : EvaluateCall T K H} {session : StrategySession T K}
    (hdates : ((calls ++ [call]).filterMap (·.evaluationDate date)).Pairwise (· ≤ ·))
    (hmeets : Transition.Meets (StrategySession.step date num compiled sizeOrders)
      (fun session call => session.HasHistory date compiled call ∧
        session.HoldsSomething date num compiled call) .fresh (calls ++ [call]))
    (hrun : Transition.run (StrategySession.step date num compiled sizeOrders) .fresh calls =
      some session) :
    (session.evaluate date num compiled sizeOrders call).2.isRecomputed = true ↔
      ∃ d, call.evaluationDate date = some d ∧
        ∀ earlier ∈ calls.filterMap (·.evaluationDate date),
          compiled.frequency.period earlier ≠ compiled.frequency.period d := by
  rw [List.filterMap_append, List.pairwise_append] at hdates
  have hlater : ∀ d, call.evaluationDate date = some d →
      ∀ earlier ∈ calls.filterMap (·.evaluationDate date), earlier ≤ d := by
    intro d hd earlier hearlier
    exact hdates.2.2 earlier hearlier d (by simp [hd])
  have hfresh : (StrategySession.fresh : StrategySession T K).Clocked compiled.frequency [] :=
    ⟨fun _ => rfl, fun _ h => (by cases h), fun _ h => (by cases h)⟩
  have hclocked := hfresh.run (by simpa using hdates.1) (Transition.meets_left hmeets) hrun
  obtain ⟨⟨hhistory, hholds⟩, -⟩ := Transition.meets_of_append hmeets hrun
  exact (hclocked.evaluate sizeOrders hlater hhistory hholds).2

end Sessions

namespace Sample

/-- A day of January 2024. -/
def january (day : Fin 31) : CalendarDate where
  year := 2024
  month := 1
  day := day + 1
  year_pos := by decide
  month_pos := Nat.one_pos
  month_le := by decide
  day_pos := Nat.succ_pos _
  day_le := day.isLt

/-- The bars of one day. -/
def spyDay (day : Fin 31) (price : ℚ) (warmUp : Bool) : EvaluateCall (Fin 31) ℚ Unit :=
  ⟨[("SPY", ⟨day, price, price, price, price, 100⟩)], (), 1000, warmUp⟩

/-- The days before the one that is looked at: the first is before the start. -/
def spyDays : List (EvaluateCall (Fin 31) ℚ Unit) := [spyDay 1 50 true, spyDay 2 50 false]

/-- Stocks, every month. -/
def monthlyStocks : Strategy ℚ := ⟨"Stocks", [.asset "SPY" none], some .monthly⟩

/-- Stocks above a price, every month. The weight of the bonds is not declared. -/
def monthlyBreakout : Strategy ℚ where
  name := "Breakout"
  rebalance := some .monthly
  children := [.ifElse (.comparison .gt (.price "SPY" .close) (.numericLiteral 60))
    (.asset "SPY" none)
    (.weight .specified [.weight .equal [.asset "TLT" none] none none none] none none none)]

/-- A session whose orders are left out. -/
def sessionStep (strategy : Strategy ℚ) :
    StrategySession (Fin 31) ℚ → EvaluateCall (Fin 31) ℚ Unit → Option (StrategySession (Fin 31) ℚ) :=
  StrategySession.step january numerics (.compile numerics strategy) fun _ _ _ => ([] : List Unit)

def sessionEvaluate (strategy : Strategy ℚ) (session : StrategySession (Fin 31) ℚ)
    (call : EvaluateCall (Fin 31) ℚ Unit) : StrategySession (Fin 31) ℚ × Evaluation ℚ Unit :=
  session.evaluate january numerics (.compile numerics strategy) (fun _ _ _ => []) call

end Sample

/-- A strategy without indicators has a state on any bars. -/
theorem Sample.sessionState {strategy : Strategy ℚ}
    (h : (CompiledStrategy.compile Sample.numerics strategy).indicators = [])
    (bars : InsertionDict (Bar (Fin 31) ℚ)) (history : InsertionDict (List (Bar (Fin 31) ℚ))) :
    ∃ state, (CompiledStrategy.compile Sample.numerics strategy).buildState Sample.numerics bars
      history = some state ∧ state.currentBars = bars := by
  obtain ⟨state, hstate, -⟩ := buildState_isSome
    (fun spec hspec => absurd (h ▸ hspec) List.not_mem_nil) bars history
  refine ⟨state, hstate, ?_⟩
  obtain ⟨indicators, -, hbuilt⟩ := Option.bind_eq_some_iff.mp hstate
  cases hbuilt
  rfl

theorem Sample.monthlyStocks_holds (session : StrategySession (Fin 31) ℚ)
    (call : EvaluateCall (Fin 31) ℚ Unit) :
    session.HoldsSomething Sample.january Sample.numerics
      (.compile Sample.numerics Sample.monthlyStocks) call := by
  intro d hd hopen
  obtain ⟨state, hstate, -⟩ := Sample.sessionState (rfl :
    (CompiledStrategy.compile Sample.numerics Sample.monthlyStocks).indicators = []) call.bars _
  refine ⟨state, hstate, ?_⟩
  simp [CompiledStrategy.compile, Sample.monthlyStocks, sharesAndAllocations, shareAndAllocation,
    evaluateSiblings, scaledMerge, mergeInto, InsertionDict.modify, normalized, sumN, addN, mulN,
    divN, notPositive, InsertionDict.values]

/-- Below the price of its breakout the strategy holds nothing. -/
theorem Sample.monthlyBreakout_empty {state : EvaluationState (Fin 31) ℚ} {bar : Bar (Fin 31) ℚ}
    (hbar : state.currentBars.lookup "SPY" = some bar) (hprice : bar.close ≤ 60) :
    evaluateSiblings (sharesAndAllocations Sample.numerics state
      Sample.monthlyBreakout.children) = [] := by
  have hbelow : ¬ 60 < bar.close := not_lt.mpr hprice
  simp [Sample.monthlyBreakout, sharesAndAllocations, shareAndAllocation, evaluateSiblings,
    evaluateWeight, scaledMerge, evaluateConditionSafe, evaluateCondition, resolveValue, hbar,
    evaluateComparison, ComparisonOperator.holds, Bar.price, hbelow, normalized, sumN, notPositive,
    InsertionDict.values]

theorem rebalances_once_a_period_monthlyStocks :
    ∃ session, Transition.run (Sample.sessionStep Sample.monthlyStocks) .fresh Sample.spyDays =
        some session ∧
      ((Sample.sessionEvaluate Sample.monthlyStocks session
          (Sample.spyDay 3 70 false)).2.isRecomputed = true ↔
        ∃ d, (Sample.spyDay 3 70 false).evaluationDate Sample.january = some d ∧
          ∀ earlier ∈ Sample.spyDays.filterMap (·.evaluationDate Sample.january),
            RebalanceFrequency.monthly.period earlier ≠ RebalanceFrequency.monthly.period d) := by
  refine ⟨_, rfl, rebalances_once_a_period Sample.january Sample.numerics _ (by decide) ?_ rfl⟩
  refine Transition.meets_cons rfl ⟨fun h => absurd rfl h, Sample.monthlyStocks_holds _ _⟩ ?_
  refine Transition.meets_cons rfl ⟨fun _ => by decide, Sample.monthlyStocks_holds _ _⟩ ?_
  refine Transition.meets_cons rfl ⟨fun _ => ?_, Sample.monthlyStocks_holds _ _⟩ trivial
  rw [evaluate_barHistory, evaluate_barHistory]
  decide

/-- A period that begins while nothing is held is rebalanced again. -/
theorem empty_month_rebalances_twice :
    validateStrategy Sample.numerics Sample.monthlyBreakout = [] ∧
      ((Sample.spyDays ++ [Sample.spyDay 3 70 false]).filterMap
        (·.evaluationDate Sample.january)).Pairwise (· ≤ ·) ∧
      Transition.Meets (Sample.sessionStep Sample.monthlyBreakout)
        (fun session call => session.HasHistory Sample.january
          (.compile Sample.numerics Sample.monthlyBreakout) call) .fresh
        (Sample.spyDays ++ [Sample.spyDay 3 70 false]) ∧
      ∃ session, Transition.run (Sample.sessionStep Sample.monthlyBreakout) .fresh Sample.spyDays =
          some session ∧
        ¬ ((Sample.sessionEvaluate Sample.monthlyBreakout session
            (Sample.spyDay 3 70 false)).2.isRecomputed = true ↔
          ∃ d, (Sample.spyDay 3 70 false).evaluationDate Sample.january = some d ∧
            ∀ earlier ∈ Sample.spyDays.filterMap (·.evaluationDate Sample.january),
              RebalanceFrequency.monthly.period earlier ≠
                RebalanceFrequency.monthly.period d) := by
  have hcalls : Transition.Meets (Sample.sessionStep Sample.monthlyBreakout)
      (fun session call => session.HasHistory Sample.january
        (.compile Sample.numerics Sample.monthlyBreakout) call) .fresh
      (Sample.spyDays ++ [Sample.spyDay 3 70 false]) := by
    refine Transition.meets_cons rfl (fun h => absurd rfl h) ?_
    refine Transition.meets_cons rfl (fun _ => by decide) ?_
    refine Transition.meets_cons rfl (fun _ => ?_) trivial
    rw [evaluate_barHistory, evaluate_barHistory]
    decide
  refine ⟨by decide, by decide, hcalls, _, rfl, fun h => ?_⟩
  have hindicators : (CompiledStrategy.compile Sample.numerics
      Sample.monthlyBreakout).indicators = [] := rfl
  obtain ⟨-, hrest⟩ := hcalls
  obtain ⟨hsecond, hrest⟩ := hrest _ rfl
  obtain ⟨hthird, -⟩ := hrest _ rfl
  -- On the second day the clock strikes, the strategy holds nothing and the clock is not set.
  obtain ⟨state, hstate, hbars⟩ := Sample.sessionState hindicators (Sample.spyDay 2 50 false).bars _
  obtain ⟨hlast, -⟩ := evaluate_recomputed (fun _ _ _ => ([] : List Unit))
    (rfl : (Sample.spyDay 2 50 false).evaluationDate Sample.january = some (Sample.january 2))
    rfl hsecond hstate
  have hbar : state.currentBars.lookup "SPY" = some ⟨2, 50, 50, 50, 50, 100⟩ := by
    rw [hbars]
    rfl
  have hempty := Sample.monthlyBreakout_empty hbar (by norm_num : (50 : ℚ) ≤ 60)
  rw [show (CompiledStrategy.compile Sample.numerics Sample.monthlyBreakout).strategy =
    Sample.monthlyBreakout from rfl, if_pos hempty] at hlast
  -- So it strikes again on the third.
  obtain ⟨state', hstate', -⟩ := Sample.sessionState hindicators (Sample.spyDay 3 70 false).bars _
  obtain ⟨-, hrecomputed⟩ := evaluate_recomputed (fun _ _ _ => ([] : List Unit))
    (rfl : (Sample.spyDay 3 70 false).evaluationDate Sample.january = some (Sample.january 3))
    (by rw [hlast]; rfl) hthird hstate'
  obtain ⟨d, hd, hnone⟩ := h.mp hrecomputed
  cases hd
  exact hnone (Sample.january 2) (by decide) (by decide)

end LlamaTrade
