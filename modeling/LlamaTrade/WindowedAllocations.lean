import LlamaTrade.HistoryWindows
import LlamaTrade.ValidatedStrategies

/-!
# Windowed allocations

Every tick of a compiled strategy gives the allocation that it would give with all bars kept, as
long as the recursive indicators and the covariances without a lookback find no more bars than the
window holds.
-/

namespace LlamaTrade

variable {T K : Type}

/-! ## Indicators -/

/-- The indicators whose values depend on where the history begins. -/
def IndicatorName.isRecursive : IndicatorName → Bool
  | .ema | .rsi | .macd | .atr | .adx | .keltner => true
  | _ => false

/-- `_CUMULATIVE_INDICATORS`. -/
def IndicatorName.isCumulative : IndicatorName → Bool
  | .obv | .vwap => true
  | _ => false

/-- The results of an indicator, of which the last values are the same. -/
abbrev SameTails (results' results : List (String × Series K)) : Prop :=
  List.Forall₂ (fun a b => a.1 = b.1 ∧ lastValues a.2 = lastValues b.2) results' results

section Indicators

variable {window n : ℕ} {bars : List (Bar T K)}

theorem Forgets.lastValues_eq {f : List (Bar T K) → Series K} (h : Forgets n f)
    (hn : n + 2 ≤ window) (bars : List (Bar T K)) :
    lastValues (f (lastBars window bars)) = lastValues (f bars) := by
  by_cases hshort : bars.length ≤ window
  · rw [lastBars_eq_self hshort]
  · have hlength : (lastBars window bars).length = window := by
      rw [length_lastBars]
      omega
    have hend : ∀ j < 2, (f (lastBars window bars))[window - 1 - j]? =
        (f bars)[bars.length - 1 - j]? := by
      intro j hj
      rw [lastBars, h.drop bars _ _ (by omega) (by omega)]
      congr 1
      omega
    rw [lastValues, lastValues, List.getLast?_eq_getElem?, List.getLast?_eq_getElem?, h.length,
      h.length, hlength, if_pos (by omega), if_pos (by omega)]
    exact congrArg₂ Prod.mk (hend 0 (by decide)) (hend 1 (by decide))

theorem SameTails.lookup {outputs' outputs : List (String × Series K)}
    (h : SameTails outputs' outputs) (key : String) :
    (outputs'.lookup key).map lastValues = (outputs.lookup key).map lastValues := by
  induction h with
  | nil => rfl
  | @cons a b outputs' outputs hab _ ih =>
    rw [List.lookup_cons, List.lookup_cons, hab.1]
    split
    · rw [Option.map_some, Option.map_some, hab.2]
    · exact ih

theorem SameTails.results {outputs' outputs : List (String × Series K)}
    {default' default : Series K} (h : SameTails outputs' outputs)
    (hdefault : lastValues default' = lastValues default) (spec : IndicatorSpec)
    (base : List String) :
    SameTails (spec.results base outputs' default') (spec.results base outputs default) := by
  refine List.rel_append ?_ (.cons ⟨rfl, ?_⟩ .nil)
  · rw [List.forall₂_map_left_iff, List.forall₂_map_right_iff]
    exact h.imp fun a b hab => ⟨by rw [hab.1], hab.2⟩
  · rw [IndicatorSpec.picks, IndicatorSpec.picks]
    cases spec.outputField with
    | none => exact hdefault
    | some field =>
      have hfield := h.lookup field
      simp only [Option.bind_some]
      cases houtput' : outputs'.lookup field with
      | none =>
        cases houtput : outputs.lookup field with
        | none => exact hdefault
        | some series => simp [houtput', houtput] at hfield
      | some series' =>
        cases houtput : outputs.lookup field with
        | none => simp [houtput', houtput] at hfield
        | some series => simpa [houtput', houtput] using hfield

theorem SameTails.refl (results : List (String × Series K)) : SameTails results results :=
  List.forall₂_same.mpr fun _ _ => ⟨rfl, rfl⟩

end Indicators

section Computing

variable [Field K] [LinearOrder K] {num : Numerics K} {window : ℕ}

/-- An indicator of a window has the same last values over the last bars. -/
theorem computeIndicator_windowed {spec : IndicatorSpec}
    (hrecursive : spec.indicatorType.isRecursive = false)
    (hcumulative : spec.indicatorType.isCumulative = false)
    (hwindow : calculateRequiredBars spec.indicatorType spec.params + 2 ≤ window)
    (bars : List (Bar T K)) :
    Option.Rel SameTails (computeIndicator num spec (lastBars window bars))
      (computeIndicator num spec bars) := by
  obtain ⟨indicatorType, symbol, params, outputKey, outputField, requiredBars⟩ := spec
  simp only at hrecursive hcumulative hwindow
  have hsingle : ∀ {n : ℕ} {f : List (Bar T K) → Series K} {results' results : Series K},
      Forgets n f → n + 2 ≤ window → f (lastBars window bars) = results' → f bars = results →
        SameTails [(outputKey, results')] [(outputKey, results)] := by
    rintro n f _ _ hf hn rfl rfl
    exact .cons ⟨rfl, hf.lastValues_eq hn bars⟩ .nil
  cases indicatorType with
  | ema | rsi | macd | atr | adx | keltner => cases hrecursive
  | obv | vwap => cases hcumulative
  | sma =>
    simp only [computeIndicator]
    split_ifs
    · exact .none
    · exact .some (hsingle (forgets_sma_close _) hwindow rfl rfl)
  | bbands =>
    simp only [computeIndicator]
    split_ifs
    · exact .none
    · obtain ⟨hupper, hmiddle, hlower⟩ :=
        forgets_bollingerBands (T := T) num (periodAt .bbands params 0) (paramAt .bbands params 1)
      refine .some (SameTails.results ?_ (hmiddle.lastValues_eq hwindow bars) _ _)
      exact .cons ⟨rfl, hupper.lastValues_eq hwindow bars⟩
        (.cons ⟨rfl, hmiddle.lastValues_eq hwindow bars⟩
          (.cons ⟨rfl, hlower.lastValues_eq hwindow bars⟩ .nil))
  | stoch =>
    simp only [calculateRequiredBars] at hwindow
    by_cases hshort : bars.length < periodAt .stoch params 0
    · rw [lastBars_eq_self (by omega)]
      cases computeIndicator num _ bars with
      | none => exact .none
      | some results => exact .some (SameTails.refl results)
    · have hshort' : ¬ (lastBars window bars).length < periodAt .stoch params 0 := by
        rw [length_lastBars]
        omega
      simp only [computeIndicator, if_neg hshort, if_neg hshort']
      split_ifs with hk hd hsmooth
      · exact .none
      · exact .none
      · exact .none
      · obtain ⟨hfast, hslow⟩ := forgets_stochastic (T := T) (K := K) (Nat.pos_of_ne_zero hk)
          (Nat.pos_of_ne_zero hd) (Nat.pos_of_ne_zero hsmooth)
        have hk' : periodAt .stoch params 0 + periodAt .stoch params 2 - 1 + 2 ≤ window := by omega
        have hd' : periodAt .stoch params 0 + periodAt .stoch params 2 - 1 +
            periodAt .stoch params 1 - 1 + 2 ≤ window := by omega
        refine .some (SameTails.results ?_ (hfast.lastValues_eq hk' bars) _ _)
        exact .cons ⟨rfl, hfast.lastValues_eq hk' bars⟩
          (.cons ⟨rfl, hslow.lastValues_eq hd' bars⟩ .nil)
  | cci =>
    simp only [computeIndicator]
    split_ifs
    · exact .none
    · exact .some (hsingle (forgets_cci _) hwindow rfl rfl)
  | williamsR =>
    simp only [computeIndicator]
    split_ifs
    · exact .none
    · exact .some (hsingle (forgets_williamsR _) hwindow rfl rfl)
  | mfi => exact .some (hsingle (forgets_mfi _) hwindow rfl rfl)
  | donchian =>
    simp only [computeIndicator]
    split_ifs
    · exact .none
    · obtain ⟨hupper, hlower⟩ := forgets_donchian (T := T) (K := K) (periodAt .donchian params 0)
      refine .some (SameTails.results ?_ (hupper.lastValues_eq hwindow bars) _ _)
      exact .cons ⟨rfl, hupper.lastValues_eq hwindow bars⟩
        (.cons ⟨rfl, hlower.lastValues_eq hwindow bars⟩ .nil)
  | stddev => exact .some (hsingle (forgets_stddev num _) hwindow rfl rfl)
  | momentum =>
    simp only [computeIndicator]
    split_ifs
    · exact .none
    · exact .some (hsingle (forgets_momentum _) hwindow rfl rfl)

/-- The computed indicators of two strategies have the same last values. -/
def IndicatorsAgree (computed' computed : String → Option (Series K)) : Prop :=
  ∀ key, (computed' key).map lastValues = (computed key).map lastValues

omit [Field K] [LinearOrder K] in
theorem SameTails.update {results' results : List (String × Series K)}
    {computed' computed : String → Option (Series K)} (h : SameTails results' results)
    (hcomputed : IndicatorsAgree computed' computed) :
    IndicatorsAgree
      (results'.foldl (fun computed (key, series) => Function.update computed key (some series))
        computed')
      (results.foldl (fun computed (key, series) => Function.update computed key (some series))
        computed) := by
  induction h generalizing computed' computed with
  | nil => exact hcomputed
  | @cons a b results' results hab _ ih =>
    rw [List.foldl_cons, List.foldl_cons]
    refine ih fun key => ?_
    simp only [hab.1]
    by_cases hkey : key = b.1
    · rw [hkey, Function.update_self, Function.update_self, Option.map_some, Option.map_some, hab.2]
    · rw [Function.update_of_ne hkey, Function.update_of_ne hkey]
      exact hcomputed key

/-- A fold that may raise, over related states. -/
theorem foldlM_rel {α β : Type} {r : β → β → Prop} {f' f : β → α → Option β} {l : List α}
    (h : ∀ x ∈ l, ∀ b' b, r b' b → Option.Rel r (f' b' x) (f b x)) {b' b : β} (hb : r b' b) :
    Option.Rel r (l.foldlM f' b') (l.foldlM f b) := by
  induction l generalizing b' b with
  | nil => exact .some hb
  | cons x l ih =>
    have hx := h x (List.mem_cons_self ..) b' b hb
    rw [List.foldlM_cons, List.foldlM_cons]
    generalize f' b' x = c' at hx ⊢
    generalize f b x = c at hx ⊢
    cases hx with
    | none => exact .none
    | some hc => exact ih (fun y hy => h y (List.mem_cons_of_mem _ hy)) hc

/-- What is asked of an indicator, where the window is shorter than the history. -/
def SpecFits (window : ℕ) (history : InsertionDict (List (Bar T K))) (spec : IndicatorSpec) : Prop :=
  spec.indicatorType.isCumulative = false ∧
    calculateRequiredBars spec.indicatorType spec.params + 2 ≤ window ∧
    (spec.indicatorType.isRecursive = true →
      ∀ entry ∈ history, entry.1 = spec.symbol → entry.2.length ≤ window)

theorem computeSymbolIndicators_agree {compiled compiled' : CompiledStrategy K}
    {history : InsertionDict (List (Bar T K))} {entry : String × List (Bar T K)}
    (hindicators : compiled'.indicators = compiled.indicators)
    (hfits : ∀ spec ∈ compiled.indicators, SpecFits window history spec) (hentry : entry ∈ history)
    {computed' computed : String → Option (Series K)}
    (hcomputed : IndicatorsAgree computed' computed) :
    Option.Rel IndicatorsAgree
      (compiled'.computeSymbolIndicators num computed' entry.1 (lastBars window entry.2))
      (compiled.computeSymbolIndicators num computed entry.1 entry.2) := by
  rw [CompiledStrategy.computeSymbolIndicators, CompiledStrategy.computeSymbolIndicators,
    hindicators]
  refine foldlM_rel (fun spec hspec computed' computed hcomputed => ?_) hcomputed
  obtain ⟨hmem, hsymbol⟩ := List.mem_filter.mp hspec
  obtain ⟨hcumulative, hwindow, hrecursive⟩ := hfits spec hmem
  have hresults : Option.Rel SameTails (computeIndicator num spec (lastBars window entry.2))
      (computeIndicator num spec entry.2) := by
    cases hname : spec.indicatorType.isRecursive with
    | true =>
      have hsym : spec.symbol = entry.1 := by simpa using hsymbol
      rw [lastBars_eq_self (hrecursive hname entry hentry hsym.symm)]
      cases computeIndicator num spec entry.2 with
      | none => exact .none
      | some results => exact .some (SameTails.refl results)
    | false => exact computeIndicator_windowed hname hcumulative hwindow entry.2
  generalize computeIndicator num spec (lastBars window entry.2) = results' at hresults ⊢
  generalize computeIndicator num spec entry.2 = results at hresults ⊢
  cases hresults with
  | none => exact .none
  | some htails => exact .some (htails.update hcomputed)

theorem computeAllIndicators_agree (num : Numerics K) {compiled compiled' : CompiledStrategy K}
    {history : InsertionDict (List (Bar T K))}
    (hindicators : compiled'.indicators = compiled.indicators)
    (hfits : ∀ spec ∈ compiled.indicators, SpecFits window history spec) (hwindow : 0 < window) :
    Option.Rel IndicatorsAgree
      (compiled'.computeAllIndicators num (history.mapValues (lastBars window)))
      (compiled.computeAllIndicators num history) := by
  rw [CompiledStrategy.computeAllIndicators, CompiledStrategy.computeAllIndicators,
    InsertionDict.mapValues, List.foldlM_map]
  refine foldlM_rel (fun entry hentry computed' computed hcomputed => ?_) fun _ => rfl
  simp only [isEmpty_lastBars hwindow]
  split_ifs
  · exact .some hcomputed
  · exact computeSymbolIndicators_agree hindicators hfits hentry hcomputed

/-- The states of a tick, with and without a window. -/
theorem buildState_agree (num : Numerics K) {compiled : CompiledStrategy K}
    (compiled' : CompiledStrategy K) {history : InsertionDict (List (Bar T K))} (bars : InsertionDict (Bar T K))
    (hindicators : compiled'.indicators = compiled.indicators)
    (hfits : ∀ spec ∈ compiled.indicators, SpecFits window history spec) (hwindow : 2 ≤ window) :
    Option.Rel (StatesAgree window)
      (compiled'.buildState num bars (history.mapValues (lastBars window)))
      (compiled.buildState num bars history) := by
  have hcomputed := computeAllIndicators_agree num hindicators hfits (by omega)
  rw [CompiledStrategy.buildState, CompiledStrategy.buildState]
  generalize compiled'.computeAllIndicators num (history.mapValues (lastBars window)) = computed'
    at hcomputed ⊢
  generalize compiled.computeAllIndicators num history = computed at hcomputed ⊢
  cases hcomputed with
  | none => exact .none
  | some hagree =>
    refine .some ⟨rfl, ?_, fun symbol => ?_, hagree⟩
    · funext symbol
      simp only [InsertionDict.lookup_mapValues]
      cases List.lookup symbol history with
      | none => rfl
      | some stored =>
        simp only [Option.map_some, Option.bind_some]
        by_cases hlong : stored.length ≥ 2
        · have hprev := getElem?_lastBars stored (show 1 < window by omega) (by omega)
          rw [if_pos hlong, if_pos (by rw [length_lastBars]; omega)]
          exact hprev
        · rw [if_neg hlong, if_neg (by rw [length_lastBars]; omega)]
    · rw [EvaluationState.bars, EvaluationState.bars, InsertionDict.getD, InsertionDict.getD,
        InsertionDict.lookup_mapValues]
      cases List.lookup symbol history with
      | none => simp [lastBars]
      | some stored => rfl

end Computing

/-! ## The indicators of a strategy -/

/-- The specs of bounded indicators, with the bars that they need. -/
def SpecsBounded (specs : List IndicatorSpec) : Prop :=
  ∀ spec ∈ specs, spec.indicatorType.isCumulative = false ∧
    spec.requiredBars = calculateRequiredBars spec.indicatorType spec.params

section Extraction

variable [Field K] {num : Numerics K} {specs : List IndicatorSpec}

theorem extractFromValue_bounded (h : SpecsBounded specs) {value : Value K}
    (hreads : (walkValue value).2 = false) : SpecsBounded (extractFromValue num specs value) := by
  cases value with
  | numericLiteral x => exact h
  | price symbol field => exact h
  | metric metric => exact h
  | indicator ind =>
    rw [extractFromValue]
    split_ifs
    · exact h
    · intro spec hspec
      obtain hspec | hspec := List.mem_append.mp hspec
      · exact h spec hspec
      · rw [List.mem_singleton.mp hspec]
        refine ⟨?_, rfl⟩
        cases hname : ind.name with
        | obv | vwap => simp [walkValue, hname] at hreads
        | _ => rfl

mutual

theorem extractFromCondition_bounded : (condition : Condition K) → (specs : List IndicatorSpec) →
    SpecsBounded specs → (walkCondition condition).2 = false →
      SpecsBounded (extractFromCondition num specs condition)
  | .comparison operator left right, specs, h, hreads => by
    rw [walkCondition, bothReads, Bool.or_eq_false_iff] at hreads
    rw [extractFromCondition]
    exact extractFromValue_bounded (extractFromValue_bounded h hreads.1) hreads.2
  | .crossover direction fast slow, specs, h, hreads => by
    rw [walkCondition, bothReads, Bool.or_eq_false_iff] at hreads
    rw [extractFromCondition]
    exact extractFromValue_bounded (extractFromValue_bounded h hreads.1) hreads.2
  | .logicalOp operator operands, specs, h, hreads => by
    rw [walkCondition] at hreads
    rw [extractFromCondition]
    exact extractFromOperands_bounded operands specs h hreads

theorem extractFromOperands_bounded : (operands : List (Condition K)) →
    (specs : List IndicatorSpec) → SpecsBounded specs → (walkOperands operands).2 = false →
      SpecsBounded (extractFromOperands num specs operands)
  | [], specs, h, _ => by rwa [extractFromOperands]
  | operand :: operands, specs, h, hreads => by
    rw [walkOperands, bothReads, Bool.or_eq_false_iff] at hreads
    rw [extractFromOperands]
    exact extractFromOperands_bounded operands _
      (extractFromCondition_bounded operand specs h hreads.1) hreads.2

end

mutual

theorem extractFromBlock_bounded : (block : Block K) → (specs : List IndicatorSpec) →
    SpecsBounded specs → (walkBlock block).2 = false →
      SpecsBounded (extractFromBlock num specs block)
  | .strategy _ children _, specs, h, hreads => by
    rw [walkBlock] at hreads
    rw [extractFromBlock]
    exact extractFromBlocks_bounded children specs h hreads
  | .group _ children _, specs, h, hreads => by
    rw [walkBlock] at hreads
    rw [extractFromBlock]
    exact extractFromBlocks_bounded children specs h hreads
  | .weight _ children .., specs, h, hreads => by
    rw [walkBlock, bothReads, Bool.or_eq_false_iff] at hreads
    rw [extractFromBlock]
    exact extractFromBlocks_bounded children specs h hreads.2
  | .asset .., specs, h, _ => by rwa [extractFromBlock]
  | .onlyIf condition thenBlock, specs, h, hreads => by
    rw [walkBlock, bothReads, Bool.or_eq_false_iff] at hreads
    rw [extractFromBlock]
    exact extractFromBlock_bounded thenBlock _
      (extractFromCondition_bounded condition specs h hreads.1) hreads.2
  | .ifElse condition thenBlock elseBlock, specs, h, hreads => by
    rw [walkBlock, bothReads, bothReads, Bool.or_eq_false_iff, Bool.or_eq_false_iff] at hreads
    rw [extractFromBlock]
    exact extractFromBlock_bounded elseBlock _ (extractFromBlock_bounded thenBlock _
      (extractFromCondition_bounded condition specs h hreads.1.1) hreads.1.2) hreads.2
  | .filter _ _ _ children _, specs, h, hreads => by
    rw [walkBlock, bothReads, Bool.or_eq_false_iff] at hreads
    rw [extractFromBlock]
    exact extractFromBlocks_bounded children specs h hreads.2

theorem extractFromBlocks_bounded : (blocks : List (Block K)) → (specs : List IndicatorSpec) →
    SpecsBounded specs → (walkChildren blocks).2 = false →
      SpecsBounded (extractFromBlocks num specs blocks)
  | [], specs, h, _ => by rwa [extractFromBlocks]
  | block :: blocks, specs, h, hreads => by
    rw [walkChildren, bothReads, Bool.or_eq_false_iff] at hreads
    rw [extractFromBlocks]
    exact extractFromBlocks_bounded blocks _ (extractFromBlock_bounded block specs h hreads.1)
      hreads.2

end

end Extraction

/-! ## Runs -/

/-- The strategy with all bars kept. -/
def CompiledStrategy.unbounded (compiled : CompiledStrategy K) : CompiledStrategy K :=
  { compiled with historyWindow := none }

/-- The window of a strategy. -/
def strategyWindow [Field K] (num : Numerics K) (strategy : Strategy K) : ℕ :=
  computeWindow strategy (CompiledStrategy.compile num strategy).minBars

/-- No recursive indicator is read of a symbol that has more bars than the window, and if a block
reads all returns, no symbol has. -/
def WindowSafe [Field K] (num : Numerics K) (strategy : Strategy K)
    (history : InsertionDict (List (Bar T K))) : Prop :=
  (∀ spec ∈ extractIndicators num strategy, spec.indicatorType.isRecursive = true →
    ∀ entry ∈ history, entry.1 = spec.symbol → entry.2.length ≤ strategyWindow num strategy) ∧
  (anyReadsAllReturns strategy.children = true →
    ∀ entry ∈ history, entry.2.length ≤ strategyWindow num strategy)

section Runs

variable [Field K] [LinearOrder K] [DecidableEq T] {num : Numerics K}

/-- The allocations of a strategy, tick by tick. -/
def CompiledStrategy.allocations (num : Numerics K) (compiled : CompiledStrategy K) :
    StrategyMemory T K → List (InsertionDict (Bar T K)) → List (Option (Allocation K))
  | _, [] => []
  | memory, bars :: ticks =>
    (compiled.computeAllocation num memory bars).2 ::
      compiled.allocations num (compiled.computeAllocation num memory bars).1 ticks

/-- The bars of the ticks, with a re-sent bar in the place of the one it replaces. -/
def streamedBars (history : InsertionDict (List (Bar T K)))
    (ticks : List (InsertionDict (Bar T K))) : InsertionDict (List (Bar T K)) :=
  ticks.foldl (fun history bars => bars.foldl (fun history (symbol, bar) =>
    history.modify (fun stored => storeBar none stored bar) [] symbol) history) history

/-- What two strategies remember, of which one keeps the last bars only. -/
structure MemoriesAgree (window : ℕ) (memory' memory : StrategyMemory T K) : Prop where
  barHistory : memory'.barHistory = memory.barHistory.mapValues (lastBars window)
  lastAllocation : memory'.lastAllocation = memory.lastAllocation

theorem le_foldr_max {l : List ℕ} {m : ℕ} : m ≤ l.foldr max m ∧ ∀ n ∈ l, n ≤ l.foldr max m := by
  induction l with
  | nil => exact ⟨le_rfl, fun _ h => absurd h List.not_mem_nil⟩
  | cons k l ih =>
    refine ⟨ih.1.trans (le_max_right ..), fun n hn => ?_⟩
    obtain rfl | hn := List.mem_cons.mp hn
    · exact le_max_left ..
    · exact (ih.2 n hn).trans (le_max_right ..)

omit [LinearOrder K] in
/-- The window covers what the strategy reads, with room for ten more bars. -/
theorem strategyWindow_covers (num : Numerics K) {strategy : Strategy K}
    (hbounded : (walkChildren strategy.children).2 = false) :
    let compiled := CompiledStrategy.compile num strategy
    ∃ needed, strategyWindow num strategy = needed + 10 ∧ compiled.minBars ≤ needed ∧
      2 ≤ compiled.minBars ∧ ReadsWithin needed (walkChildren strategy.children) ∧
      ∀ spec ∈ compiled.indicators, spec.requiredBars ≤ needed := by
  intro compiled
  refine ⟨(collectLookbacks strategy compiled.minBars).1, ?_, le_foldr_max.1, le_max_right .., ?_,
    fun spec hspec => ?_⟩
  · have hflag : (collectLookbacks strategy compiled.minBars).2 = false := hbounded
    rw [strategyWindow, computeWindow]
    simp only [compiled] at hflag ⊢
    rw [hflag]
    rfl
  · exact ⟨hbounded, le_foldr_max.2⟩
  · have hmax : spec.requiredBars ≤ getMaxLookback compiled.indicators :=
      le_foldr_max.2 _ (List.mem_map_of_mem hspec)
    have hmin : getMaxLookback compiled.indicators ≤ compiled.minBars :=
      (le_foldr_max.1 : _ ≤ (collectLookbacks strategy (getMaxLookback compiled.indicators)).1).trans
        (le_max_left ..)
    exact (hmax.trans hmin).trans le_foldr_max.1

omit [LinearOrder K] in
theorem addBars_agree {strategy : Strategy K} (hwindow : 0 < strategyWindow num strategy)
    (history : InsertionDict (List (Bar T K))) (bars : InsertionDict (Bar T K)) :
    (CompiledStrategy.compile num strategy).addBars
        (history.mapValues (lastBars (strategyWindow num strategy))) bars =
      ((CompiledStrategy.compile num strategy).unbounded.addBars history bars).mapValues
        (lastBars (strategyWindow num strategy)) := by
  rw [CompiledStrategy.addBars, CompiledStrategy.addBars]
  induction bars generalizing history with
  | nil => rfl
  | cons entry bars ih =>
    obtain ⟨symbol, bar⟩ := entry
    rw [List.foldl_cons, List.foldl_cons, ← ih]
    congr 1
    refine (InsertionDict.mapValues_modify symbol ?_ fun stored _ => ?_).symm
    · have hempty := addBar_lastBars hwindow [] bar
      rw [show lastBars (strategyWindow num strategy) ([] : List (Bar T K)) = [] from
        List.drop_nil] at hempty
      exact hempty.symm
    · exact (addBar_lastBars hwindow stored bar).symm

omit [LinearOrder K] [DecidableEq T] in
theorem hasEnoughHistory_agree {strategy : Strategy K} {window : ℕ}
    (hwindow : (CompiledStrategy.compile num strategy).minBars ≤ window)
    (history : InsertionDict (List (Bar T K))) :
    (CompiledStrategy.compile num strategy).hasEnoughHistory
        (history.mapValues (lastBars window)) =
      (CompiledStrategy.compile num strategy).unbounded.hasEnoughHistory history := by
  rw [CompiledStrategy.hasEnoughHistory, CompiledStrategy.hasEnoughHistory]
  have hall : ∀ entry : String × List (Bar T K),
      decide ((lastBars window entry.2).length ≥ (CompiledStrategy.compile num strategy).minBars) =
        decide (entry.2.length ≥ (CompiledStrategy.compile num strategy).unbounded.minBars) := by
    intro entry
    have hsame : (CompiledStrategy.compile num strategy).unbounded.minBars =
      (CompiledStrategy.compile num strategy).minBars := rfl
    rw [length_lastBars, hsame, decide_eq_decide]
    omega
  simp only [InsertionDict.mapValues, List.isEmpty_map, List.all_map, Function.comp_def, hall]

omit [DecidableEq T] in
/-- The state of a tick has the bars of the history. -/
theorem bars_le_of_history {compiled : CompiledStrategy K} {bars : InsertionDict (Bar T K)}
    {history : InsertionDict (List (Bar T K))} {state : EvaluationState T K} {window : ℕ}
    (hstate : compiled.buildState num bars history = some state)
    (h : ∀ entry ∈ history, entry.2.length ≤ window) (symbol : String) :
    (state.bars symbol).length ≤ window := by
  rw [CompiledStrategy.buildState] at hstate
  obtain ⟨indicators, -, hsome⟩ := Option.bind_eq_some_iff.mp hstate
  obtain rfl := Option.some.inj hsome
  rw [EvaluationState.bars, InsertionDict.getD]
  cases hlookup : List.lookup symbol history with
  | none => exact Nat.zero_le _
  | some stored =>
    obtain ⟨entry, hentry, rfl⟩ := List.mem_map.mp (InsertionDict.mem_values_of_lookup hlookup)
    exact h entry hentry

/-- One tick, with and without a window. -/
theorem computeAllocation_agree {strategy : Strategy K}
    (hvalid : validateStrategy num strategy = [])
    (hbounded : (walkChildren strategy.children).2 = false) {memory' memory : StrategyMemory T K}
    (h : MemoriesAgree (strategyWindow num strategy) memory' memory)
    (bars : InsertionDict (Bar T K))
    (hsafe : WindowSafe num strategy
      ((CompiledStrategy.compile num strategy).unbounded.addBars memory.barHistory bars)) :
    let compiled := CompiledStrategy.compile num strategy
    (compiled.computeAllocation num memory' bars).2 =
        (compiled.unbounded.computeAllocation num memory bars).2 ∧
      MemoriesAgree (strategyWindow num strategy) (compiled.computeAllocation num memory' bars).1
        (compiled.unbounded.computeAllocation num memory bars).1 := by
  intro compiled
  obtain ⟨needed, hwindow, hmin, htwo, hreads, hrequired⟩ :=
    strategyWindow_covers num hbounded
  have hhistory : compiled.addBars memory'.barHistory bars =
      (compiled.unbounded.addBars memory.barHistory bars).mapValues
        (lastBars (strategyWindow num strategy)) := by
    rw [h.barHistory]
    exact addBars_agree (by omega) memory.barHistory bars
  generalize hfull : compiled.unbounded.addBars memory.barHistory bars = history at hhistory hsafe
  have henough : compiled.hasEnoughHistory
      (history.mapValues (lastBars (strategyWindow num strategy))) =
      compiled.unbounded.hasEnoughHistory history := hasEnoughHistory_agree (by omega) history
  have hspecs : SpecsBounded compiled.indicators :=
    extractFromBlocks_bounded strategy.children [] (fun _ hmem => absurd hmem List.not_mem_nil)
      hbounded
  have hfits : ∀ spec ∈ compiled.unbounded.indicators,
      SpecFits (strategyWindow num strategy) history spec := by
    intro spec hspec
    obtain ⟨hcumulative, hbars⟩ := hspecs spec hspec
    have hle := hrequired spec hspec
    exact ⟨hcumulative, by omega, hsafe.1 spec hspec⟩
  have hstates : Option.Rel (StatesAgree (strategyWindow num strategy))
      (compiled.buildState num bars (history.mapValues (lastBars (strategyWindow num strategy))))
      (compiled.unbounded.buildState num bars history) :=
    buildState_agree num compiled bars rfl hfits (by omega)
  rw [CompiledStrategy.computeAllocation, CompiledStrategy.computeAllocation, hhistory, hfull,
    henough]
  cases hready : compiled.unbounded.hasEnoughHistory history with
  | false => exact ⟨rfl, rfl, h.lastAllocation⟩
  | true =>
    simp only [Bool.not_true, Bool.false_eq_true, if_false]
    cases hstate : compiled.unbounded.buildState num bars history with
    | none =>
      rw [hstate] at hstates
      cases hstate' : compiled.buildState num bars
          (history.mapValues (lastBars (strategyWindow num strategy))) with
      | none => exact ⟨rfl, rfl, h.lastAllocation⟩
      | some state' =>
        rw [hstate'] at hstates
        cases hstates
    | some state =>
      rw [hstate] at hstates
      cases hstate' : compiled.buildState num bars
          (history.mapValues (lastBars (strategyWindow num strategy))) with
      | none =>
        rw [hstate'] at hstates
        cases hstates
      | some state' =>
        rw [hstate'] at hstates
        obtain ⟨hagree⟩ := hstates
        have hblocks : sharesAndAllocations num state' strategy.children =
            sharesAndAllocations num state strategy.children := by
          simp only [validateStrategy, List.append_eq_nil_iff] at hvalid
          refine blocks_agree hagree hwindow.ge strategy.children _ 0 hvalid.1.2 hreads ?_
          exact fun hall => bars_le_of_history hstate (hsafe.2 hall)
        have hweights : sharesAndAllocations num state' compiled.strategy.children =
            sharesAndAllocations num state compiled.unbounded.strategy.children := hblocks
        simp only [hweights, h.lastAllocation]
        exact ⟨rfl, rfl, rfl⟩

theorem computeAllocation_barHistory (num : Numerics K) (compiled : CompiledStrategy K)
    (memory : StrategyMemory T K) (bars : InsertionDict (Bar T K)) :
    (compiled.computeAllocation num memory bars).1.barHistory =
      compiled.addBars memory.barHistory bars := by
  rw [CompiledStrategy.computeAllocation]
  simp only
  split
  · rfl
  · split
    · rfl
    · rfl

theorem allocations_agree {strategy : Strategy K} (hvalid : validateStrategy num strategy = [])
    (hbounded : (walkChildren strategy.children).2 = false)
    {ticks : List (InsertionDict (Bar T K))} {memory' memory : StrategyMemory T K}
    (h : MemoriesAgree (strategyWindow num strategy) memory' memory)
    (hsafe : ∀ done, done <+: ticks →
      WindowSafe num strategy (streamedBars memory.barHistory done)) :
    (CompiledStrategy.compile num strategy).allocations num memory' ticks =
      (CompiledStrategy.compile num strategy).unbounded.allocations num memory ticks := by
  induction ticks generalizing memory' memory with
  | nil => rfl
  | cons bars ticks ih =>
    obtain ⟨hallocation, hmemories⟩ := computeAllocation_agree hvalid hbounded h
      bars (hsafe [bars] ⟨ticks, rfl⟩)
    rw [CompiledStrategy.allocations, CompiledStrategy.allocations, hallocation]
    congr 1
    refine ih hmemories fun done hdone => ?_
    rw [computeAllocation_barHistory]
    exact hsafe (bars :: done) (List.cons_prefix_cons.mpr ⟨rfl, hdone⟩)

/-- As long as `WindowSafe` holds of the bars so far, a validated strategy whose reads are bounded
allocates at every tick as if it kept all bars. -/
theorem window_keeps_allocations {strategy : Strategy K}
    (hvalid : validateStrategy num strategy = [])
    (hbounded : (walkChildren strategy.children).2 = false)
    (ticks : List (InsertionDict (Bar T K)))
    (hsafe : ∀ done, done <+: ticks → WindowSafe num strategy (streamedBars [] done)) :
    (CompiledStrategy.compile num strategy).allocations num ⟨[], []⟩ ticks =
      (CompiledStrategy.compile num strategy).unbounded.allocations num ⟨[], []⟩ ticks :=
  allocations_agree hvalid hbounded ⟨rfl, rfl⟩ hsafe

end Runs

namespace Sample

/-- Stocks while an average of their last two bars is above one, else bonds. -/
def trend (average : IndicatorName) : Strategy ℚ where
  name := "Trend"
  rebalance := some .daily
  children := [.ifElse (.comparison .gt (.indicator ⟨average, "SPY", [.int 2], none, none⟩)
    (.numericLiteral 1)) (.asset "SPY" (some 100)) (.asset "TLT" (some 100))]

/-- A first minute at a high price and fourteen minutes at one. -/
def fallingMinutes : List (InsertionDict (Bar ℕ ℚ)) :=
  (List.range 15).map fun minute => minuteBars minute (if minute = 0 then 1000000 else 1) 1 1

end Sample

theorem window_keeps_allocations_trend :
    strategyWindow Sample.numerics (Sample.trend .sma) = 12 ∧
      (CompiledStrategy.compile Sample.numerics (Sample.trend .sma)).allocations Sample.numerics
          ⟨[], []⟩ Sample.fallingMinutes =
        (CompiledStrategy.compile Sample.numerics (Sample.trend .sma)).unbounded.allocations
          Sample.numerics ⟨[], []⟩ Sample.fallingMinutes := by
  refine ⟨by decide, window_keeps_allocations (by decide +kernel) (by decide) _
    fun done _ => ⟨fun spec hspec hrecursive => ?_, fun hall => absurd hall (by decide)⟩⟩
  have hsimple : ∀ spec ∈ extractIndicators Sample.numerics (Sample.trend .sma),
      spec.indicatorType.isRecursive = false := by decide
  rw [hsimple spec hspec] at hrecursive
  cases hrecursive

/-- The first price leaves the window and the average no longer sees it. -/
theorem ema_forgets_first_price :
    let compiled := CompiledStrategy.compile Sample.numerics (Sample.trend .ema)
    let holdings := fun allocations : List (Option (Allocation ℚ)) =>
      allocations[14]?.map fun last => last.map fun allocation => allocation.weights
    validateStrategy Sample.numerics (Sample.trend .ema) = [] ∧
      (walkChildren (Sample.trend .ema).children).2 = false ∧
      holdings (compiled.allocations Sample.numerics ⟨[], []⟩ Sample.fallingMinutes) =
        some (some [("TLT", some 100)]) ∧
      holdings (compiled.unbounded.allocations Sample.numerics ⟨[], []⟩ Sample.fallingMinutes) =
        some (some [("SPY", some 100)]) := by
  decide +kernel

end LlamaTrade
