import LlamaTrade.CompiledStrategy
import Mathlib.Algebra.BigOperators.Ring.List
import Mathlib.Algebra.Order.BigOperators.Group.List
import Mathlib.Tactic.FieldSimp
import Mathlib.Tactic.Linarith
import Mathlib.Tactic.Positivity
import Mathlib.Tactic.Ring

/-!
# Full allocations

When the weights of a validated strategy are a full allocation: not empty, none negative, and one
hundred in all. Every block hands a full allocation to its parent, unless the weights that act as
shares are not positive, a `specified` block has no child that declares a share, or a filter
selects only symbols of weight zero. Which symbols a block holds is computed here without its
weights.
-/

namespace LlamaTrade

variable {T K : Type} [Field K] [LinearOrder K]

/-! ## Holdings -/

/-- The symbols of an allocation, each with whether its weight is positive. -/
abbrev Holdings := InsertionDict Bool

/-- The symbols of two allocations. -/
def Holdings.merge (a b : Holdings) : Holdings :=
  b.foldl (fun merged e => merged.modify (· || e.2) false e.1) a

/-- The symbols of all allocations. -/
def Holdings.union (parts : List Holdings) : Holdings := parts.foldl Holdings.merge []

/-- The holdings of given weights. -/
def Weights.holdings (weights : Weights K) : Holdings :=
  weights.mapValues fun x => x.any (0 < ·)

section Holdings

variable (num : Numerics K) (state : EvaluationState T K)

/-- The share that a block declares, through the branches that are taken. -/
def declaredShare : Block K → Option K
  | .asset _ weight => weight
  | .group _ _ weight => weight
  | .onlyIf condition thenBlock =>
    if evaluateConditionSafe num state condition then declaredShare thenBlock else none
  | .ifElse condition thenBlock elseBlock =>
    if evaluateConditionSafe num state condition then declaredShare thenBlock
    else declaredShare elseBlock
  | _ => none

mutual

/-- The symbols that a block holds. -/
def heldBy : Block K → Holdings
  | .strategy _ children _ => Holdings.union (allHeld children)
  | .group _ children _ => Holdings.union (allHeld children)
  | .weight .specified children .. => Holdings.union (declaredHeld children)
  | .weight .equal children .. => Holdings.union (allHeld children)
  | .weight method children lookback top _ =>
    let symbols := (Holdings.union (allHeld children)).keys
    (computedWeights num state method lookback top symbols).holdings
  | .asset symbol _ => [(symbol, true)]
  | .onlyIf condition thenBlock =>
    if evaluateConditionSafe num state condition then heldBy thenBlock else []
  | .ifElse condition thenBlock elseBlock =>
    if evaluateConditionSafe num state condition then heldBy thenBlock else heldBy elseBlock
  | .filter criterion direction count children lookback =>
    let held := Holdings.union (allHeld children)
    (filterSelected num state criterion direction count lookback held.keys).filterMap fun symbol =>
      (held.lookup symbol).map (symbol, ·)

def allHeld : List (Block K) → List Holdings
  | [] => []
  | block :: blocks => heldBy block :: allHeld blocks

/-- The symbols held by the blocks that declare a share. -/
def declaredHeld : List (Block K) → List Holdings
  | [] => []
  | block :: blocks =>
    if (declaredShare num state block).isSome then heldBy block :: declaredHeld blocks
    else declaredHeld blocks

end

/-- If all siblings declare a share, all shares are positive. -/
def PositiveShares (children : List (Block K)) : Prop :=
  (∀ c ∈ children, (declaredShare num state c).isSome) →
    ∀ c ∈ children, ∀ share, declaredShare num state c = some share → 0 < share

/-- In no round of the risk-parity iteration do the inverses of the marginal risks add up to
zero. -/
def RiskParityDefined (cov : List (Series K)) : ℕ → Series K → Prop
  | 0, _ => True
  | rounds + 1, w =>
    sumN ((marginalRisk cov w).map (divN (some 1))) ≠ some 0 ∧
      (riskParityConverged (riskParityNext cov w) w = false →
        RiskParityDefined cov rounds (riskParityNext cov w))

mutual

/-- The blocks of which the evaluator makes full allocations. -/
def Allocates : Block K → Prop
  | .strategy _ children _ => AllAllocate children ∧ PositiveShares num state children
  | .group _ children _ => AllAllocate children ∧ PositiveShares num state children
  | .weight .specified children .. =>
    DeclaredAllocate children ∧ (∃ c ∈ children, (declaredShare num state c).isSome) ∧
      ∀ c ∈ children, ∀ share, declaredShare num state c = some share → 0 < share
  | .weight .riskParity children lookback .. =>
    AllAllocate children ∧ ∀ sorted returns,
      alignedReturns state (Holdings.union (allHeld num state children)).keys lookback =
        some (sorted, returns) →
      RiskParityDefined (covarianceMatrix returns) 500
        (List.replicate sorted.length (some (1 / sorted.length)))
  | .weight _ children .. => AllAllocate children
  | .asset .. => True
  | .onlyIf condition thenBlock =>
    evaluateConditionSafe num state condition = true ∧ Allocates thenBlock
  | .ifElse condition thenBlock elseBlock =>
    if evaluateConditionSafe num state condition then Allocates thenBlock else Allocates elseBlock
  | .filter criterion direction count children lookback =>
    AllAllocate children ∧ PositiveShares num state children ∧
      let held := Holdings.union (allHeld num state children)
      ∃ symbol ∈ filterSelected num state criterion direction count lookback held.keys,
        held.lookup symbol = some true

def AllAllocate : List (Block K) → Prop
  | [] => True
  | block :: blocks => Allocates block ∧ AllAllocate blocks

/-- The blocks that declare a share. -/
def DeclaredAllocate : List (Block K) → Prop
  | [] => True
  | block :: blocks =>
    ((declaredShare num state block).isSome → Allocates block) ∧ DeclaredAllocate blocks

end

end Holdings

/-! ## Amounts -/

/-- Amounts by symbol, none of them negative. -/
structure Amounts (K : Type) [Field K] [LinearOrder K] where
  entries : InsertionDict K
  nodup : entries.keys.Nodup
  nonneg : ∀ x ∈ entries.values, 0 ≤ x

namespace Amounts

/-- The amounts as weights of an allocation. -/
def weights (a : Amounts K) : Weights K := a.entries.mapValues some

def held (a : Amounts K) : Holdings := a.entries.mapValues fun x => decide (0 < x)

def total (a : Amounts K) : K := a.entries.values.sum

def empty : Amounts K := ⟨[], List.nodup_nil, fun _ hx => absurd hx List.not_mem_nil⟩

end Amounts

/-- The weights are a full allocation that holds the given symbols. -/
def Full (weights : Weights K) (held : Holdings) : Prop :=
  ∃ a : Amounts K, a.weights = weights ∧ a.held = held ∧ a.total = 100

section Amounts

variable {a b : Amounts K}

omit [LinearOrder K] in
theorem sumN_some (xs : List K) (x : K) :
    (xs.map some).foldl addN (some x) = some (x + xs.sum) := by
  induction xs generalizing x with
  | nil => simp
  | cons y xs ih =>
    rw [List.map_cons, List.foldl_cons, List.sum_cons, ← add_assoc]
    exact ih (x + y)

theorem Amounts.sumN_weights (a : Amounts K) : sumN a.weights.values = some a.total := by
  rw [Amounts.weights, InsertionDict.values_mapValues, sumN, sumN_some, zero_add, Amounts.total]

theorem Full.ne_nil {weights : Weights K} {held : Holdings} [CharZero K] (h : Full weights held) :
    weights ≠ [] := by
  obtain ⟨a, rfl, -, htotal⟩ := h
  intro hnil
  have hempty : a.entries = [] := List.map_eq_nil_iff.mp hnil
  rw [Amounts.total, hempty, InsertionDict.values, List.map_nil, List.sum_nil] at htotal
  exact absurd htotal (by norm_num)

theorem Full.keys_eq {weights : Weights K} {held : Holdings} (h : Full weights held) :
    held.keys = weights.keys := by
  obtain ⟨a, rfl, rfl, -⟩ := h
  rw [Amounts.held, Amounts.weights, InsertionDict.keys_mapValues, InsertionDict.keys_mapValues]

variable [IsStrictOrderedRing K]

/-- Amounts with a positive total, normalized. -/
theorem Amounts.normalized_full (a : Amounts K) (h : 0 < a.total) :
    Full (normalized a.weights) a.held := by
  have hscale : ∀ x : K, 0 ≤ x → 0 ≤ x * 100 / a.total := fun x hx => by positivity
  have hnodup : (a.entries.mapValues fun x => x * 100 / a.total).keys.Nodup := by
    rw [InsertionDict.keys_mapValues]
    exact a.nodup
  refine ⟨⟨a.entries.mapValues fun x => x * 100 / a.total, hnodup, ?_⟩, ?_, ?_, ?_⟩
  · rw [InsertionDict.values_mapValues]
    intro x hx
    obtain ⟨y, hy, rfl⟩ := List.mem_map.mp hx
    exact hscale y (a.nonneg y hy)
  · rw [normalized, a.sumN_weights]
    simp [notPositive, not_le.mpr h, Amounts.weights, InsertionDict.mapValues, mulN, divN, h.ne']
  · refine (List.map_map ..).trans (List.map_congr_left fun e he => ?_)
    simp only [Function.comp_apply, Prod.mk.injEq, true_and, decide_eq_decide]
    have h100 : (0 : K) < 100 := by norm_num
    rw [div_pos_iff_of_pos_right h, mul_pos_iff_of_pos_right h100]
  · have hmul : (fun x => x * 100 / a.total) = fun x => x * (100 / a.total) := by
      funext x
      rw [mul_div_assoc]
    rw [Amounts.total, InsertionDict.values_mapValues, hmul, List.sum_map_mul_right, List.map_id',
      ← Amounts.total]
    field_simp

/-- An amount added to one symbol. -/
theorem Amounts.exists_add (a : Amounts K) (key : String) {x : K} (hx : 0 ≤ x) :
    ∃ c : Amounts K, c.weights = a.weights.modify (fun old => addN old (some x)) (some 0) key ∧
      c.held = a.held.modify (· || decide (0 < x)) false key ∧ c.total = a.total + x := by
  refine ⟨⟨a.entries.modify (· + x) 0 key, InsertionDict.nodup_modify a.nodup, ?_⟩, ?_, ?_, ?_⟩
  · exact InsertionDict.forall_values_modify a.nonneg (by rwa [zero_add])
      fun y hy => add_nonneg hy hx
  · exact InsertionDict.mapValues_modify key (by simp [addN]) fun y _ => by simp [addN]
  · refine InsertionDict.mapValues_modify key (by simp) fun y hy => ?_
    have hy := a.nonneg y hy
    rw [← Bool.decide_or, decide_eq_decide]
    constructor
    · intro h
      by_contra hnot
      rw [not_or, not_lt, not_lt] at hnot
      linarith
    · rintro (h | h)
      · linarith
      · linarith
  · exact InsertionDict.sum_modify_add x key a.entries

/-- The contributions of one allocation, scaled by a positive share. -/
theorem mergeInto_amounts (a b : Amounts K) {share : K} (hshare : 0 < share) :
    ∃ c : Amounts K, c.weights = mergeInto a.weights b.weights share ∧
      c.held = Holdings.merge a.held b.held ∧ c.total = a.total + b.total * share / 100 := by
  obtain ⟨entries, hnodup, hnonneg⟩ := b
  simp only [mergeInto, Holdings.merge, Amounts.weights, Amounts.held, Amounts.total]
  induction entries generalizing a with
  | nil => exact ⟨a, rfl, rfl, by simp [InsertionDict.values]⟩
  | cons e entries ih =>
    have hx : 0 ≤ e.2 := hnonneg e.2 (List.mem_cons_self ..)
    have h100 : (0 : K) < 100 := by norm_num
    obtain ⟨c, hweights, hheld, htotal⟩ := a.exists_add e.1 (x := e.2 * share / 100) (by positivity)
    obtain ⟨d, hweights', hheld', htotal'⟩ :=
      ih c (List.nodup_cons.mp hnodup).2 fun y hy => hnonneg y (List.mem_cons_of_mem _ hy)
    have hpositive : decide (0 < e.2 * share / 100) = decide (0 < e.2) := by
      rw [decide_eq_decide, div_pos_iff_of_pos_right h100, mul_pos_iff_of_pos_right hshare]
    have hcontribution : divN (mulN (some e.2) (some share)) (some 100) =
        some (e.2 * share / 100) := by simp [mulN, divN]
    rw [hpositive] at hheld
    refine ⟨d, ?_, ?_, ?_⟩
    · rw [hweights', ← Amounts.weights, hweights, InsertionDict.mapValues_cons, List.foldl_cons]
      simp only [hcontribution, Amounts.weights]
    · rw [hheld', ← Amounts.held, hheld, InsertionDict.mapValues_cons, List.foldl_cons, Amounts.held]
    · rw [htotal', ← Amounts.total, htotal, Amounts.total, InsertionDict.values_cons, List.sum_cons]
      ring

/-- Full allocations with positive shares, merged. -/
theorem foldl_mergeInto {pairs : List (Weights K × K)} {helds : List Holdings}
    (h : List.Forall₂ (fun pair held => 0 < pair.2 ∧ Full pair.1 held) pairs helds)
    (a : Amounts K) :
    ∃ c : Amounts K,
      c.weights = pairs.foldl (fun combined pair => mergeInto combined pair.1 pair.2) a.weights ∧
        c.held = helds.foldl Holdings.merge a.held ∧
        a.total ≤ c.total ∧ (pairs ≠ [] → a.total < c.total) := by
  induction h generalizing a with
  | nil => exact ⟨a, rfl, rfl, le_rfl, nofun⟩
  | @cons pair held pairs helds hpair _ ih =>
    obtain ⟨hshare, b, hweights, hheld, htotal⟩ := hpair
    obtain ⟨c, hcw, hch, hct⟩ := mergeInto_amounts a b hshare
    obtain ⟨d, hdw, hdh, hdt, -⟩ := ih c
    have hmore : a.total < c.total := by
      rw [hct, htotal]
      linarith
    refine ⟨d, ?_, ?_, hmore.le.trans hdt, fun _ => hmore.trans_le hdt⟩
    · rw [hdw, hcw, hweights, List.foldl_cons]
    · rw [hdh, hch, hheld, List.foldl_cons]

theorem scaledMerge_full {pairs : List (Weights K × K)} {helds : List Holdings}
    (h : List.Forall₂ (fun pair held => 0 < pair.2 ∧ Full pair.1 held) pairs helds)
    (hne : pairs ≠ []) : Full (scaledMerge pairs) (Holdings.union helds) := by
  obtain ⟨c, hweights, hheld, -, htotal⟩ := foldl_mergeInto h Amounts.empty
  have hfull := c.normalized_full (htotal hne)
  rw [hweights, hheld] at hfull
  exact hfull

end Amounts

/-! ## Computed weights -/

section Computed

theorem Amounts.held_eq (a : Amounts K) : a.weights.holdings = a.held := by
  simp [Weights.holdings, Amounts.weights, Amounts.held, InsertionDict.mapValues]

/-- The weights are a full allocation. -/
def IsFull (weights : Weights K) : Prop := Full weights weights.holdings

theorem Amounts.isFull (a : Amounts K) (h : a.total = 100) : IsFull a.weights :=
  ⟨a, rfl, a.held_eq.symm, h⟩

theorem isFull_withZeros (entries : InsertionDict K) {symbols : List String}
    (hkeys : entries.keys.Nodup) (hnonneg : ∀ x ∈ entries.values, 0 ≤ x)
    (hsum : entries.values.sum = 100) (hsymbols : symbols.Nodup) :
    IsFull (withZeros (entries.mapValues some) symbols) := by
  let rest : InsertionDict K :=
    InsertionDict.ofKeys (fun _ => 0) (symbols.filter (· ∉ entries.keys))
  have hvalues : ∀ x ∈ rest.values, x = 0 := by
    intro x hx
    rw [InsertionDict.values_ofKeys] at hx
    obtain ⟨symbol, -, rfl⟩ := List.mem_map.mp hx
    rfl
  have hnodup : (entries ++ rest).keys.Nodup := by
    rw [InsertionDict.keys_append, InsertionDict.keys_ofKeys]
    refine hkeys.append (hsymbols.filter _) fun symbol hmem hmem' => ?_
    simp only [List.mem_filter, decide_eq_true_eq] at hmem'
    exact hmem'.2 hmem
  have hnonneg' : ∀ x ∈ (entries ++ rest).values, 0 ≤ x := by
    rw [InsertionDict.values_append]
    intro x hx
    obtain hx | hx := List.mem_append.mp hx
    · exact hnonneg x hx
    · exact (hvalues x hx).ge
  have hweights : (Amounts.mk (entries ++ rest) hnodup hnonneg').weights =
      withZeros (entries.mapValues some) symbols := by
    rw [Amounts.weights, InsertionDict.mapValues_append, InsertionDict.mapValues_ofKeys, withZeros,
      InsertionDict.keys_mapValues]
    rfl
  rw [← hweights]
  refine Amounts.isFull _ ?_
  rw [Amounts.total, InsertionDict.values_append, List.sum_append, hsum, List.sum_eq_zero hvalues,
    add_zero]

theorem isFull_ofKeys {symbols : List String} {f : String → K} (hsymbols : symbols.Nodup)
    (hnonneg : ∀ symbol ∈ symbols, 0 ≤ f symbol) (hsum : (symbols.map f).sum = 100) :
    IsFull (InsertionDict.ofKeys (fun symbol => some (f symbol)) symbols) := by
  have hnodup : (InsertionDict.ofKeys f symbols).keys.Nodup := by
    rwa [InsertionDict.keys_ofKeys]
  have hnonneg' : ∀ x ∈ (InsertionDict.ofKeys f symbols).values, 0 ≤ x := by
    rw [InsertionDict.values_ofKeys]
    intro x hx
    obtain ⟨symbol, hsymbol, rfl⟩ := List.mem_map.mp hx
    exact hnonneg symbol hsymbol
  have h := Amounts.isFull ⟨InsertionDict.ofKeys f symbols, hnodup, hnonneg'⟩
    (by rw [Amounts.total, InsertionDict.values_ofKeys, hsum])
  rw [Amounts.weights, InsertionDict.mapValues_ofKeys] at h
  exact h

variable [IsStrictOrderedRing K]

theorem equalWeights_full {symbols : List String} (hsymbols : symbols.Nodup) (hne : symbols ≠ []) :
    IsFull (equalWeights symbols : Weights K) := by
  have hlength : (0 : K) < symbols.length := by
    exact_mod_cast List.length_pos_iff.mpr hne
  refine isFull_ofKeys hsymbols (fun _ _ => by positivity) ?_
  rw [List.map_const', List.sum_replicate, nsmul_eq_mul]
  field_simp

omit [Field K] [IsStrictOrderedRing K] in
theorem sortedByScore_perm (score : String → Option K) (symbols : List String) :
    (sortedByScore score symbols).Perm symbols := List.perm_insertionSort ..

theorem upToCount_sublist {α : Type} (n : ℤ) (xs : List α) : (upToCount n xs).Sublist xs := by
  rw [upToCount]
  split_ifs
  · exact List.take_sublist ..
  · exact List.take_sublist ..

theorem upToCount_ne_nil {α : Type} {n : ℤ} {xs : List α} (hn : 0 < n) (hxs : xs ≠ []) :
    upToCount n xs ≠ [] := by
  rw [upToCount, if_pos hn.le, ← List.length_pos_iff, List.length_take]
  have := List.length_pos_iff.mpr hxs
  omega

/-- Weights in proportion to scores, of which some is positive. -/
theorem proportional_full {selected : List String} {score : String → K}
    (hselected : selected.Nodup) (hscore : ∀ symbol ∈ selected, 0 ≤ score symbol)
    (htotal : 0 < (selected.map score).sum) :
    IsFull (InsertionDict.ofKeys
      (fun symbol => some (score symbol / (selected.map score).sum * 100)) selected) := by
  refine isFull_ofKeys hselected (fun symbol hsymbol => ?_) ?_
  · have := hscore symbol hsymbol
    positivity
  · have hmul : (fun symbol => score symbol / (selected.map score).sum * 100) =
        fun symbol => score symbol * (100 / (selected.map score).sum) := by
      funext symbol
      ring
    rw [hmul, List.sum_map_mul_right]
    field_simp

theorem computeMomentumWeights_full (state : EvaluationState T K) {symbols : List String}
    (lookback : Option ℤ) {top : Option ℤ} (hsymbols : symbols.Nodup) (hne : symbols ≠ [])
    (htop : ∀ n, top = some n → 0 < n) :
    IsFull (computeMomentumWeights state symbols lookback top) := by
  unfold computeMomentumWeights
  extract_lets score sorted selected total
  have hperm : sorted.Perm symbols := sortedByScore_perm _ symbols
  have hsorted : sorted ≠ [] := by
    rintro hnil
    rw [hnil] at hperm
    exact hne hperm.nil_eq.symm
  have hselected : selected.Sublist sorted ∧ selected ≠ [] := by
    simp only [selected]
    split
    · rename_i n
      split_ifs
      · exact ⟨upToCount_sublist .., upToCount_ne_nil (htop n rfl) hsorted⟩
      · exact ⟨List.Sublist.refl _, hsorted⟩
    · exact ⟨List.Sublist.refl _, hsorted⟩
  have hnodup : selected.Nodup := hselected.1.nodup (hperm.nodup_iff.mpr hsymbols)
  rw [if_neg (by simpa using hselected.2)]
  split_ifs with hzero
  · exact equalWeights_full hnodup hselected.2
  · exact proportional_full hnodup (fun _ _ => le_max_right ..) (not_le.mp hzero)

theorem inverseVolatility_pos {num : Numerics K} {state : EvaluationState T K} {lookback : ℤ}
    {symbol : String} {x : K} (h : inverseVolatility num state lookback symbol = some x) : 0 < x := by
  unfold inverseVolatility at h
  split at h
  · split at h
    · split_ifs at h with hvol
      obtain rfl := Option.some.inj h
      positivity
    · cases h
  · cases h

/-- Positive amounts of some of the symbols, in proportion. -/
theorem proportionalWithZeros_full (entries : InsertionDict K) {symbols : List String}
    (hkeys : entries.keys.Nodup) (hnonneg : ∀ x ∈ entries.values, 0 ≤ x)
    (htotal : 0 < entries.values.sum) (hsymbols : symbols.Nodup) :
    IsFull (withZeros
      (entries.mapValues fun x => some (x / entries.values.sum * 100)) symbols) := by
  have h := isFull_withZeros (entries.mapValues fun x => x / entries.values.sum * 100)
    (by rwa [InsertionDict.keys_mapValues]) ?_ ?_ hsymbols
  · rwa [InsertionDict.mapValues, InsertionDict.mapValues, List.map_map] at h
  · rw [InsertionDict.values_mapValues]
    intro x hx
    obtain ⟨y, hy, rfl⟩ := List.mem_map.mp hx
    have := hnonneg y hy
    positivity
  · have hmul : (fun x => x / entries.values.sum * 100) =
        fun x => x * (100 / entries.values.sum) := by
      funext x
      ring
    rw [InsertionDict.values_mapValues, hmul, List.sum_map_mul_right, List.map_id']
    field_simp

theorem computeInverseVolatilityWeights_full (num : Numerics K) (state : EvaluationState T K)
    {symbols : List String} (lookback : Option ℤ) (hsymbols : symbols.Nodup) (hne : symbols ≠ []) :
    IsFull (computeInverseVolatilityWeights num state symbols lookback) := by
  unfold computeInverseVolatilityWeights
  extract_lets inverses total
  split_ifs with hempty
  · exact equalWeights_full hsymbols hne
  · have hkeys : (InsertionDict.keys inverses).Sublist symbols := by
      rw [InsertionDict.keys_filterMap]
      exact List.filter_sublist
    have hpos : ∀ x ∈ InsertionDict.values inverses, 0 < x := by
      intro x hx
      obtain ⟨e, he, rfl⟩ := List.mem_map.mp hx
      obtain ⟨symbol, -, hsome⟩ := List.mem_filterMap.mp he
      obtain ⟨y, hy, rfl⟩ := Option.map_eq_some_iff.mp hsome
      exact inverseVolatility_pos hy
    have htotal : 0 < (InsertionDict.values inverses).sum :=
      List.sum_pos _ hpos (by simpa [InsertionDict.values] using hempty)
    exact proportionalWithZeros_full inverses (hkeys.nodup hsymbols) (fun x hx => (hpos x hx).le) htotal
      hsymbols

/-- The raw weights are numbers, one for each symbol. -/
def NumbersFor (sorted : List String) (raw : Series K) : Prop :=
  ∃ xs : List K, raw = xs.map some ∧ xs.length = sorted.length

omit [IsStrictOrderedRing K] in
theorem alignedReturns_nodup {state : EvaluationState T K} {symbols : List String}
    {lookback : Option ℤ} {sorted : List String} {returns : List (Series K)}
    (h : alignedReturns state symbols lookback = some (sorted, returns))
    (hsymbols : symbols.Nodup) : sorted.Nodup := by
  unfold alignedReturns at h
  simp only at h
  split_ifs at h
  cases h
  exact (List.perm_insertionSort ..).nodup_iff.mpr (hsymbols.filter _)

theorem covarianceWeights_full (num : Numerics K) (state : EvaluationState T K)
    {symbols : List String} {lookback : Option ℤ}
    {rawWeights : List (Series K) → Option (Series K)} (hsymbols : symbols.Nodup)
    (hne : symbols ≠ [])
    (hraw : ∀ sorted returns, alignedReturns state symbols lookback = some (sorted, returns) →
      ∀ raw, rawWeights (covarianceMatrix returns) = some raw → NumbersFor sorted raw) :
    IsFull (covarianceWeights num state symbols lookback rawWeights) := by
  have hfallback := computeInverseVolatilityWeights_full num state lookback hsymbols hne
  unfold covarianceWeights
  simp only
  split
  · exact hfallback
  · rename_i sorted returns haligned
    split
    · exact hfallback
    · rename_i raw hsome
      split_ifs with htotal
      · exact hfallback
      · obtain ⟨xs, rfl, hlength⟩ := hraw sorted returns haligned raw hsome
        let clipped := xs.map fun x => max x 0
        have hclipped : ((xs.map some).map fun x => x.map fun x => max x 0) = clipped.map some := by
          simp [clipped]
        rw [hclipped, sumN, sumN_some, zero_add] at htotal ⊢
        let entries : InsertionDict K := sorted.zip clipped
        have hlen : clipped.length = sorted.length := by simp [clipped, hlength]
        have hkeys : entries.keys = sorted := List.map_fst_zip hlen.ge
        have hvalues : entries.values = clipped := List.map_snd_zip hlen.le
        have hpos : 0 < entries.values.sum := by
          rw [hvalues]
          simpa [notPositive] using htotal
        have h := proportionalWithZeros_full entries
          (hkeys ▸ alignedReturns_nodup haligned hsymbols) ?_ hpos hsymbols
        · have hzip : sorted.zip ((clipped.map some).map fun x =>
              mulN (divN x (some clipped.sum)) (some 100)) =
              entries.mapValues fun x => some (x / entries.values.sum * 100) := by
            rw [hvalues, InsertionDict.mapValues, List.map_map]
            have hne : clipped.sum ≠ 0 := by
              rw [← hvalues]
              exact hpos.ne'
            simp [entries, List.zip_map_right, mulN, divN, hne, Function.comp_def, Prod.map]
          rwa [hzip]
        · rw [hvalues]
          intro x hx
          obtain ⟨y, -, rfl⟩ := List.mem_map.mp hx
          exact le_max_right ..

end Computed

/-! ## Covariances -/

section Covariances

variable {rows : List (List K)} {w : List K}

/-- Numbers as entries of a matrix. -/
def matrixOf (rows : List (List K)) : List (Series K) := rows.map fun row => row.map some

omit [LinearOrder K] in
theorem zipWith_mulN (xs ys : List K) :
    List.zipWith mulN (xs.map some) (ys.map some) = (List.zipWith (· * ·) xs ys).map some := by
  rw [List.zipWith_map, List.map_zipWith]
  rfl

variable [IsStrictOrderedRing K]

theorem marginalRisk_numbers (rows : List (List K)) (w : List K) :
    ∃ ms : List K, marginalRisk (matrixOf rows) (w.map some) = ms.map some ∧
      ms.length = rows.length ∧ ∀ m ∈ ms, m ≠ 0 := by
  let small : K := 1 / 10 ^ 12
  have hsmall : 0 < small := by positivity
  refine ⟨rows.map fun row => if |(List.zipWith (· * ·) row w).sum| < small then small
    else (List.zipWith (· * ·) row w).sum, ?_, by simp, fun m hm => ?_⟩
  · rw [marginalRisk, matrixOf, List.map_map, List.map_map]
    refine List.map_congr_left fun row _ => ?_
    simp only [Function.comp_apply, zipWith_mulN, sumN, sumN_some, zero_add, Option.map_some]
    rfl
  · obtain ⟨row, -, rfl⟩ := List.mem_map.mp hm
    split_ifs with h
    · exact hsmall.ne'
    · intro hzero
      rw [hzero, abs_zero] at h
      exact h hsmall

theorem riskParityNext_numbers
    (h : sumN ((marginalRisk (matrixOf rows) (w.map some)).map (divN (some 1))) ≠ some 0) :
    ∃ next : List K, riskParityNext (matrixOf rows) (w.map some) = next.map some ∧
      next.length = rows.length := by
  obtain ⟨ms, hms, hlength, hne⟩ := marginalRisk_numbers rows w
  have hinverses : (ms.map some).map (divN (some 1)) = (ms.map fun m => 1 / m).map some := by
    rw [List.map_map, List.map_map]
    refine List.map_congr_left fun m hm => ?_
    simp [divN, hne m hm]
  rw [hms, hinverses, sumN, sumN_some, zero_add] at h
  refine ⟨(ms.map fun m => 1 / m).map fun x => x / (ms.map fun m => 1 / m).sum, ?_, by simpa⟩
  rw [riskParityNext, hms, hinverses, sumN, sumN_some, zero_add, List.map_map, List.map_map,
    List.map_map, List.map_map]
  refine List.map_congr_left fun m _ => ?_
  have hsum : (ms.map fun m => 1 / m).sum ≠ 0 := fun hzero => h (by rw [hzero])
  simp only [Function.comp_apply, divN, Option.bind_eq_bind, Option.bind_some, if_neg hsum]

theorem riskParityLoop_numbers {rounds : ℕ} (hw : w.length = rows.length)
    (h : RiskParityDefined (matrixOf rows) rounds (w.map some)) :
    ∃ xs : List K, riskParityLoop (matrixOf rows) rounds (w.map some) = xs.map some ∧
      xs.length = rows.length := by
  induction rounds generalizing w with
  | zero => exact ⟨w, rfl, hw⟩
  | succ rounds ih =>
    obtain ⟨hdefined, hrest⟩ := h
    obtain ⟨next, hnext, hlength⟩ := riskParityNext_numbers hdefined
    rw [riskParityLoop]
    split_ifs with hconverged
    · exact ⟨next, hnext, hlength⟩
    · rw [hnext] at hrest hconverged ⊢
      exact ih hlength (hrest (by simpa using hconverged))

theorem mean_number {xs : List K} (hne : xs ≠ []) : mean xs = some (xs.sum / xs.length) := by
  have hlength : (xs.length : K) ≠ 0 := by
    exact_mod_cast (List.length_pos_iff.mpr hne).ne'
  simp [mean, divN, hlength]

omit [Field K] [LinearOrder K] [IsStrictOrderedRing K] in
theorem mapM_some (xs : List K) : (xs.map some).mapM id = some xs := by
  induction xs with
  | nil => rfl
  | cons x xs ih => simp [List.mapM_cons, ih]

theorem covariance_number {xs ys : List K} (hxs : 1 < xs.length) (hys : ys ≠ []) :
    ∃ c, covariance (xs.map some) (ys.map some) = some c := by
  have hxne : xs ≠ [] := List.length_pos_iff.mp (by omega)
  have hlength : (xs.length : K) - 1 ≠ 0 := by
    have : (1 : K) < xs.length := by exact_mod_cast hxs
    linarith
  simp only [covariance, mapM_some, Option.bind_eq_bind, Option.bind_some, mean_number hxne,
    mean_number hys, divN, if_neg hlength, Option.some.injEq, exists_eq']

/-- The covariances of returns that are numbers. -/
theorem covarianceMatrix_numbers {columns : List (List K)}
    (h : ∀ xs ∈ columns, 1 < xs.length) :
    ∃ rows : List (List K), covarianceMatrix (matrixOf columns) = matrixOf rows ∧
      rows.length = columns.length ∧ ∀ row ∈ rows, row.length = rows.length := by
  refine ⟨columns.map fun xs => columns.map fun ys =>
    (covariance (xs.map some) (ys.map some)).getD 0, ?_, by simp, fun row hrow => ?_⟩
  · rw [covarianceMatrix, matrixOf, List.map_map, matrixOf, List.map_map]
    refine List.map_congr_left fun xs hxs => ?_
    simp only [Function.comp_apply, List.map_map]
    refine List.map_congr_left fun ys hys => ?_
    obtain ⟨c, hc⟩ := covariance_number (h xs hxs)
      (List.length_pos_iff.mp (Nat.zero_lt_of_lt (h ys hys)))
    simp [hc]
  · obtain ⟨xs, -, rfl⟩ := List.mem_map.mp hrow
    simp

omit [IsStrictOrderedRing K] in
theorem zipWith_returns (nexts prevs : List (Bar T K)) (h : ∀ bar ∈ prevs, 0 < bar.close) :
    List.zipWith (fun next prev => divN (some (next.close - prev.close)) (some prev.close))
        nexts prevs =
      (List.zipWith (fun next prev => (next.close - prev.close) / prev.close) nexts prevs).map
        some := by
  induction prevs generalizing nexts with
  | nil => simp
  | cons prev prevs ih =>
    cases nexts with
    | nil => rfl
    | cons next nexts =>
      have hprev := h prev (List.mem_cons_self ..)
      rw [List.zipWith_cons_cons, List.zipWith_cons_cons, List.map_cons,
        ih nexts fun bar hbar => h bar (List.mem_cons_of_mem _ hbar)]
      simp [divN, hprev.ne']

omit [IsStrictOrderedRing K] in
theorem barReturns_numbers {bars : List (Bar T K)} (h : ∀ bar ∈ bars, 0 < bar.close) :
    ∃ xs : List K, barReturns bars = xs.map some ∧ xs.length = bars.length - 1 :=
  ⟨_, zipWith_returns bars.tail bars h, by simp⟩

/-- The bars of the retained history have positive closes. -/
def PositivePrices (state : EvaluationState T K) : Prop :=
  ∀ symbol, ∀ bar ∈ state.bars symbol, 0 < bar.close

omit [IsStrictOrderedRing K] in
/-- Aligned returns are numbers, at least two for each symbol. -/
theorem alignedReturns_numbers {state : EvaluationState T K} {symbols : List String}
    {lookback : Option ℤ} {sorted : List String} {returns : List (Series K)}
    (hprices : PositivePrices state)
    (h : alignedReturns state symbols lookback = some (sorted, returns)) :
    ∃ columns : List (List K), returns = matrixOf columns ∧ columns.length = sorted.length ∧
      ∀ xs ∈ columns, 1 < xs.length := by
  unfold alignedReturns at h
  extract_lets usable shortest window at h
  split_ifs at h with hfew hshort
  obtain ⟨rfl, rfl⟩ := Prod.mk.inj (Option.some.inj h)
  have hcolumn : ∀ symbol ∈ usable.insertionSort (· ≤ ·), ∃ xs : List K,
      barReturns (fromEnd window (state.bars symbol)) = xs.map some ∧ 1 < xs.length := by
    intro symbol hsymbol
    have husable : symbol ∈ usable := (List.perm_insertionSort ..).mem_iff.mp hsymbol
    have hlong : 3 ≤ (state.bars symbol).length := by
      simpa [usable] using (List.mem_filter.mp husable).2
    have hsub : (fromEnd window (state.bars symbol)).Sublist (state.bars symbol) := by
      rw [fromEnd]
      split_ifs
      · exact List.drop_sublist ..
      · exact List.drop_sublist ..
    obtain ⟨xs, hxs, hlength⟩ := barReturns_numbers fun bar hbar =>
      hprices symbol bar (hsub.subset hbar)
    refine ⟨xs, hxs, ?_⟩
    rw [hlength, fromEnd, if_pos (by omega), List.length_drop]
    omega
  choose! column hcolumn using hcolumn
  refine ⟨(usable.insertionSort (· ≤ ·)).map column, ?_, List.length_map .., fun xs hxs => ?_⟩
  · rw [matrixOf, List.map_map]
    exact List.map_congr_left fun symbol hsymbol => (hcolumn symbol hsymbol).1
  · obtain ⟨symbol, hsymbol, rfl⟩ := List.mem_map.mp hxs
    exact (hcolumn symbol hsymbol).2

/-- `np.linalg.pinv` of a square matrix of numbers is a matrix of numbers of the same size. -/
def Numerics.PinvNumbers (num : Numerics K) : Prop :=
  ∀ rows : List (List K), (∀ row ∈ rows, row.length = rows.length) →
    ∀ raw, num.pinvOnes (matrixOf rows) = some raw →
      ∃ xs : List K, raw = xs.map some ∧ xs.length = rows.length

theorem minVariance_numbers {num : Numerics K} {state : EvaluationState T K}
    {symbols : List String} {lookback : Option ℤ} (hnum : num.PinvNumbers)
    (hprices : PositivePrices state) :
    ∀ sorted returns, alignedReturns state symbols lookback = some (sorted, returns) →
      ∀ raw, num.pinvOnes (covarianceMatrix returns) = some raw → NumbersFor sorted raw := by
  intro sorted returns haligned raw hraw
  obtain ⟨columns, rfl, hlength, hlong⟩ := alignedReturns_numbers hprices haligned
  obtain ⟨rows, hrows, hcount, hsquare⟩ := covarianceMatrix_numbers hlong
  rw [hrows] at hraw
  obtain ⟨xs, hxs, hxlength⟩ := hnum rows hsquare raw hraw
  exact ⟨xs, hxs, by omega⟩

theorem riskParity_numbers {state : EvaluationState T K} {symbols : List String}
    {lookback : Option ℤ} (hprices : PositivePrices state)
    (hdefined : ∀ sorted returns, alignedReturns state symbols lookback = some (sorted, returns) →
      RiskParityDefined (covarianceMatrix returns) 500
        (List.replicate sorted.length (some (1 / sorted.length)))) :
    ∀ sorted returns, alignedReturns state symbols lookback = some (sorted, returns) →
      ∀ raw, riskParityRaw (covarianceMatrix returns) = some raw → NumbersFor sorted raw := by
  intro sorted returns haligned raw hraw
  have h := hdefined sorted returns haligned
  obtain ⟨columns, rfl, hlength, hlong⟩ := alignedReturns_numbers hprices haligned
  obtain ⟨rows, hrows, hcount, -⟩ := covarianceMatrix_numbers hlong
  have hsize : (matrixOf rows).length = sorted.length := by
    rw [matrixOf, List.length_map]
    omega
  rw [hrows] at h hraw
  rw [riskParityRaw, Option.some.injEq, hsize, ← List.map_replicate] at hraw
  rw [← List.map_replicate] at h
  obtain ⟨xs, hxs, hxlength⟩ := riskParityLoop_numbers (by rw [List.length_replicate]; omega) h
  exact ⟨xs, hraw ▸ hxs, by omega⟩

end Covariances

end LlamaTrade
