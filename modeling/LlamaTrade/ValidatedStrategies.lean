import LlamaTrade.FullAllocations

/-!
# Validated strategies

Every validated strategy whose blocks meet the condition of `Allocates` makes a full allocation.
-/

namespace LlamaTrade

variable {T K : Type} [Field K] [LinearOrder K]

/-! ## Blocks -/

section Blocks

variable {num : Numerics K} {state : EvaluationState T K}

theorem shareAndAllocation_fst (num : Numerics K) (state : EvaluationState T K) :
    (block : Block K) → (shareAndAllocation num state block).1 = declaredShare num state block
  | .strategy .. => by simp [shareAndAllocation, declaredShare]
  | .group .. => by simp [shareAndAllocation, declaredShare]
  | .weight .. => by simp [shareAndAllocation, declaredShare]
  | .asset .. => by simp [shareAndAllocation, declaredShare]
  | .filter .. => by simp [shareAndAllocation, declaredShare]
  | .onlyIf condition thenBlock => by
    rw [shareAndAllocation, declaredShare]
    split_ifs
    · exact shareAndAllocation_fst num state thenBlock
    · rfl
  | .ifElse condition thenBlock elseBlock => by
    rw [shareAndAllocation, declaredShare]
    split_ifs
    · exact shareAndAllocation_fst num state thenBlock
    · exact shareAndAllocation_fst num state elseBlock

theorem sharesAndAllocations_eq (num : Numerics K) (state : EvaluationState T K)
    (blocks : List (Block K)) :
    sharesAndAllocations num state blocks = blocks.map (shareAndAllocation num state) := by
  induction blocks with
  | nil => rw [sharesAndAllocations, List.map_nil]
  | cons block blocks ih => rw [sharesAndAllocations, ih, List.map_cons]

/-- Every block of a list makes a full allocation. -/
abbrev FullChildren (children : List (Option K × Weights K)) (helds : List Holdings) : Prop :=
  List.Forall₂ (fun child held => Full child.2 held) children helds

variable [IsStrictOrderedRing K] {children : List (Option K × Weights K)} {helds : List Holdings}

theorem FullChildren.not_isEmpty (h : FullChildren children helds) :
    ∀ child ∈ children, (!child.2.isEmpty) = true := by
  induction h with
  | nil => exact fun _ hmem => absurd hmem List.not_mem_nil
  | cons hfull _ ih =>
    intro child hmem
    obtain rfl | hmem := List.mem_cons.mp hmem
    · simpa using hfull.ne_nil
    · exact ih child hmem

omit [IsStrictOrderedRing K] in
/-- Full allocations with one positive share for all. -/
theorem FullChildren.equal_shares (h : FullChildren children helds) {share : K}
    (hshare : 0 < share) :
    List.Forall₂ (fun pair held => 0 < pair.2 ∧ Full pair.1 held)
      (children.map fun child => (child.2, share)) helds := by
  rw [List.forall₂_map_left_iff]
  exact h.imp fun _ _ hfull => ⟨hshare, hfull⟩

omit [IsStrictOrderedRing K] in
/-- Full allocations with their declared shares. -/
theorem FullChildren.declared_shares (h : FullChildren children helds)
    (hsome : ∀ child ∈ children, child.1.isSome)
    (hpos : ∀ child ∈ children, ∀ share, child.1 = some share → 0 < share) :
    List.Forall₂ (fun pair held => 0 < pair.2 ∧ Full pair.1 held)
      (children.filterMap fun child => child.1.map (child.2, ·)) helds := by
  induction h with
  | nil => exact .nil
  | @cons child held children helds hfull _ ih =>
    obtain ⟨share, hshare⟩ := Option.isSome_iff_exists.mp (hsome child (List.mem_cons_self ..))
    rw [List.filterMap_cons, hshare, Option.map_some]
    exact .cons ⟨hpos child (List.mem_cons_self ..) share hshare, hfull⟩
      (ih (fun c hc => hsome c (List.mem_cons_of_mem _ hc))
        fun c hc => hpos c (List.mem_cons_of_mem _ hc))

theorem hundred_div_pos {n : ℕ} (hn : 0 < n) : (0 : K) < 100 / n := by
  have : (0 : K) < n := by exact_mod_cast hn
  positivity

/-- `_evaluate_children` makes a full allocation of full allocations. -/
theorem evaluateSiblings_full (h : FullChildren children helds) (hne : children ≠ [])
    (hpos : (∀ child ∈ children, child.1.isSome) →
      ∀ child ∈ children, ∀ share, child.1 = some share → 0 < share) :
    Full (evaluateSiblings children) (Holdings.union helds) := by
  have hall : children.filter (fun child => !child.2.isEmpty) = children :=
    List.filter_eq_self.mpr h.not_isEmpty
  rw [evaluateSiblings]
  simp only [hall]
  rw [if_neg (by simpa using hne)]
  split_ifs with hsome
  · have hsome : ∀ child ∈ children, child.1.isSome := by simpa using hsome
    have hpairs := h.declared_shares hsome (hpos hsome)
    refine scaledMerge_full hpairs fun hnil => hne ?_
    rw [hnil] at hpairs
    rw [← List.length_eq_zero_iff, h.length_eq, ← hpairs.length_eq, List.length_nil]
  · exact scaledMerge_full (h.equal_shares (hundred_div_pos (List.length_pos_iff.mpr hne)))
      (by simpa using hne)

theorem evaluateWeight_equal_full (num : Numerics K) (state : EvaluationState T K)
    (lookback top : Option ℤ) (h : FullChildren children helds)
    (hne : children ≠ []) :
    Full (evaluateWeight num state .equal lookback top children) (Holdings.union helds) := by
  have hall : (children.map Prod.snd).filter (fun allocation => !allocation.isEmpty) =
      children.map Prod.snd := by
    refine List.filter_eq_self.mpr fun allocation hmem => ?_
    obtain ⟨child, hchild, rfl⟩ := List.mem_map.mp hmem
    exact h.not_isEmpty child hchild
  rw [evaluateWeight]
  simp only [hall]
  rw [if_neg (by simpa using hne), List.map_map, List.length_map]
  exact scaledMerge_full (h.equal_shares (hundred_div_pos (List.length_pos_iff.mpr hne)))
    (by simpa using hne)

/-! ### Symbols -/

/-- The symbols of a list that are new, at the end. -/
def addSymbols (symbols more : List String) : List String :=
  more.foldl (fun symbols symbol => if symbol ∈ symbols then symbols else symbols ++ [symbol])
    symbols

theorem keys_merge (a b : Holdings) : (Holdings.merge a b).keys = addSymbols a.keys b.keys := by
  induction b generalizing a with
  | nil => rfl
  | cons e b ih =>
    rw [Holdings.merge, List.foldl_cons, ← Holdings.merge, ih, InsertionDict.keys_modify]
    rfl

theorem nodup_merge {a : Holdings} (h : a.keys.Nodup) (b : Holdings) :
    (Holdings.merge a b).keys.Nodup := by
  induction b generalizing a with
  | nil => exact h
  | cons e b ih =>
    rw [Holdings.merge, List.foldl_cons, ← Holdings.merge]
    exact ih (InsertionDict.nodup_modify h)

theorem nodup_union (helds : List Holdings) : (Holdings.union helds).keys.Nodup := by
  suffices h : ∀ a : Holdings, a.keys.Nodup → (helds.foldl Holdings.merge a).keys.Nodup from
    h [] List.nodup_nil
  induction helds with
  | nil => exact fun a h => h
  | cons held helds ih => exact fun a h => ih _ (nodup_merge h held)

omit [IsStrictOrderedRing K] in
theorem FullChildren.symbolUnion_eq (h : FullChildren children helds) :
    symbolUnion children = (Holdings.union helds).keys := by
  suffices hfold : ∀ a : Holdings, children.foldl (fun symbols child =>
      addSymbols symbols child.2.keys) a.keys = (helds.foldl Holdings.merge a).keys from hfold []
  induction h with
  | nil => exact fun a => rfl
  | cons hfull _ ih =>
    intro a
    rw [List.foldl_cons, List.foldl_cons, ← hfull.keys_eq, ← keys_merge]
    exact ih _

theorem addSymbols_ne_nil {symbols : List String} (more : List String) (h : symbols ≠ []) :
    addSymbols symbols more ≠ [] := by
  induction more generalizing symbols with
  | nil => exact h
  | cons symbol more ih =>
    rw [addSymbols, List.foldl_cons, ← addSymbols]
    split_ifs
    · exact ih h
    · exact ih (by simp)

theorem FullChildren.symbolUnion_ne_nil (h : FullChildren children helds) (hne : children ≠ []) :
    symbolUnion children ≠ [] := by
  have hfold : ∀ (children : List (Option K × Weights K)) {symbols : List String}, symbols ≠ [] →
      children.foldl (fun symbols child => addSymbols symbols child.2.keys) symbols ≠ [] := by
    intro children
    induction children with
    | nil => exact fun hsymbols => hsymbols
    | cons child children ih => exact fun hsymbols => ih (addSymbols_ne_nil _ hsymbols)
  cases h with
  | nil => exact absurd rfl hne
  | @cons child held children helds hfull _ =>
    have hfirst : addSymbols [] child.2.keys ≠ [] := by
      cases hkeys : child.2.keys with
      | nil => exact absurd (List.map_eq_nil_iff.mp hkeys) hfull.ne_nil
      | cons symbol more => exact addSymbols_ne_nil more (List.cons_ne_nil symbol [])
    exact hfold children hfirst

/-! ### Filters -/

omit [Field K] [IsStrictOrderedRing K] in
theorem fromEnd_sublist {α : Type} (n : ℤ) (xs : List α) : (fromEnd n xs).Sublist xs := by
  rw [fromEnd]
  split_ifs
  · exact List.drop_sublist ..
  · exact List.drop_sublist ..

omit [IsStrictOrderedRing K] in
theorem filterSelected_nodup (num : Numerics K) (state : EvaluationState T K)
    (criterion : FilterCriteria) (direction : SelectDirection) (count : ℤ)
    (lookback : Option ℤ) {symbols : List String} (h : symbols.Nodup) :
    (filterSelected num state criterion direction count lookback symbols).Nodup := by
  have hsorted := (sortedByScore_perm (filterScore num state criterion (orDefault lookback 90))
    symbols).nodup_iff.mpr h
  unfold filterSelected
  cases direction with
  | top => exact (upToCount_sublist ..).nodup hsorted
  | bottom => exact (fromEnd_sublist ..).nodup hsorted

/-- `_evaluate_filter` makes a full allocation when it selects a symbol that is held. -/
theorem evaluateFilter_full {criterion : FilterCriteria} {direction : SelectDirection} {count : ℤ}
    {lookback : Option ℤ} {weights : Weights K} {held : Holdings} (h : Full weights held)
    (hheld : ∃ symbol ∈ filterSelected num state criterion direction count lookback held.keys,
      held.lookup symbol = some true) :
    Full (evaluateFilter num state criterion direction count lookback weights)
      ((filterSelected num state criterion direction count lookback held.keys).filterMap
        fun symbol => (held.lookup symbol).map (symbol, ·)) := by
  have hne := h.ne_nil
  have hkeys := h.keys_eq
  obtain ⟨a, rfl, rfl, -⟩ := h
  rw [evaluateFilter, if_neg (by simpa using hne), ← hkeys]
  have hsymbols : a.held.keys.Nodup := by
    rw [Amounts.held, InsertionDict.keys_mapValues]
    exact a.nodup
  have hselected := filterSelected_nodup num state criterion direction count lookback hsymbols
  generalize filterSelected num state criterion direction count lookback a.held.keys = selected at *
  let entries : InsertionDict K :=
    selected.filterMap fun symbol => (a.entries.lookup symbol).map fun x => (symbol, x)
  have hnodup : entries.keys.Nodup := by
    rw [InsertionDict.keys_filterMap]
    exact hselected.filter _
  have hnonneg : ∀ x ∈ entries.values, 0 ≤ x := by
    intro x hx
    obtain ⟨e, he, rfl⟩ := List.mem_map.mp hx
    obtain ⟨symbol, -, hsome⟩ := List.mem_filterMap.mp he
    obtain ⟨y, hy, rfl⟩ := Option.map_eq_some_iff.mp hsome
    exact a.nonneg y (InsertionDict.mem_values_of_lookup hy)
  have hpick : ∀ {β : Type} (g : K → β), entries.mapValues g =
      selected.filterMap fun symbol => ((a.entries.mapValues g).lookup symbol).map (symbol, ·) := by
    intro β g
    rw [InsertionDict.mapValues, List.map_filterMap]
    refine List.filterMap_congr fun symbol _ => ?_
    rw [InsertionDict.lookup_mapValues]
    cases a.entries.lookup symbol with
    | none => rfl
    | some x => rfl
  have htotal : 0 < entries.values.sum := by
    obtain ⟨symbol, hsymbol, hlookup⟩ := hheld
    rw [Amounts.held, InsertionDict.lookup_mapValues] at hlookup
    obtain ⟨x, hx, hpos⟩ := Option.map_eq_some_iff.mp hlookup
    have hmem : x ∈ entries.values := by
      refine List.mem_map.mpr ⟨(symbol, x), List.mem_filterMap.mpr ⟨symbol, hsymbol, ?_⟩, rfl⟩
      rw [hx, Option.map_some]
    exact (of_decide_eq_true hpos).trans_le (List.single_le_sum hnonneg x hmem)
  have hfull := (Amounts.mk entries hnodup hnonneg).normalized_full htotal
  rw [Amounts.weights, Amounts.held, hpick, hpick] at hfull
  exact hfull

/-! ### Validation -/

omit [IsStrictOrderedRing K] in
/-- What the validator checks of a weight block, as far as it is used here. -/
theorem checkWeight_eq_nil {path : String} {method : WeightMethod} {blocks : List (Block K)}
    {lookback top : Option ℤ} {location : Option SourceLocation}
    (h : checkWeight num path method blocks lookback top location = []) :
    blocks ≠ [] ∧ ∀ n, top = some n → 0 < n := by
  unfold checkWeight at h
  simp only [List.append_eq_nil_iff, errorIf_eq_nil, errorAt_eq_nil] at h
  obtain ⟨⟨⟨⟨-, hchildren⟩, -⟩, htop⟩, -⟩ := h
  refine ⟨by simpa using hchildren, ?_⟩
  rintro n rfl
  simp only [List.append_eq_nil_iff, errorIf_eq_nil] at htop
  simpa using htop.1.2

omit [Field K] [LinearOrder K] [IsStrictOrderedRing K] in
theorem checkFilter_eq_nil {path : String} {count : ℤ} {blocks : List (Block K)}
    {lookback : Option ℤ} (h : checkFilter path count blocks lookback = []) : blocks ≠ [] := by
  unfold checkFilter at h
  simp only [List.append_eq_nil_iff, errorIf_eq_nil] at h
  simpa using h.1.2

omit [IsStrictOrderedRing K] in
/-- The declared shares of a list of blocks are those of its allocations. -/
theorem positiveShares_iff {blocks : List (Block K)} :
    PositiveShares num state blocks ↔
      ((∀ child ∈ sharesAndAllocations num state blocks, child.1.isSome) →
        ∀ child ∈ sharesAndAllocations num state blocks, ∀ share, child.1 = some share →
          0 < share) := by
  rw [sharesAndAllocations_eq]
  simp only [PositiveShares, List.forall_mem_map, shareAndAllocation_fst]

theorem computedWeights_full {method : WeightMethod} {lookback top : Option ℤ}
    {symbols : List String} (hnum : num.PinvNumbers) (hprices : PositivePrices state)
    (hsymbols : symbols.Nodup) (hne : symbols ≠ []) (htop : ∀ n, top = some n → 0 < n)
    (hdefined : method = .riskParity → ∀ sorted returns,
      alignedReturns state symbols lookback = some (sorted, returns) →
        RiskParityDefined (covarianceMatrix returns) 500
          (List.replicate sorted.length (some (1 / sorted.length)))) :
    IsFull (computedWeights num state method lookback top symbols) := by
  cases method with
  | momentum => exact computeMomentumWeights_full state lookback hsymbols hne htop
  | inverseVolatility =>
    exact computeInverseVolatilityWeights_full num state lookback hsymbols hne
  | riskParity =>
    exact covarianceWeights_full num state hsymbols hne (riskParity_numbers hprices (hdefined rfl))
  | minVariance =>
    exact covarianceWeights_full num state hsymbols hne (minVariance_numbers hnum hprices)
  | specified => exact equalWeights_full hsymbols hne
  | equal => exact equalWeights_full hsymbols hne
  | marketCap => exact equalWeights_full hsymbols hne

/-- The siblings of a validated list of blocks. -/
theorem siblings_full {blocks : List (Block K)}
    (h : FullChildren (sharesAndAllocations num state blocks) (allHeld num state blocks))
    (hne : blocks ≠ []) (hpos : PositiveShares num state blocks) :
    Full (evaluateSiblings (sharesAndAllocations num state blocks))
      (Holdings.union (allHeld num state blocks)) := by
  refine evaluateSiblings_full h ?_ (positiveShares_iff.mp hpos)
  rw [sharesAndAllocations_eq]
  simpa using hne

/-- A weight block that ranks the symbols of its children. -/
theorem ranked_full {method : WeightMethod} {blocks : List (Block K)} {lookback top : Option ℤ}
    (hnum : num.PinvNumbers) (hprices : PositivePrices state)
    (h : FullChildren (sharesAndAllocations num state blocks) (allHeld num state blocks))
    (hne : blocks ≠ []) (htop : ∀ n, top = some n → 0 < n)
    (hdefined : method = .riskParity → ∀ sorted returns,
      alignedReturns state (Holdings.union (allHeld num state blocks)).keys lookback =
        some (sorted, returns) →
      RiskParityDefined (covarianceMatrix returns) 500
        (List.replicate sorted.length (some (1 / sorted.length)))) :
    let symbols := symbolUnion (sharesAndAllocations num state blocks)
    Full (if symbols.isEmpty then [] else computedWeights num state method lookback top symbols)
      (computedWeights num state method lookback top
        (Holdings.union (allHeld num state blocks)).keys).holdings := by
  have hchildren : sharesAndAllocations num state blocks ≠ [] := by
    rw [sharesAndAllocations_eq]
    simpa using hne
  have hsymbols := h.symbolUnion_ne_nil hchildren
  rw [h.symbolUnion_eq] at hsymbols ⊢
  dsimp only
  rw [if_neg (by simpa using hsymbols)]
  exact computedWeights_full hnum hprices (nodup_union _) hsymbols htop hdefined

end Blocks

section Trees

variable {num : Numerics K} {state : EvaluationState T K}

mutual

/-- Every validated block makes a full allocation. -/
theorem block_full [IsStrictOrderedRing K] (hnum : num.PinvNumbers) (hprices : PositivePrices state) :
    (block : Block K) → (path : String) → validateBlock num path block = [] →
      Allocates num state block →
        Full (shareAndAllocation num state block).2 (heldBy num state block)
  | .strategy .., path, hvalid, _ => by simp [validateBlock] at hvalid
  | .group name children weight, path, hvalid, hall => by
    simp only [validateBlock, List.append_eq_nil_iff, errorIf_eq_nil] at hvalid
    rw [Allocates] at hall
    rw [shareAndAllocation, heldBy]
    exact siblings_full (blocks_full hnum hprices children path 0 hvalid.1.2 hall.1)
      (by simpa using hvalid.1.1.2) hall.2
  | .weight method children lookback top location, path, hvalid, hall => by
    simp only [validateBlock, List.append_eq_nil_iff] at hvalid
    obtain ⟨hne, htop⟩ := checkWeight_eq_nil hvalid.1
    rw [shareAndAllocation]
    cases method with
    | specified =>
      rw [Allocates] at hall
      rw [heldBy, evaluateWeight]
      obtain ⟨hdeclared, ⟨c, hc, hshare⟩, hpos⟩ := hall
      have hpairs := declared_full hnum hprices children path 0 hvalid.2 hdeclared hpos
      refine scaledMerge_full hpairs.1 (hpairs.2 ⟨c, hc, hshare⟩)
    | equal =>
      rw [Allocates] at hall
      · rw [heldBy]
        refine evaluateWeight_equal_full num state lookback top
          (blocks_full hnum hprices children path 0 hvalid.2 hall) ?_
        rw [sharesAndAllocations_eq]
        simpa using hne
      · nofun
      · nofun
    | riskParity =>
      rw [Allocates] at hall
      rw [heldBy, evaluateWeight]
      · exact ranked_full hnum hprices
          (blocks_full hnum hprices children path 0 hvalid.2 hall.1) hne htop fun _ => hall.2
      all_goals nofun
    | momentum | inverseVolatility | minVariance | marketCap =>
      rw [Allocates] at hall
      · rw [heldBy, evaluateWeight]
        · exact ranked_full hnum hprices
            (blocks_full hnum hprices children path 0 hvalid.2 hall) hne htop nofun
        all_goals nofun
      all_goals nofun
  | .asset symbol weight, path, _, _ => by
    rw [shareAndAllocation, heldBy]
    have h100 : (0 : K) < 100 := by norm_num
    refine ⟨⟨[(symbol, 100)], List.nodup_singleton _, ?_⟩, rfl, ?_, ?_⟩
    · intro x hx
      rw [List.mem_singleton.mp hx]
      exact h100.le
    · simp [Amounts.held, InsertionDict.mapValues]
    · simp [Amounts.total, InsertionDict.values]
  | .onlyIf condition thenBlock, path, hvalid, _ => by simp [validateBlock] at hvalid
  | .ifElse condition thenBlock elseBlock, path, hvalid, hall => by
    simp only [validateBlock, List.append_eq_nil_iff] at hvalid
    rw [Allocates] at hall
    rw [shareAndAllocation, heldBy]
    split_ifs at hall ⊢ with hcondition
    · exact block_full hnum hprices thenBlock _ hvalid.1.2 hall
    · exact block_full hnum hprices elseBlock _ hvalid.2 hall
  | .filter criterion direction count children lookback, path, hvalid, hall => by
    simp only [validateBlock, List.append_eq_nil_iff] at hvalid
    rw [Allocates] at hall
    rw [shareAndAllocation, heldBy]
    exact evaluateFilter_full (siblings_full
      (blocks_full hnum hprices children path 0 hvalid.2 hall.1) (checkFilter_eq_nil hvalid.1)
      hall.2.1) hall.2.2

theorem blocks_full [IsStrictOrderedRing K] (hnum : num.PinvNumbers) (hprices : PositivePrices state) :
    (blocks : List (Block K)) → (path : String) → (i : ℕ) →
      validateBlocks num path i blocks = [] → AllAllocate num state blocks →
        FullChildren (sharesAndAllocations num state blocks) (allHeld num state blocks)
  | [], _, _, _, _ => by
    rw [sharesAndAllocations, allHeld]
    exact .nil
  | block :: blocks, path, i, hvalid, hall => by
    rw [validateBlocks, List.append_eq_nil_iff] at hvalid
    rw [AllAllocate] at hall
    rw [sharesAndAllocations, allHeld]
    exact .cons (block_full hnum hprices block _ hvalid.1 hall.1)
      (blocks_full hnum hprices blocks path (i + 1) hvalid.2 hall.2)

/-- The children of a `specified` block that declare a share. -/
theorem declared_full [IsStrictOrderedRing K] (hnum : num.PinvNumbers) (hprices : PositivePrices state) :
    (blocks : List (Block K)) → (path : String) → (i : ℕ) →
      validateBlocks num path i blocks = [] → DeclaredAllocate num state blocks →
        (∀ c ∈ blocks, ∀ share, declaredShare num state c = some share → 0 < share) →
          let pairs := (sharesAndAllocations num state blocks).filterMap fun child =>
            if child.2.isEmpty then none else child.1.map (child.2, ·)
          List.Forall₂ (fun pair held => 0 < pair.2 ∧ Full pair.1 held) pairs
              (declaredHeld num state blocks) ∧
            ((∃ c ∈ blocks, (declaredShare num state c).isSome) → pairs ≠ [])
  | [], _, _, _, _, _ => by
    rw [sharesAndAllocations, declaredHeld]
    exact ⟨.nil, fun ⟨_, hc, _⟩ => absurd hc List.not_mem_nil⟩
  | block :: blocks, path, i, hvalid, hall, hpos => by
    rw [validateBlocks, List.append_eq_nil_iff] at hvalid
    rw [DeclaredAllocate] at hall
    have hrest := declared_full hnum hprices blocks path (i + 1) hvalid.2 hall.2
      fun c hc => hpos c (List.mem_cons_of_mem _ hc)
    rw [sharesAndAllocations, declaredHeld]
    cases hshare : declaredShare num state block with
    | none =>
      have hnone : (shareAndAllocation num state block).1 = none := by
        rw [shareAndAllocation_fst, hshare]
      have hskip : (if (shareAndAllocation num state block).2.isEmpty then none
          else (shareAndAllocation num state block).1.map
            ((shareAndAllocation num state block).2, ·)) = none := by
        rw [hnone, Option.map_none, ite_self]
      simp only [List.filterMap_cons, hskip, Option.isSome_none, Bool.false_eq_true, if_false]
      refine ⟨hrest.1, fun ⟨c, hc, hsome⟩ => hrest.2 ⟨c, ?_, hsome⟩⟩
      obtain rfl | hc := List.mem_cons.mp hc
      · rw [hshare] at hsome
        cases hsome
      · exact hc
    | some share =>
      have hfull := block_full hnum hprices block _ hvalid.1 (hall.1 (by rw [hshare]; rfl))
      have hsome : (shareAndAllocation num state block).1 = some share := by
        rw [shareAndAllocation_fst, hshare]
      have hpair : (if (shareAndAllocation num state block).2.isEmpty then none
          else (shareAndAllocation num state block).1.map
            ((shareAndAllocation num state block).2, ·)) =
          some ((shareAndAllocation num state block).2, share) := by
        rw [hsome, if_neg (by simpa using hfull.ne_nil), Option.map_some]
      simp only [List.filterMap_cons, hpair, Option.isSome_some, if_true]
      exact ⟨.cons ⟨hpos block (List.mem_cons_self ..) share hshare, hfull⟩ hrest.1,
        fun _ => List.cons_ne_nil _ _⟩

end

end Trees

/-! ## Strategies -/

/-- The periods of an indicator that make `numpy` raise when they are 0 are not. -/
def IndicatorSpec.PeriodsDefined (spec : IndicatorSpec) : Prop :=
  match spec.indicatorType with
  | .sma | .bbands | .cci | .williamsR | .donchian | .momentum =>
    periodAt spec.indicatorType spec.params 0 ≠ 0
  | .stoch => ∀ i < 3, periodAt spec.indicatorType spec.params i ≠ 0
  | _ => True

section Strategies

variable {num : Numerics K}

theorem computeIndicator_isSome (num : Numerics K) {spec : IndicatorSpec} (h : spec.PeriodsDefined)
    (bars : List (Bar T K)) : (computeIndicator num spec bars).isSome := by
  obtain ⟨indicatorType, symbol, params, outputKey, outputField, requiredBars⟩ := spec
  cases indicatorType with
  | sma | bbands | cci | williamsR | donchian | momentum =>
    have hperiod := h
    simp only [IndicatorSpec.PeriodsDefined] at hperiod
    simp [computeIndicator, hperiod]
  | stoch =>
    simp only [IndicatorSpec.PeriodsDefined] at h
    simp [computeIndicator, h 0 (by decide), h 1 (by decide), h 2 (by decide)]
  | ema | rsi | macd | atr | adx | obv | mfi | vwap | keltner | stddev => simp [computeIndicator]

theorem foldlM_isSome {α β : Type} {f : β → α → Option β} {l : List α}
    (h : ∀ x ∈ l, ∀ b, (f b x).isSome) (b : β) : (l.foldlM f b).isSome := by
  induction l generalizing b with
  | nil => rfl
  | cons x l ih =>
    obtain ⟨c, hc⟩ := Option.isSome_iff_exists.mp (h x (List.mem_cons_self ..) b)
    rw [List.foldlM_cons, hc]
    exact ih (fun y hy => h y (List.mem_cons_of_mem _ hy)) c

theorem buildState_isSome {compiled : CompiledStrategy K}
    (h : ∀ spec ∈ compiled.indicators, spec.PeriodsDefined) (bars : InsertionDict (Bar T K))
    (history : InsertionDict (List (Bar T K))) :
    ∃ state, compiled.buildState num bars history = some state ∧ state.barHistory = history := by
  have hcomputed : (compiled.computeAllIndicators num history).isSome := by
    refine foldlM_isSome (fun ⟨symbol, stored⟩ _ computed => ?_) _
    simp only
    split_ifs
    · rfl
    · refine foldlM_isSome (fun spec hspec computed => ?_) _
      obtain ⟨results, hresults⟩ := Option.isSome_iff_exists.mp
        (computeIndicator_isSome num (h spec (List.mem_filter.mp hspec).1) stored)
      rw [hresults]
      rfl
  obtain ⟨indicators, hindicators⟩ := Option.isSome_iff_exists.mp hcomputed
  rw [CompiledStrategy.buildState, hindicators]
  exact ⟨_, rfl, rfl⟩

variable [IsStrictOrderedRing K]

theorem Amounts.normalizeWeights_eq (a : Amounts K) (h : a.total = 100) :
    CompiledStrategy.normalizeWeights a.weights = a.weights := by
  have hpos : ¬ (100 : K) ≤ 0 := by norm_num
  have hsame : ∀ x : K, mulN (divN (some x) (some 100)) (some 100) = some x := by
    intro x
    simp [mulN, divN]
  rw [CompiledStrategy.normalizeWeights, a.sumN_weights, h]
  simp only [notPositive, Option.any_some, decide_eq_true_eq, if_neg hpos]
  simp [Amounts.weights, InsertionDict.mapValues, hsame]

variable [DecidableEq T]

end Strategies

namespace Sample

/-- The numerical functions, for strategies that use none of them. -/
def numerics : Numerics ℚ where
  text x := toString x.num
  isalpha := Char.isAlpha
  sqrt x := x
  pinvOnes _ := none

/-- A minute bar of one price. -/
def flatBar (minute : ℕ) (price : ℚ) : Bar ℕ ℚ := ⟨minute, price, price, price, price, 100⟩

/-- The bars of one minute. -/
def minuteBars (minute : ℕ) (spy qqq tlt : ℚ) : InsertionDict (Bar ℕ ℚ) :=
  [("SPY", flatBar minute spy), ("QQQ", flatBar minute qqq), ("TLT", flatBar minute tlt)]

/-- The history after the first minute. -/
def firstMinute : StrategyMemory ℕ ℚ where
  barHistory := [("SPY", [flatBar 1 50]), ("QQQ", [flatBar 1 40]), ("TLT", [flatBar 1 90])]
  lastAllocation := []

/-- Sixty percent in the better of two stocks, forty percent in bonds. -/
def sixtyForty : Strategy ℚ where
  name := "Sixty forty"
  rebalance := some .monthly
  children := [.weight .specified
    [.group "Stocks" [.filter .momentum .top 1
      [.weight .equal [.asset "SPY" none, .asset "QQQ" none] none none none] (some 1)] (some 60),
      .asset "TLT" (some 40)] none none none]

/-- A weight block below one whose children must declare their weights. -/
def undeclaredChild : Strategy ℚ where
  name := "Undeclared"
  rebalance := none
  children := [.weight .specified [.weight .equal [.asset "SPY" none] none none none] none none none]

end Sample

end LlamaTrade
