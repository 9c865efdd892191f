import LlamaTrade.ValidatedStrategies

/-!
# Held shares

How the allocation of a block is divided among its children. A child whose own allocation is empty
holds nothing, and its share goes to its siblings. The others hold their shares, scaled to one
hundred in all: the declared shares where every one of them declares one, and equal shares else.
-/

namespace LlamaTrade

variable {T K : Type} [Field K] [LinearOrder K]

/-! ## Amounts of an allocation -/

/-- All weights are numbers. -/
def Weights.Numeric (weights : Weights K) : Prop := ∀ e ∈ weights, e.2 ≠ none

/-- The weight of some of the symbols. -/
def Weights.amountIn (p : String → Bool) (weights : Weights K) : K :=
  (weights.map fun e => if p e.1 then e.2.getD 0 else 0).sum

/-- The weight of one symbol. -/
def Weights.amountOf (symbol : String) (weights : Weights K) : K := weights.amountIn (· = symbol)

/-- The weight of all symbols. -/
def Weights.mass (weights : Weights K) : K := weights.amountIn fun _ => true

/-- An allocation times a factor. -/
def Weights.scaledBy (factor : K) (weights : Weights K) : Weights K :=
  weights.mapValues fun x => mulN x (some factor)

section Amounts

variable {weights combined allocation : Weights K} {p : String → Bool}

omit [LinearOrder K] in
theorem amountIn_cons (p : String → Bool) (e : String × Option K) (weights : Weights K) :
    Weights.amountIn p (e :: weights) =
      (if p e.1 then e.2.getD 0 else 0) + Weights.amountIn p weights := by
  rw [Weights.amountIn, List.map_cons, List.sum_cons, Weights.amountIn]

omit [Field K] [LinearOrder K] in
theorem numeric_cons {e : String × Option K} :
    Weights.Numeric (e :: weights) ↔ e.2 ≠ none ∧ weights.Numeric := by
  simp [Weights.Numeric]

omit [LinearOrder K] in
theorem sumN_numeric (h : weights.Numeric) : sumN weights.values = some weights.mass := by
  have hvalues : weights.values = (weights.map fun e => e.2.getD 0).map some := by
    rw [InsertionDict.values, List.map_map]
    refine List.map_congr_left fun e he => ?_
    obtain ⟨x, hx⟩ := Option.ne_none_iff_exists'.mp (h e he)
    simp [hx]
  rw [hvalues, sumN, sumN_some, zero_add, Weights.mass, Weights.amountIn]
  simp

omit [LinearOrder K] in
theorem foldl_addN_none (xs : List (Option K)) : xs.foldl addN none = none := by
  induction xs with
  | nil => rfl
  | cons x xs ih => exact ih

omit [LinearOrder K] in
theorem sumN_none {xs : List (Option K)} (h : none ∈ xs) : sumN xs = none := by
  obtain ⟨before, after, rfl⟩ := List.append_of_mem h
  rw [sumN, List.foldl_append, List.foldl_cons]
  have hnone (x : Option K) : addN x none = none := by cases x <;> rfl
  rw [hnone, foldl_addN_none]

omit [LinearOrder K] in
theorem sumN_not_numeric (h : ¬ weights.Numeric) : sumN weights.values = none := by
  simp only [Weights.Numeric, not_forall, not_not] at h
  obtain ⟨e, he, hnone⟩ := h
  exact sumN_none (hnone ▸ List.mem_map_of_mem he)

omit [LinearOrder K] in
theorem amountIn_scaledBy (p : String → Bool) (factor : K) (weights : Weights K) :
    (weights.scaledBy factor).amountIn p = weights.amountIn p * factor := by
  induction weights with
  | nil => simp [Weights.scaledBy, Weights.amountIn, InsertionDict.mapValues]
  | cons e weights ih =>
    rw [Weights.scaledBy, InsertionDict.mapValues_cons, amountIn_cons, amountIn_cons,
      ← Weights.scaledBy, ih, add_mul]
    congr 1
    obtain ⟨symbol, x⟩ := e
    cases x with
    | none => simp [mulN]
    | some x => split_ifs <;> simp [mulN]

omit [LinearOrder K] in
theorem amountIn_modify (h : combined.Numeric) (p : String → Bool) (symbol : String) (x : K) :
    let merged := combined.modify (fun old => addN old (some x)) (some 0) symbol
    Weights.Numeric merged ∧
      Weights.amountIn p merged = combined.amountIn p + if p symbol then x else 0 := by
  induction combined with
  | nil => simp [InsertionDict.modify, Weights.Numeric, Weights.amountIn, addN]
  | cons e combined ih =>
    obtain ⟨key, y⟩ := e
    obtain ⟨hy, hrest⟩ := numeric_cons.mp h
    obtain ⟨y, rfl⟩ := Option.ne_none_iff_exists'.mp hy
    dsimp only
    rw [InsertionDict.modify]
    by_cases hkey : key = symbol
    · rw [if_pos hkey, ← hkey]
      refine ⟨numeric_cons.mpr ⟨by simp [addN], hrest⟩, ?_⟩
      rw [amountIn_cons, amountIn_cons, add_right_comm]
      congr 1
      split_ifs <;> simp [addN]
    · rw [if_neg hkey]
      refine ⟨numeric_cons.mpr ⟨hy, (ih hrest).1⟩, ?_⟩
      rw [amountIn_cons, amountIn_cons, (ih hrest).2, add_assoc]

omit [LinearOrder K] in
/-- A weight that is not a number spoils the dictionary it is added to. -/
theorem modify_not_numeric {x : Option K} (symbol : String) (h : ¬ combined.Numeric ∨ x = none) :
    ¬ Weights.Numeric (combined.modify (fun old => addN old x) (some 0) symbol) := by
  induction combined with
  | nil =>
    obtain h | rfl := h
    · exact absurd (fun _ he => absurd he List.not_mem_nil) h
    · simp [InsertionDict.modify, Weights.Numeric, addN]
  | cons e combined ih =>
    rw [InsertionDict.modify]
    rw [numeric_cons, not_and_or] at h
    split_ifs
    · rw [numeric_cons, not_and_or]
      obtain (he | hrest) | rfl := h
      · have hnone : e.2 = none := not_not.mp he
        simp [hnone, addN]
      · exact .inr hrest
      · cases e.2 <;> simp [addN]
    · rw [numeric_cons, not_and_or]
      obtain (he | hrest) | hx := h
      · exact .inl he
      · exact .inr (ih (.inl hrest))
      · exact .inr (ih (.inr hx))

variable [IsStrictOrderedRing K]

/-- An allocation that is merged adds its weights times its share. -/
theorem amountIn_mergeInto (hcombined : combined.Numeric) (h : allocation.Numeric)
    (p : String → Bool) (share : K) :
    Weights.Numeric (mergeInto combined allocation share) ∧
      (mergeInto combined allocation share).amountIn p =
        combined.amountIn p + allocation.amountIn p * share / 100 := by
  induction allocation generalizing combined with
  | nil => exact ⟨hcombined, by simp [mergeInto, Weights.amountIn]⟩
  | cons e allocation ih =>
    obtain ⟨symbol, x⟩ := e
    obtain ⟨hx, hrest⟩ := numeric_cons.mp h
    obtain ⟨x, rfl⟩ := Option.ne_none_iff_exists'.mp hx
    have hpart : divN (mulN (some x) (some share)) (some 100) = some (x * share / 100) := by
      simp [mulN, divN]
    obtain ⟨hnumeric, hamount⟩ := amountIn_modify hcombined p symbol (x * share / 100)
    obtain ⟨hmerged, htotal⟩ := ih hnumeric hrest
    rw [mergeInto, List.foldl_cons, ← mergeInto]
    dsimp only
    rw [hpart]
    refine ⟨hmerged, ?_⟩
    rw [htotal, hamount, amountIn_cons]
    split_ifs
    · rw [Option.getD_some]
      ring
    · ring

omit [IsStrictOrderedRing K] in
theorem mergeInto_not_numeric {share : K} (h : ¬ combined.Numeric ∨ ¬ allocation.Numeric) :
    ¬ Weights.Numeric (mergeInto combined allocation share) := by
  induction allocation generalizing combined with
  | nil => exact h.resolve_right (not_not.mpr fun _ he => absurd he List.not_mem_nil)
  | cons e allocation ih =>
    rw [mergeInto, List.foldl_cons, ← mergeInto]
    refine ih ?_
    rw [numeric_cons, not_and_or] at h
    obtain hcombined | he | hrest := h
    · exact .inl (modify_not_numeric _ (.inl hcombined))
    · refine .inl (modify_not_numeric _ (.inr ?_))
      rw [not_not.mp he]
      rfl
    · exact .inr hrest

/-- Merged allocations add up. -/
theorem amountIn_foldl {pairs : List (Weights K × K)} (h : ∀ pair ∈ pairs, pair.1.Numeric)
    (hcombined : combined.Numeric) (p : String → Bool) :
    let merged := pairs.foldl (fun combined pair => mergeInto combined pair.1 pair.2) combined
    Weights.Numeric merged ∧ Weights.amountIn p merged =
      combined.amountIn p + (pairs.map fun pair => pair.1.amountIn p * pair.2 / 100).sum := by
  induction pairs generalizing combined with
  | nil => exact ⟨hcombined, by simp⟩
  | cons pair pairs ih =>
    obtain ⟨hnumeric, hamount⟩ :=
      amountIn_mergeInto hcombined (h pair (List.mem_cons_self ..)) p pair.2
    obtain ⟨hmerged, htotal⟩ := ih (fun q hq => h q (List.mem_cons_of_mem _ hq)) hnumeric
    refine ⟨hmerged, ?_⟩
    rw [List.foldl_cons, htotal, hamount, List.map_cons, List.sum_cons, add_assoc]

omit [IsStrictOrderedRing K] in
theorem foldl_not_numeric {pairs : List (Weights K × K)}
    (h : ¬ combined.Numeric ∨ ∃ pair ∈ pairs, ¬ pair.1.Numeric) :
    ¬ Weights.Numeric
      (pairs.foldl (fun combined pair => mergeInto combined pair.1 pair.2) combined) := by
  induction pairs generalizing combined with
  | nil => exact h.resolve_right fun ⟨_, hq, _⟩ => absurd hq List.not_mem_nil
  | cons pair pairs ih =>
    refine ih ?_
    obtain hcombined | ⟨q, hq, hnumeric⟩ := h
    · exact .inl (mergeInto_not_numeric (.inl hcombined))
    · obtain rfl | hq := List.mem_cons.mp hq
      · exact .inl (mergeInto_not_numeric (.inr hnumeric))
      · exact .inr ⟨q, hq, hnumeric⟩

omit [IsStrictOrderedRing K] in
theorem normalized_eq_nil (h : weights.Numeric) (hmass : weights.mass ≤ 0) :
    normalized weights = [] := by
  rw [normalized, sumN_numeric h]
  exact if_pos (by simpa [notPositive] using hmass)

omit [IsStrictOrderedRing K] in
theorem normalized_scaledBy (h : weights.Numeric) (hmass : 0 < weights.mass) :
    Weights.Numeric (normalized weights) ∧
      normalized weights = weights.scaledBy (100 / weights.mass) := by
  have hscaled : normalized weights = weights.scaledBy (100 / weights.mass) := by
    rw [normalized, sumN_numeric h]
    dsimp only
    rw [if_neg (by simpa [notPositive] using hmass), Weights.scaledBy, InsertionDict.mapValues]
    refine List.map_congr_left fun e he => ?_
    obtain ⟨x, hx⟩ := Option.ne_none_iff_exists'.mp (h e he)
    simp [hx, mulN, divN, hmass.ne', mul_div_assoc]
  refine ⟨fun e he => ?_, hscaled⟩
  rw [hscaled] at he
  obtain ⟨entry, hentry, rfl⟩ := List.mem_map.mp he
  obtain ⟨x, hx⟩ := Option.ne_none_iff_exists'.mp (h entry hentry)
  simp [hx, mulN]

omit [IsStrictOrderedRing K] in
theorem normalized_not_numeric (h : ¬ weights.Numeric) :
    ∀ x ∈ (normalized weights).values, x = none := by
  rw [normalized, sumN_not_numeric h]
  intro x hx
  simp only [notPositive, Option.any_none, Bool.false_eq_true, if_false] at hx
  obtain ⟨e, he, rfl⟩ := List.mem_map.mp hx
  obtain ⟨e, -, rfl⟩ := List.mem_map.mp he
  simp only [divN, mulN]
  cases e.2 <;> rfl

/-- A normalized allocation that holds something has the mass one hundred. -/
theorem mass_normalized (h : (normalized weights).Numeric) (hne : normalized weights ≠ []) :
    (normalized weights).mass = 100 := by
  by_cases hnumeric : weights.Numeric
  · obtain hmass | hmass := le_or_gt weights.mass 0
    · exact absurd (normalized_eq_nil hnumeric hmass) hne
    · rw [(normalized_scaledBy hnumeric hmass).2, Weights.mass, amountIn_scaledBy, ← Weights.mass]
      field_simp
  · obtain ⟨e, he⟩ := List.exists_mem_of_ne_nil _ hne
    exact absurd (normalized_not_numeric hnumeric _ (List.mem_map_of_mem he)) (h e he)

/-- Allocations of mass one hundred, merged by their shares. -/
theorem scaledMerge_divides {pairs : List (Weights K × K)}
    (h : ∀ pair ∈ pairs, pair.1.Numeric) (hmass : ∀ pair ∈ pairs, pair.1.mass = 100) :
    let total := (pairs.map Prod.snd).sum
    (total ≤ 0 → scaledMerge pairs = []) ∧
      (0 < total → (scaledMerge pairs).Numeric ∧ ∀ p, (scaledMerge pairs).amountIn p =
        (pairs.map fun pair => (pair.1.scaledBy (pair.2 / total)).amountIn p).sum) := by
  intro total
  have hempty : Weights.Numeric ([] : Weights K) := fun _ he => absurd he List.not_mem_nil
  have hmerged : (pairs.foldl (fun combined pair => mergeInto combined pair.1 pair.2)
      ([] : Weights K)).mass = total := by
    rw [Weights.mass, (amountIn_foldl h hempty _).2, Weights.amountIn, List.map_nil, List.sum_nil,
      zero_add]
    refine congrArg List.sum (List.map_congr_left fun pair hpair => ?_)
    have hpair := hmass pair hpair
    rw [Weights.mass] at hpair
    rw [hpair]
    field_simp
  have hnumeric := (amountIn_foldl h hempty fun _ => true).1
  rw [scaledMerge]
  refine ⟨fun htotal => normalized_eq_nil hnumeric (hmerged.trans_le htotal), fun htotal => ?_⟩
  obtain ⟨hnumbers, hscaled⟩ := normalized_scaledBy hnumeric (hmerged ▸ htotal)
  refine ⟨hnumbers, fun p => ?_⟩
  rw [hscaled, amountIn_scaledBy, hmerged, (amountIn_foldl h hempty p).2, Weights.amountIn,
    List.map_nil, List.sum_nil, zero_add, ← List.sum_map_mul_right]
  refine congrArg List.sum (List.map_congr_left fun pair _ => ?_)
  rw [amountIn_scaledBy]
  field_simp

omit [IsStrictOrderedRing K] in
theorem scaledMerge_not_numeric {pairs : List (Weights K × K)}
    (h : ∃ pair ∈ pairs, ¬ pair.1.Numeric) : ∀ x ∈ (scaledMerge pairs).values, x = none :=
  normalized_not_numeric (foldl_not_numeric (.inr h))

end Amounts

/-! ## The mass of an allocation -/

/-- `np.linalg.pinv(cov) @ ones` has an entry for each row of the matrix. -/
def Numerics.PinvSized (num : Numerics K) : Prop :=
  ∀ cov raw, num.pinvOnes cov = some raw → raw.length = cov.length

section Mass

variable [IsStrictOrderedRing K] {num : Numerics K} {state : EvaluationState T K}

omit [IsStrictOrderedRing K] in
theorem IsFull.mass_eq {weights : Weights K} (h : IsFull weights) : weights.mass = 100 := by
  obtain ⟨a, rfl, -, htotal⟩ := h
  rw [← htotal, Amounts.total, Amounts.weights, Weights.mass, Weights.amountIn,
    InsertionDict.mapValues, List.map_map, InsertionDict.values]
  rfl

omit [IsStrictOrderedRing K] in
theorem riskParityLoop_length (cov : List (Series K)) (rounds : ℕ) {w : Series K}
    (h : w.length = cov.length) : (riskParityLoop cov rounds w).length = cov.length := by
  have hnext (w : Series K) : (riskParityNext cov w).length = cov.length := by
    simp [riskParityNext, marginalRisk]
  induction rounds generalizing w with
  | zero => exact h
  | succ rounds ih =>
    rw [riskParityLoop]
    split_ifs
    · exact hnext w
    · exact ih (hnext w)

omit [IsStrictOrderedRing K] in
theorem alignedReturns_length {symbols sorted : List String} {lookback : Option ℤ}
    {returns : List (Series K)} (h : alignedReturns state symbols lookback = some (sorted, returns)) :
    returns.length = sorted.length := by
  unfold alignedReturns at h
  simp only at h
  split_ifs at h
  cases h
  rw [List.length_map]

omit [IsStrictOrderedRing K] in
/-- Raw weights of which one is not a number. -/
theorem covarianceWeights_not_numeric {symbols sorted : List String} {lookback : Option ℤ}
    {returns : List (Series K)} {raw : Series K}
    {rawWeights : List (Series K) → Option (Series K)}
    (haligned : alignedReturns state symbols lookback = some (sorted, returns))
    (hraw : rawWeights (covarianceMatrix returns) = some raw) (hlength : raw.length = sorted.length)
    (hnone : none ∈ raw) : ¬ (covarianceWeights num state symbols lookback rawWeights).Numeric := by
  have htotal : sumN (raw.map fun x => x.map fun x => max x 0) = none :=
    sumN_none (List.mem_map.mpr ⟨none, hnone, rfl⟩)
  intro hnumeric
  simp only [covarianceWeights, haligned, hraw, htotal, notPositive, Option.any_none,
    Bool.false_eq_true, if_false, withZeros] at hnumeric
  obtain ⟨symbol, hsymbol⟩ : ∃ symbol, symbol ∈ sorted :=
    List.exists_mem_of_length_pos (hlength ▸ List.length_pos_of_mem hnone)
  obtain ⟨i, hi, -⟩ := List.getElem_of_mem hsymbol
  have hi' : i < (raw.map fun x => x.map fun x => max x 0).length := by
    rw [List.length_map, hlength]
    exact hi
  refine hnumeric (sorted[i], none) (List.mem_append_left _ (List.mem_iff_getElem.mpr ⟨i, ?_, ?_⟩)) rfl
  · simpa using ⟨hi, hlength ▸ hi⟩
  · rw [List.getElem_zip, List.getElem_map]
    refine Prod.ext rfl ?_
    cases (raw.map fun x => x.map fun x => max x 0)[i] <;> rfl

theorem mass_covarianceWeights {symbols : List String} {lookback : Option ℤ}
    {rawWeights : List (Series K) → Option (Series K)} (hsymbols : symbols.Nodup)
    (hne : symbols ≠ []) (hsize : ∀ cov raw, rawWeights cov = some raw → raw.length = cov.length)
    (h : (covarianceWeights num state symbols lookback rawWeights).Numeric) :
    (covarianceWeights num state symbols lookback rawWeights).mass = 100 := by
  refine (covarianceWeights_full num state hsymbols hne fun sorted returns haligned raw hraw => ?_).mass_eq
  have hlength : raw.length = sorted.length := by
    rw [hsize _ raw hraw, covarianceMatrix, List.length_map, alignedReturns_length haligned]
  have hsome : ∀ x ∈ raw, x ≠ none := fun x hx hnone =>
    covarianceWeights_not_numeric haligned hraw hlength (hnone ▸ hx) h
  refine ⟨raw.map (·.getD 0), ?_, by rw [List.length_map, hlength]⟩
  rw [List.map_map]
  refine (List.map_id raw).symm.trans (List.map_congr_left fun x hx => ?_)
  obtain ⟨y, rfl⟩ := Option.ne_none_iff_exists'.mp (hsome x hx)
  rfl

theorem mass_computedWeights (hpinv : num.PinvSized) {method : WeightMethod}
    {lookback top : Option ℤ} {symbols : List String} (hsymbols : symbols.Nodup)
    (hne : symbols ≠ []) (htop : ∀ n, top = some n → 0 < n)
    (h : (computedWeights num state method lookback top symbols).Numeric) :
    (computedWeights num state method lookback top symbols).mass = 100 := by
  cases method with
  | momentum => exact (computeMomentumWeights_full state lookback hsymbols hne htop).mass_eq
  | inverseVolatility =>
    exact (computeInverseVolatilityWeights_full num state lookback hsymbols hne).mass_eq
  | riskParity =>
    rw [computedWeights] at h ⊢
    refine mass_covarianceWeights hsymbols hne (fun cov raw hraw => ?_) h
    rw [← Option.some.inj hraw]
    exact riskParityLoop_length cov 500 List.length_replicate
  | minVariance =>
    rw [computedWeights] at h ⊢
    exact mass_covarianceWeights hsymbols hne hpinv h
  | specified => exact (equalWeights_full hsymbols hne).mass_eq
  | equal => exact (equalWeights_full hsymbols hne).mass_eq
  | marketCap => exact (equalWeights_full hsymbols hne).mass_eq

theorem nodup_addSymbols {symbols : List String} (more : List String) (h : symbols.Nodup) :
    (addSymbols symbols more).Nodup := by
  induction more generalizing symbols with
  | nil => exact h
  | cons symbol more ih =>
    rw [addSymbols, List.foldl_cons, ← addSymbols]
    split_ifs with hmem
    · exact ih h
    · exact ih (h.append (List.nodup_singleton symbol) (by simpa using hmem))

omit [Field K] [LinearOrder K] [IsStrictOrderedRing K] in
theorem nodup_symbolUnion (children : List (Option K × Weights K)) :
    (symbolUnion children).Nodup := by
  suffices h : ∀ symbols : List String, symbols.Nodup →
      (children.foldl (fun symbols child => addSymbols symbols child.2.keys) symbols).Nodup from
    h [] List.nodup_nil
  induction children with
  | nil => exact fun _ h => h
  | cons child children ih => exact fun _ h => ih _ (nodup_addSymbols _ h)

/-- The allocation is empty, or its mass is one hundred. -/
def Weights.HundredOrEmpty (weights : Weights K) : Prop :=
  weights.Numeric → weights ≠ [] → weights.mass = 100

omit [LinearOrder K] [IsStrictOrderedRing K] in
theorem hundredOrEmpty_nil : Weights.HundredOrEmpty ([] : Weights K) := fun _ hne => absurd rfl hne

theorem hundredOrEmpty_normalized (weights : Weights K) : (normalized weights).HundredOrEmpty :=
  mass_normalized

theorem hundredOrEmpty_siblings (children : List (Option K × Weights K)) :
    (evaluateSiblings children).HundredOrEmpty := by
  unfold evaluateSiblings
  dsimp only
  split_ifs
  · exact hundredOrEmpty_nil
  · exact hundredOrEmpty_normalized _
  · exact hundredOrEmpty_normalized _

theorem hundredOrEmpty_weight (hpinv : num.PinvSized) {method : WeightMethod}
    {lookback top : Option ℤ} (children : List (Option K × Weights K))
    (htop : ∀ n, top = some n → 0 < n) :
    (evaluateWeight num state method lookback top children).HundredOrEmpty := by
  unfold evaluateWeight
  dsimp only
  split
  · exact hundredOrEmpty_normalized _
  · split_ifs
    · exact hundredOrEmpty_nil
    · exact hundredOrEmpty_normalized _
  · split_ifs with hsymbols
    · exact hundredOrEmpty_nil
    · exact fun h _ => mass_computedWeights hpinv (nodup_symbolUnion children)
        (by simpa using hsymbols) htop h

theorem hundredOrEmpty_allocation (hpinv : num.PinvSized) :
    (block : Block K) → (path : String) → validateBlock num path block = [] →
      (shareAndAllocation num state block).2.HundredOrEmpty
  | .strategy .., path, hvalid => by simp [validateBlock] at hvalid
  | .group .., path, _ => by
    rw [shareAndAllocation]
    exact hundredOrEmpty_siblings _
  | .weight .., path, hvalid => by
    simp only [validateBlock, List.append_eq_nil_iff] at hvalid
    rw [shareAndAllocation]
    exact hundredOrEmpty_weight hpinv _ (checkWeight_eq_nil hvalid.1).2
  | .asset .., path, _ => by
    rw [shareAndAllocation]
    intro _ _
    simp [Weights.mass, Weights.amountIn]
  | .onlyIf .., path, hvalid => by simp [validateBlock] at hvalid
  | .ifElse condition thenBlock elseBlock, path, hvalid => by
    simp only [validateBlock, List.append_eq_nil_iff] at hvalid
    rw [shareAndAllocation]
    split_ifs
    · exact hundredOrEmpty_allocation hpinv thenBlock _ hvalid.1.2
    · exact hundredOrEmpty_allocation hpinv elseBlock _ hvalid.2
  | .filter .., path, _ => by
    rw [shareAndAllocation, evaluateFilter]
    split_ifs
    · exact hundredOrEmpty_nil
    · exact hundredOrEmpty_normalized _

end Mass

/-! ## Children of a block -/

section Children

variable (num : Numerics K) (state : EvaluationState T K)

/-- `_evaluate_block`. -/
def allocationOf (block : Block K) : Weights K := (shareAndAllocation num state block).2

/-- The children whose allocation is not empty. -/
def contributing (children : List (Block K)) : List (Block K) :=
  children.filter fun c => !(allocationOf num state c).isEmpty

/-- The share that a child declares. -/
def shareOf (c : Block K) : K := (declaredShare num state c).getD 0

/-- The share of a child among its siblings: the declared share if every contributing sibling
declares one, and else an equal share. -/
def siblingShare (children : List (Block K)) (c : Block K) : K :=
  if (contributing num state children).all fun c => (declaredShare num state c).isSome then
    shareOf num state c
  else 100 / (contributing num state children).length

variable (children : List (Block K)) (share : Block K → K)

/-- The shares of the children that contribute, in all. -/
def totalShare : K := ((contributing num state children).map share).sum

/-- What a child contributes to the allocation of its parent. -/
def partOf (c : Block K) : Weights K :=
  (allocationOf num state c).scaledBy (share c / totalShare num state children share)

/-- The weights of every contributing child are numbers. -/
def ChildrenNumeric : Prop := ∀ c ∈ contributing num state children, (allocationOf num state c).Numeric

/-- The weights are the parts of the contributing children, of which each has its share. They are
empty when the shares are not positive in all, and not numbers when those of a child are not. -/
structure DividedBy (weights : Weights K) : Prop where
  numeric : ChildrenNumeric num state children → 0 < totalShare num state children share →
    weights.Numeric
  amountOf : ChildrenNumeric num state children → 0 < totalShare num state children share →
    ∀ symbol, weights.amountOf symbol = ((contributing num state children).map fun c =>
      (partOf num state children share c).amountOf symbol).sum
  mass : ChildrenNumeric num state children → 0 < totalShare num state children share →
    ∀ c ∈ contributing num state children, (partOf num state children share c).mass =
      share c * 100 / totalShare num state children share
  empty : ChildrenNumeric num state children → totalShare num state children share ≤ 0 →
    weights = []
  undefined : ¬ ChildrenNumeric num state children → ∀ x ∈ weights.values, x = none

end Children

section Division

variable {num : Numerics K} {state : EvaluationState T K} {children : List (Block K)}
  {share : Block K → K}

theorem dividedBy_scaledMerge [IsStrictOrderedRing K]
    (hmass : ∀ c ∈ children, (allocationOf num state c).HundredOrEmpty) :
    DividedBy num state children share
      (scaledMerge ((contributing num state children).map fun c =>
        (allocationOf num state c, share c))) := by
  have hhundred (hnumeric : ChildrenNumeric num state children) :
      ∀ c ∈ contributing num state children, (allocationOf num state c).mass = 100 := by
    intro c hc
    obtain ⟨hmem, hne⟩ := List.mem_filter.mp hc
    exact hmass c hmem (hnumeric c hc) (by simpa using hne)
  let pairs := (contributing num state children).map fun c => (allocationOf num state c, share c)
  have hdivides (hnumeric : ChildrenNumeric num state children) := by
    have hnumbers : ∀ pair ∈ pairs, pair.1.Numeric := List.forall_mem_map.mpr hnumeric
    exact scaledMerge_divides hnumbers (List.forall_mem_map.mpr (hhundred hnumeric))
  simp only [pairs, List.map_map] at hdivides
  refine ⟨fun hnumeric hpos => ((hdivides hnumeric).2 hpos).1, fun hnumeric hpos symbol => ?_,
    fun hnumeric hpos c hc => ?_, fun hnumeric => (hdivides hnumeric).1, fun hnumeric => ?_⟩
  · exact ((hdivides hnumeric).2 hpos).2 _
  · rw [partOf, Weights.mass, amountIn_scaledBy, ← Weights.mass, hhundred hnumeric c hc]
    ring
  · rw [ChildrenNumeric] at hnumeric
    simp only [not_forall, exists_prop] at hnumeric
    obtain ⟨c, hc, hc'⟩ := hnumeric
    exact scaledMerge_not_numeric ⟨_, List.mem_map_of_mem hc, hc'⟩

theorem evaluateSiblings_eq :
    evaluateSiblings (sharesAndAllocations num state children) =
      scaledMerge ((contributing num state children).map fun c =>
        (allocationOf num state c, siblingShare num state children c)) := by
  have hfilter : (sharesAndAllocations num state children).filter (fun child => !child.2.isEmpty) =
      (contributing num state children).map (shareAndAllocation num state) := by
    rw [sharesAndAllocations_eq, List.filter_map]
    rfl
  unfold evaluateSiblings
  simp only [hfilter, List.length_map, List.all_map, List.isEmpty_map]
  split_ifs with hempty hall
  · rw [List.isEmpty_iff.mp hempty]
    simp [scaledMerge, normalized, sumN, notPositive, InsertionDict.values]
  · congr 1
    rw [List.filterMap_map]
    simp only [Function.comp_def, shareAndAllocation_fst] at hall ⊢
    simp only [siblingShare, if_pos hall]
    rw [← List.filterMap_eq_map]
    refine List.filterMap_congr fun c hc => ?_
    obtain ⟨x, hx⟩ := Option.isSome_iff_exists.mp (List.all_eq_true.mp hall c hc)
    simp [hx, shareOf, allocationOf]
  · simp only [Function.comp_def, shareAndAllocation_fst] at hall
    simp only [siblingShare, if_neg hall, List.map_map]
    rfl

/-- The children of a `specified` block that all declare their shares. -/
theorem evaluateWeight_specified_eq {lookback top : Option ℤ}
    (hall : ∀ c ∈ children, (declaredShare num state c).isSome) :
    evaluateWeight num state .specified lookback top (sharesAndAllocations num state children) =
      scaledMerge ((contributing num state children).map fun c =>
        (allocationOf num state c, shareOf num state c)) := by
  rw [evaluateWeight, sharesAndAllocations_eq, List.filterMap_map, contributing, ← List.filterMap_eq_map,
    List.filterMap_filter]
  congr 1
  refine List.filterMap_congr fun c hc => ?_
  obtain ⟨x, hx⟩ := Option.isSome_iff_exists.mp (hall c hc)
  simp only [Function.comp_apply, shareAndAllocation_fst, hx, allocationOf, shareOf,
    Option.map_some, Option.getD_some]
  cases (shareAndAllocation num state c).2.isEmpty <;> rfl

end Division

/-! ## Shares that the validator checks -/

section Validation

variable [IsStrictOrderedRing K] {num : Numerics K} {state : EvaluationState T K}

/-- The ifs above the shares of a block. -/
def branchings : Block K → ℕ
  | .ifElse _ thenBlock elseBlock => branchings thenBlock + branchings elseBlock + 1
  | _ => 0

/-- The share of the taken branch is close to the one that all branches declare. -/
theorem declaredShare_near (num : Numerics K) (state : EvaluationState T K) :
    (block : Block K) → (weight : K) → commonBranchWeight block = some weight →
      ∃ share, declaredShare num state block = some share ∧
        |share - weight| ≤ (branchings block : K) / 100
  | .asset _ weight, w, h => ⟨w, by rwa [declaredShare], by simp [branchings]⟩
  | .group _ _ weight, w, h => ⟨w, by rwa [declaredShare], by simp [branchings]⟩
  | .ifElse condition thenBlock elseBlock, w, h => by
    rw [commonBranchWeight] at h
    cases hthen : commonBranchWeight thenBlock with
    | none => simp [hthen] at h
    | some thenWeight =>
      cases helse : commonBranchWeight elseBlock with
      | none => simp [hthen, helse] at h
      | some elseWeight =>
        simp only [hthen, helse, Option.ite_none_right_eq_some, Option.some.injEq] at h
        obtain ⟨hclose, rfl⟩ := h
        have hthenBound : (0 : K) ≤ branchings thenBlock := Nat.cast_nonneg _
        have helseBound : (0 : K) ≤ branchings elseBlock := Nat.cast_nonneg _
        rw [declaredShare, branchings]
        push_cast
        split_ifs
        · obtain ⟨share, hshare, hnear⟩ := declaredShare_near num state thenBlock _ hthen
          exact ⟨share, hshare, hnear.trans (by linarith)⟩
        · obtain ⟨share, hshare, hnear⟩ := declaredShare_near num state elseBlock _ helse
          refine ⟨share, hshare, ?_⟩
          have := abs_sub_le share elseWeight thenWeight
          rw [abs_sub_comm elseWeight] at this
          linarith
  | .strategy .., w, h => by simp [commonBranchWeight] at h
  | .weight .., w, h => by simp [commonBranchWeight] at h
  | .onlyIf .., w, h => by simp [commonBranchWeight] at h
  | .filter .., w, h => by simp [commonBranchWeight] at h

omit [IsStrictOrderedRing K] in
theorem commonBranchWeight_of_sibling {c : Block K} {weight : K}
    (h : declaredSiblingWeight c = some weight) : commonBranchWeight c = some weight := by
  cases c <;> simp_all [declaredSiblingWeight, commonBranchWeight]

/-- The declared shares of siblings that the validator accepts. -/
theorem declared_sum_near {children : List (Block K)} {path : String}
    (hvalid : checkDeclaredWeightSum num children path = []) (hne : children ≠ [])
    (hdeclared : ∀ c ∈ children, (declaredSiblingWeight c).isSome) :
    |(children.map (shareOf num state)).sum - 100| ≤
      (((children.map branchings).sum : ℕ) + 1 : K) / 100 := by
  have hsum : |(children.filterMap declaredSiblingWeight).sum - 100| ≤ 1 / 100 := by
    unfold checkDeclaredWeightSum at hvalid
    have hnone : ¬ (children.any fun c => (declaredSiblingWeight c).isNone) = true := by
      simpa [← Option.isSome_iff_ne_none] using hdeclared
    rw [if_neg (by simpa using hne), if_neg hnone] at hvalid
    simpa using hvalid
  have hnear : |(children.map (shareOf num state)).sum -
      (children.filterMap declaredSiblingWeight).sum| ≤
        (((children.map branchings).sum : ℕ) : K) / 100 := by
    clear hsum hvalid hne
    induction children with
    | nil => simp
    | cons c children ih =>
      obtain ⟨weight, hweight⟩ := Option.isSome_iff_exists.mp (hdeclared c (List.mem_cons_self ..))
      obtain ⟨share, hshare, hclose⟩ :=
        declaredShare_near num state c weight (commonBranchWeight_of_sibling hweight)
      have hrest := ih fun c hc => hdeclared c (List.mem_cons_of_mem _ hc)
      rw [List.map_cons, List.sum_cons, List.filterMap_cons, hweight, List.sum_cons, List.map_cons,
        List.sum_cons, shareOf, hshare, Option.getD_some, add_sub_add_comm]
      push_cast at hrest ⊢
      rw [add_div]
      exact (abs_add_le _ _).trans (add_le_add hclose hrest)
  have := abs_sub_le (children.map (shareOf num state)).sum
    (children.filterMap declaredSiblingWeight).sum 100
  rw [add_div]
  linarith

end Validation

/-! ## Strategies -/

section Trees

mutual

/-- The blocks of a tree. -/
def subblocks : Block K → List (Block K)
  | .strategy name children rebalance => .strategy name children rebalance :: allSubblocks children
  | .group name children weight => .group name children weight :: allSubblocks children
  | .weight method children lookback top location =>
    .weight method children lookback top location :: allSubblocks children
  | .asset symbol weight => [.asset symbol weight]
  | .onlyIf condition thenBlock => .onlyIf condition thenBlock :: subblocks thenBlock
  | .ifElse condition thenBlock elseBlock =>
    .ifElse condition thenBlock elseBlock :: (subblocks thenBlock ++ subblocks elseBlock)
  | .filter criterion direction count children lookback =>
    .filter criterion direction count children lookback :: allSubblocks children

def allSubblocks : List (Block K) → List (Block K)
  | [] => []
  | block :: blocks => subblocks block ++ allSubblocks blocks

end

/-- The kinds of blocks that can declare a share. -/
def canDeclare : Block K → Bool
  | .asset .. => true
  | .group .. => true
  | .onlyIf .. => true
  | .ifElse .. => true
  | _ => false

variable {num : Numerics K}

mutual

theorem subblocks_valid : (block : Block K) → (path : String) → validateBlock num path block = [] →
    ∀ b ∈ subblocks block, ∃ path, validateBlock num path b = []
  | .strategy .., path, hvalid => by simp [validateBlock] at hvalid
  | .group .., path, hvalid => by
    rw [subblocks, List.forall_mem_cons]
    refine ⟨⟨path, hvalid⟩, ?_⟩
    simp only [validateBlock, List.append_eq_nil_iff] at hvalid
    exact allSubblocks_valid _ path 0 hvalid.1.2
  | .weight .., path, hvalid => by
    rw [subblocks, List.forall_mem_cons]
    refine ⟨⟨path, hvalid⟩, ?_⟩
    simp only [validateBlock, List.append_eq_nil_iff] at hvalid
    exact allSubblocks_valid _ path 0 hvalid.2
  | .asset .., path, hvalid => by
    rw [subblocks]
    exact fun b hb => ⟨path, List.mem_singleton.mp hb ▸ hvalid⟩
  | .onlyIf .., path, hvalid => by simp [validateBlock] at hvalid
  | .ifElse condition thenBlock elseBlock, path, hvalid => by
    rw [subblocks, List.forall_mem_cons]
    refine ⟨⟨path, hvalid⟩, ?_⟩
    simp only [validateBlock, List.append_eq_nil_iff] at hvalid
    intro b hb
    obtain hb | hb := List.mem_append.mp hb
    · exact subblocks_valid thenBlock _ hvalid.1.2 b hb
    · exact subblocks_valid elseBlock _ hvalid.2 b hb
  | .filter .., path, hvalid => by
    rw [subblocks, List.forall_mem_cons]
    refine ⟨⟨path, hvalid⟩, ?_⟩
    simp only [validateBlock, List.append_eq_nil_iff] at hvalid
    exact allSubblocks_valid _ path 0 hvalid.2

theorem allSubblocks_valid : (blocks : List (Block K)) → (path : String) → (i : ℕ) →
    validateBlocks num path i blocks = [] →
      ∀ b ∈ allSubblocks blocks, ∃ path, validateBlock num path b = []
  | [], _, _, _ => by
    rw [allSubblocks]
    exact fun _ hb => absurd hb List.not_mem_nil
  | block :: blocks, path, i, hvalid => by
    rw [validateBlocks, List.append_eq_nil_iff] at hvalid
    rw [allSubblocks]
    intro b hb
    obtain hb | hb := List.mem_append.mp hb
    · exact subblocks_valid block _ hvalid.1 b hb
    · exact allSubblocks_valid blocks path (i + 1) hvalid.2 b hb

end

theorem validateBlocks_mem : {blocks : List (Block K)} → {path : String} → {i : ℕ} →
    validateBlocks num path i blocks = [] → ∀ c ∈ blocks, ∃ path, validateBlock num path c = []
  | [], _, _, _ => fun _ hc => absurd hc List.not_mem_nil
  | block :: blocks, path, i, hvalid => by
    rw [validateBlocks, List.append_eq_nil_iff] at hvalid
    rw [List.forall_mem_cons]
    exact ⟨⟨_, hvalid.1⟩, validateBlocks_mem hvalid.2⟩

variable [IsStrictOrderedRing K] {state : EvaluationState T K}

omit [IsStrictOrderedRing K] in
theorem checkEach_eq_nil {α : Type} {check : String → α → List ValidationError} {path : String}
    {elements : List α} (h : checkEach check path elements = []) :
    ∀ x ∈ elements, ∃ path, check path x = [] := by
  intro x hx
  obtain ⟨i, hi, rfl⟩ := List.getElem_of_mem hx
  rw [checkEach, List.flatten_eq_nil_iff] at h
  exact ⟨_, h _ (List.mem_mapIdx.mpr ⟨i, hi, rfl⟩)⟩

variable (state) in
/-- The children of a validated `specified` block declare their shares, as far as they can. -/
theorem specified_declares {path : String} {children : List (Block K)} {lookback top : Option ℤ}
    {location : Option SourceLocation}
    (h : checkWeight num path .specified children lookback top location = [])
    (hkinds : ∀ c ∈ children, canDeclare c = true) :
    ∀ c ∈ children, (declaredSiblingWeight c).isSome ∧ (declaredShare num state c).isSome := by
  unfold checkWeight at h
  simp only [List.append_eq_nil_iff, if_true] at h
  intro c hc
  obtain ⟨childPath, hchild⟩ := checkEach_eq_nil h.2.1 c hc
  have hsome : (commonBranchWeight c).isSome ∧ declaredSiblingWeight c = commonBranchWeight c := by
    have hkind := hkinds c hc
    cases c <;> simp_all [canDeclare, checkSpecifiedChild, commonBranchWeight, declaredSiblingWeight,
      Option.isSome_iff_ne_none]
  obtain ⟨weight, hweight⟩ := Option.isSome_iff_exists.mp hsome.1
  obtain ⟨share, hshare, -⟩ := declaredShare_near num state c weight hweight
  exact ⟨hsome.2 ▸ hsome.1, Option.isSome_of_eq_some hshare⟩

/-- The children hold their shares. Where all of them contribute and declare shares that the
validator adds up, these are the declared shares, and they are close to one hundred in all. -/
structure SharesHeld (num : Numerics K) (state : EvaluationState T K) (children : List (Block K))
    (share : Block K → K) (weights : Weights K) : Prop
    extends DividedBy num state children share weights where
  declared : (∀ c ∈ children, allocationOf num state c ≠ []) →
    (∀ c ∈ children, (declaredSiblingWeight c).isSome) →
      (∀ c ∈ children, share c = shareOf num state c) ∧
        |totalShare num state children share - 100| ≤ (((children.map branchings).sum : ℕ) + 1 : K) / 100

theorem hundredOrEmpty_children (hpinv : num.PinvSized) {children : List (Block K)} {path : String}
    {i : ℕ} (hvalid : validateBlocks num path i children = []) :
    ∀ c ∈ children, (allocationOf num state c).HundredOrEmpty := by
  intro c hc
  obtain ⟨path, hvalid⟩ := validateBlocks_mem hvalid c hc
  exact hundredOrEmpty_allocation hpinv c path hvalid

theorem sharesHeld_of_declared {children : List (Block K)} {share : Block K → K}
    {weights : Weights K} {path : String} (hdivided : DividedBy num state children share weights)
    (hvalid : checkDeclaredWeightSum num children path = []) (hne : children ≠ [])
    (hshare : contributing num state children = children →
      (∀ c ∈ children, (declaredShare num state c).isSome) →
        ∀ c ∈ children, share c = shareOf num state c) :
    SharesHeld num state children share weights := by
  refine ⟨hdivided, fun hcontribute hdeclared => ?_⟩
  have hall : contributing num state children = children :=
    List.filter_eq_self.mpr fun c hc => by simpa using hcontribute c hc
  have hsome : ∀ c ∈ children, (declaredShare num state c).isSome := by
    intro c hc
    obtain ⟨weight, hweight⟩ := Option.isSome_iff_exists.mp (hdeclared c hc)
    obtain ⟨x, hx, -⟩ :=
      declaredShare_near num state c weight (commonBranchWeight_of_sibling hweight)
    exact Option.isSome_of_eq_some hx
  have hshares := hshare hall hsome
  refine ⟨hshares, ?_⟩
  rw [totalShare, hall, List.map_congr_left hshares]
  exact declared_sum_near hvalid hne hdeclared

theorem sharesHeld_siblings (hpinv : num.PinvSized) {children : List (Block K)} {path : String}
    {i : ℕ} (hvalid : validateBlocks num path i children = [])
    (hsum : checkDeclaredWeightSum num children path = []) (hne : children ≠ []) :
    SharesHeld num state children (siblingShare num state children)
      (evaluateSiblings (sharesAndAllocations num state children)) := by
  refine sharesHeld_of_declared ?_ hsum hne fun hall hsome c _ => ?_
  · rw [evaluateSiblings_eq]
    exact dividedBy_scaledMerge (hundredOrEmpty_children hpinv hvalid)
  · rw [siblingShare, hall, if_pos (List.all_eq_true.mpr hsome)]

/-- In every validated strategy, the children of a group and those of a `specified` block which are
of the kinds that can declare a share hold their shares. -/
theorem shares_are_held (hpinv : num.PinvSized) {strategy : Strategy K}
    (hvalid : validateStrategy num strategy = []) (state : EvaluationState T K) :
    SharesHeld num state strategy.children (siblingShare num state strategy.children)
        (evaluateSiblings (sharesAndAllocations num state strategy.children)) ∧
      (∀ name children weight, .group name children weight ∈ allSubblocks strategy.children →
        SharesHeld num state children (siblingShare num state children)
          (allocationOf num state (.group name children weight))) ∧
      ∀ children lookback top location,
        .weight .specified children lookback top location ∈ allSubblocks strategy.children →
          (∀ c ∈ children, canDeclare c = true) →
            (∀ c ∈ children, (declaredShare num state c).isSome) ∧
              SharesHeld num state children (shareOf num state)
                (allocationOf num state (.weight .specified children lookback top location)) := by
  simp only [validateStrategy, List.append_eq_nil_iff, errorIf_eq_nil] at hvalid
  have hblocks := allSubblocks_valid _ _ _ hvalid.1.2
  refine ⟨sharesHeld_siblings hpinv hvalid.1.2 hvalid.2 (by simpa using hvalid.1.1.2), ?_, ?_⟩
  · intro name children weight hmem
    obtain ⟨path, hgroup⟩ := hblocks _ hmem
    simp only [validateBlock, List.append_eq_nil_iff, errorIf_eq_nil] at hgroup
    rw [allocationOf, shareAndAllocation]
    exact sharesHeld_siblings hpinv hgroup.1.2 hgroup.2 (by simpa using hgroup.1.1.2)
  · intro children lookback top location hmem hkinds
    obtain ⟨path, hweight⟩ := hblocks _ hmem
    simp only [validateBlock, List.append_eq_nil_iff] at hweight
    have hdeclares := specified_declares state hweight.1 hkinds
    refine ⟨fun c hc => (hdeclares c hc).2, ?_⟩
    have hsum : checkDeclaredWeightSum num children path = [] := by
      have h := hweight.1
      unfold checkWeight at h
      simp only [List.append_eq_nil_iff, if_true] at h
      exact h.2.2
    refine sharesHeld_of_declared ?_ hsum (checkWeight_eq_nil hweight.1).1 fun _ _ _ _ => rfl
    rw [allocationOf, shareAndAllocation,
      evaluateWeight_specified_eq fun c hc => (hdeclares c hc).2]
    exact dividedBy_scaledMerge (hundredOrEmpty_children hpinv hweight.2)

end Trees

namespace Sample

/-- The second minute, where no indicator is computed. -/
def secondMinute : EvaluationState ℕ ℚ where
  currentBars := minuteBars 2 51 44 91
  prevBars _ := none
  indicators _ := none
  barHistory := firstMinute.barHistory

/-- A group of which one of two assets declares a share. -/
def mixedGroup : Block ℚ := .group "Mixed" [.asset "SPY" (some 60), .asset "TLT" none] none

def mixedShares : Strategy ℚ where
  name := "Mixed shares"
  rebalance := none
  children := [mixedGroup]

/-- Sixty percent in stocks, and forty in a group that holds nothing. -/
def emptyBonds : Strategy ℚ where
  name := "Empty bonds"
  rebalance := none
  children := [.group "Stocks" [.asset "SPY" none] (some 60),
    .group "Bonds" [.filter .momentum .top 1 [.group "Cash" [.asset "TLT" none] (some 0)] none]
      (some 40)]

end Sample

theorem Sample.emptyBonds_valid :
    validateStrategy Sample.numerics Sample.emptyBonds = [] := by
  have hname : isBlank "Empty bonds" = false ∧ isBlank "Stocks" = false ∧
    isBlank "Bonds" = false ∧ isBlank "Cash" = false := by decide
  have hassets (path : String) : validateAsset Sample.numerics path "SPY" none = [] ∧
      validateAsset Sample.numerics path "TLT" none = [] := by
    have hblank : isBlank "SPY" = false ∧ isBlank "TLT" = false := by decide
    simp [validateAsset, hblank, Sample.numerics]
  simp [Sample.emptyBonds, validateStrategy, validateBlocks, validateBlock, checkDeclaredWeightSum,
    declaredSiblingWeight, checkFilter, countAssets, countAsset, hname, hassets]
  norm_num

theorem Sample.mixedGroup_allocation :
    allocationOf Sample.numerics Sample.secondMinute Sample.mixedGroup =
      [("SPY", some 50), ("TLT", some 50)] := by
  have hne : "SPY" ≠ "TLT" := by decide
  norm_num [Sample.mixedGroup, allocationOf, shareAndAllocation, sharesAndAllocations, hne,
    evaluateSiblings, scaledMerge, mergeInto, InsertionDict.modify, normalized, sumN, addN, mulN,
    divN, notPositive, InsertionDict.values]

theorem Sample.emptyBonds_allocation :
    evaluateSiblings (sharesAndAllocations Sample.numerics Sample.secondMinute
      Sample.emptyBonds.children) = [("SPY", some 100)] := by
  have hone (symbol : String) :
      evaluateSiblings [(none, [(symbol, some (100 : ℚ))])] = [(symbol, some 100)] := by
    norm_num [evaluateSiblings, scaledMerge, mergeInto, InsertionDict.modify, normalized, sumN,
      addN, mulN, divN, notPositive, InsertionDict.values]
  have hcash : evaluateSiblings [(some (0 : ℚ), [("TLT", some 100)])] = [] := by
    norm_num [evaluateSiblings, scaledMerge, mergeInto, InsertionDict.modify, normalized, sumN,
      List.filterMap_cons, addN, mulN, divN, notPositive, InsertionDict.values]
  have hstocks : evaluateSiblings [(some (60 : ℚ), [("SPY", some 100)]), (some 40, [])] =
      [("SPY", some 100)] := by
    norm_num [evaluateSiblings, scaledMerge, mergeInto, InsertionDict.modify, normalized, sumN,
      List.filterMap_cons, addN, mulN, divN, notPositive, InsertionDict.values]
  have hempty : evaluateSiblings [(none, ([] : Weights ℚ))] = [] := rfl
  simp [Sample.emptyBonds, shareAndAllocation, sharesAndAllocations, evaluateFilter, hone, hcash,
    hempty, hstocks]

theorem shares_are_held_emptyBonds :
    SharesHeld Sample.numerics Sample.secondMinute Sample.emptyBonds.children
        (siblingShare Sample.numerics Sample.secondMinute Sample.emptyBonds.children)
        (evaluateSiblings (sharesAndAllocations Sample.numerics Sample.secondMinute
          Sample.emptyBonds.children)) ∧
      SharesHeld Sample.numerics Sample.secondMinute [.asset "SPY" none]
        (siblingShare Sample.numerics Sample.secondMinute [.asset "SPY" none])
        (allocationOf Sample.numerics Sample.secondMinute
          (.group "Stocks" [.asset "SPY" none] (some 60))) := by
  have h := shares_are_held (fun _ _ h => by cases h) Sample.emptyBonds_valid Sample.secondMinute
  refine ⟨h.1, h.2.1 "Stocks" _ _ ?_⟩
  rw [Sample.emptyBonds, allSubblocks, subblocks]
  exact List.mem_append_left _ (List.mem_cons_self ..)

/-- An asset that declares sixty percent holds fifty when its sibling declares nothing, and a group
that declares sixty holds all when its sibling is empty. -/
theorem declared_shares_not_held :
    validateStrategy Sample.numerics Sample.mixedShares = [] ∧
      allocationOf Sample.numerics Sample.secondMinute Sample.mixedGroup =
        [("SPY", some 50), ("TLT", some 50)] ∧
      validateStrategy Sample.numerics Sample.emptyBonds = [] ∧
      evaluateSiblings (sharesAndAllocations Sample.numerics Sample.secondMinute
        Sample.emptyBonds.children) = [("SPY", some 100)] :=
  ⟨by decide, Sample.mixedGroup_allocation, Sample.emptyBonds_valid, Sample.emptyBonds_allocation⟩

end LlamaTrade
