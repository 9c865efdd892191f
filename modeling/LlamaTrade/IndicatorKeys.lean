import LlamaTrade.JoinedText
import LlamaTrade.ValidatedStrategies

/-!
# Indicator keys

The keys under which the computed indicators are cached and read (`analysis.py`, `state.py`,
`library.py`): the fields of a reference joined by underscores.
-/

namespace LlamaTrade

open JoinedText

variable {T K : Type}

/-! ## References -/

/-- The reference of a value to an indicator. -/
def valueReferences : Value K → List Indicator
  | .indicator ind => [ind]
  | _ => []

mutual

/-- The references of a condition, in the order in which `_extract_from_condition` meets them. -/
def conditionReferences : Condition K → List Indicator
  | .comparison _ left right => valueReferences left ++ valueReferences right
  | .crossover _ fast slow => valueReferences fast ++ valueReferences slow
  | .logicalOp _ operands => operandReferences operands

def operandReferences : List (Condition K) → List Indicator
  | [] => []
  | operand :: operands => conditionReferences operand ++ operandReferences operands

end

mutual

/-- The references of a block. -/
def blockReferences : Block K → List Indicator
  | .strategy _ children _ => childReferences children
  | .group _ children _ => childReferences children
  | .weight _ children .. => childReferences children
  | .asset .. => []
  | .onlyIf condition thenBlock => conditionReferences condition ++ blockReferences thenBlock
  | .ifElse condition thenBlock elseBlock =>
    conditionReferences condition ++ blockReferences thenBlock ++ blockReferences elseBlock
  | .filter _ _ _ children _ => childReferences children

def childReferences : List (Block K) → List Indicator
  | [] => []
  | block :: blocks => blockReferences block ++ childReferences blocks

end

/-- The references of a strategy to indicators. -/
def Strategy.references (strategy : Strategy K) : List Indicator := childReferences strategy.children

/-- References that do not differ in indicator, symbol, parameters or output. -/
def Indicator.Same (a b : Indicator) : Prop :=
  a.name = b.name ∧ a.symbol = b.symbol ∧ a.params = b.params ∧ a.output = b.output

/-! ## Keys -/

section Keys

variable [RatCast K] (num : Numerics K)

/-- The key of a reference. -/
def Indicator.key (ind : Indicator) : String :=
  generateOutputKey num ind.name ind.symbol ind.params ind.output

/-- The texts of the parameters. -/
def Indicator.paramTexts (ind : Indicator) : List String := ind.params.map num.paramText

/-- `str` of a float, such as `2.0` or `1e+16`. -/
def PlainText : Prop :=
  ∀ x : K, num.text x ≠ "" ∧ num.text x ≠ "close" ∧ '_' ∉ (num.text x).toList

/-- The output of the first reference spells out what the second has beyond it: further parameters
and an output, or, with the symbol of the second, everything after the name. -/
def Spells (a b : Indicator) : Prop :=
  (a.symbol = b.symbol ∧ ∃ extra, b.paramTexts num = a.paramTexts num ++ extra ∧
    a.output.getD "" = joined '_' (extra ++ outputParts b.output)) ∨
  ∃ words, b.symbol = joined '_' (a.symbol :: "close" :: (a.paramTexts num ++ words)) ∧
    a.output.getD "" = joined '_' (words ++ "close" :: (b.paramTexts num ++ outputParts b.output))

variable {num}

theorem Indicator.key_eq (ind : Indicator) :
    ind.key num = joined '_' (ind.name.text :: ind.symbol :: "close" ::
      (ind.paramTexts num ++ outputParts ind.output)) := rfl

/-- The characters of an integer. -/
theorem toList_intText (n : ℤ) : ∃ digits : List Char, digits ≠ [] ∧ (∀ c ∈ digits, c.isDigit) ∧
    ((toString n).toList = digits ∨ (toString n).toList = '-' :: digits) := by
  have hnat : ∀ m : ℕ, (toString m).toList ≠ [] ∧ ∀ c ∈ (toString m).toList, c.isDigit := by
    intro m
    rw [Nat.toString_eq_repr, Nat.toList_repr]
    exact ⟨Nat.toDigits_ne_nil, fun c hc => Nat.isDigit_of_mem_toDigits (by decide) (by decide) hc⟩
  rw [Int.toString_eq_repr, Int.repr_eq_if]
  split_ifs
  · exact ⟨_, (hnat _).1, (hnat _).2, .inl rfl⟩
  · exact ⟨_, (hnat _).1, (hnat _).2, .inr (by rw [String.toList_append]; rfl)⟩

theorem plain_intText (n : ℤ) :
    toString n ≠ "" ∧ toString n ≠ "close" ∧ '_' ∉ (toString n).toList := by
  obtain ⟨digits, hne, hdigits, htext⟩ := toList_intText n
  have hother : ∀ c : Char, c.isDigit = false → c ≠ '-' → c ∉ (toString n).toList := by
    intro c hc hminus hmem
    have hdigit : c ∈ digits := by
      obtain htext | htext := htext
      · exact htext ▸ hmem
      · exact (List.mem_cons.mp (htext ▸ hmem)).resolve_left hminus
    rw [hdigits c hdigit] at hc
    cases hc
  refine ⟨fun hempty => ?_, fun hclose => ?_, hother '_' rfl (by decide)⟩
  · rw [hempty] at htext
    obtain htext | htext := htext
    · exact hne htext.symm
    · cases htext
  · exact hother 'c' rfl (by decide) (hclose ▸ by decide)

theorem plain_paramText (hplain : PlainText num) (p : Param) :
    num.paramText p ≠ "" ∧ num.paramText p ≠ "close" ∧ '_' ∉ (num.paramText p).toList := by
  cases p with
  | float x => exact hplain x
  | int n => exact plain_intText n

/-- The pieces of an output. -/
def outputPieces (output : Option String) : List String := (outputParts output).flatMap (pieces '_')

theorem pieces_paramTexts (hplain : PlainText num) (ind : Indicator) :
    ∀ w ∈ ind.paramTexts num, pieces '_' w = [w] := by
  intro w hw
  obtain ⟨p, -, rfl⟩ := List.mem_map.mp hw
  exact pieces_of_not_mem (plain_paramText hplain p).2.2

theorem pieces_outputPieces (output : Option String) :
    ∀ w ∈ outputPieces output, pieces '_' w = [w] := by
  intro w hw
  obtain ⟨part, -, hmem⟩ := List.mem_flatMap.mp hw
  exact pieces_of_mem_pieces hmem

/-- The pieces of the key after the name. -/
theorem pieces_key (hplain : PlainText num) (ind : Indicator) :
    pieces '_' (ind.key num) = ind.name.text :: (pieces '_' ind.symbol ++
      "close" :: (ind.paramTexts num ++ outputPieces ind.output)) := by
  have hname : pieces '_' ind.name.text = [ind.name.text] :=
    pieces_of_not_mem (by cases ind.name <;> decide)
  have hclose : pieces '_' "close" = ["close"] := pieces_of_not_mem (by decide)
  have hparams : (ind.paramTexts num).flatMap (pieces '_') = ind.paramTexts num :=
    flatMap_pieces_of_forall (pieces_paramTexts hplain ind)
  rw [Indicator.key_eq, pieces_joined (List.cons_ne_nil _ _), List.flatMap_cons, List.flatMap_cons,
    List.flatMap_cons, List.flatMap_append, hname, hclose, hparams]
  rfl

theorem output_eq_joined {output : Option String} {words : List String}
    (h : outputPieces output = words) : output.getD "" = joined '_' words := by
  subst h
  cases output with
  | none => rfl
  | some text =>
    by_cases hempty : text = ""
    · subst hempty
      rfl
    · simp [outputPieces, outputParts, hempty, joined_pieces]

theorem outputPieces_eq {output : Option String} (words : List String)
    (hwords : joined '_' words = "" → words = []) (h : output.getD "" = joined '_' words) :
    outputPieces output = words.flatMap (pieces '_') := by
  by_cases hempty : joined '_' words = ""
  · rw [hwords hempty, List.flatMap_nil]
    cases output with
    | none => rfl
    | some text =>
      have htext : text = "" := h.trans hempty
      subst htext
      rfl
  · have hne : words ≠ [] := by
      rintro rfl
      exact hempty rfl
    rw [← pieces_joined hne, ← h]
    cases output with
    | none => exact absurd h.symm hempty
    | some text => simp [outputPieces, outputParts, show text ≠ "" from fun e => hempty (h ▸ e)]

/-- Words in front of an output. -/
theorem joined_append_output (words : List String) (hcut : ∀ w ∈ words, pieces '_' w = [w])
    (output : Option String) :
    joined '_' (words ++ outputPieces output) = joined '_' (words ++ outputParts output) := by
  rw [← joined_flatMap_pieces (words ++ outputParts output), List.flatMap_append,
    flatMap_pieces_of_forall hcut]
  rfl

/-- Keys that are the same spell. -/
theorem spells_of_pieces {a b : Indicator} {symbolRest : List String}
    (hplain : PlainText num) (hsymbol : pieces '_' b.symbol = pieces '_' a.symbol ++ symbolRest)
    (hrest : "close" :: (a.paramTexts num ++ outputPieces a.output) =
      symbolRest ++ "close" :: (b.paramTexts num ++ outputPieces b.output)) :
    Spells num a b ∨ Spells num b a := by
  have hcutA := pieces_paramTexts hplain a
  have hcutB := pieces_paramTexts hplain b
  cases symbolRest with
  | nil =>
    have hsymbols : a.symbol = b.symbol := by
      rw [List.append_nil] at hsymbol
      exact (pieces_injective hsymbol).symm
    obtain ⟨extra, hextra, hout⟩ | ⟨extra, hextra, hout⟩ :=
      List.append_eq_append_iff.mp (List.cons.inj hrest).2
    · refine .inl (.inl ⟨hsymbols, extra, hextra, ?_⟩)
      rw [output_eq_joined hout, joined_append_output _]
      exact fun w hw => hcutB w (hextra ▸ List.mem_append_right _ hw)
    · refine .inr (.inl ⟨hsymbols.symm, extra, hextra, ?_⟩)
      rw [output_eq_joined hout, joined_append_output _]
      exact fun w hw => hcutA w (hextra ▸ List.mem_append_right _ hw)
  | cons first symbolRest =>
    obtain ⟨rfl, htail⟩ := List.cons.inj hrest
    -- no parameter is the word `close`, so it is in the output of the first reference
    have hwords : ∃ words, symbolRest = a.paramTexts num ++ words ∧ outputPieces a.output =
        words ++ "close" :: (b.paramTexts num ++ outputPieces b.output) := by
      obtain ⟨words, hwords, hout⟩ | ⟨words, hwords, hout⟩ := List.append_eq_append_iff.mp htail
      · exact ⟨words, hwords, hout⟩
      · cases words with
        | nil => exact ⟨[], by rw [hwords, List.append_nil, List.append_nil], hout.symm⟩
        | cons word words =>
          obtain ⟨rfl, -⟩ := List.cons.inj hout
          obtain ⟨p, -, hp⟩ := List.mem_map.mp
            (hwords ▸ List.mem_append_right _ (List.mem_cons_self ..) :
              "close" ∈ a.paramTexts num)
          exact absurd hp (plain_paramText hplain p).2.1
    obtain ⟨words, rfl, hout⟩ := hwords
    have hcut : ∀ w ∈ words, pieces '_' w = [w] := fun w hw =>
      pieces_outputPieces a.output w (hout ▸ List.mem_append_left _ hw)
    have hclose : pieces '_' "close" = ["close"] := pieces_of_not_mem (by decide)
    refine .inl (.inr ⟨words, ?_, ?_⟩)
    · rw [← joined_pieces (c := '_') b.symbol, hsymbol,
        ← joined_flatMap_pieces (a.symbol :: "close" :: (a.paramTexts num ++ words)),
        List.flatMap_cons, List.flatMap_cons, List.flatMap_append, hclose,
        flatMap_pieces_of_forall hcutA, flatMap_pieces_of_forall hcut]
      rfl
    · have hjoin := joined_append_output (words ++ "close" :: b.paramTexts num)
        (by
          intro w hw
          obtain hw | hw := List.mem_append.mp hw
          · exact hcut w hw
          · obtain rfl | hw := List.mem_cons.mp hw
            · exact hclose
            · exact hcutB w hw) b.output
      rw [List.append_assoc, List.append_assoc, List.cons_append, List.cons_append] at hjoin
      rw [output_eq_joined hout, hjoin]

/-- What a reference spells gives the key of the other. -/
theorem key_eq_of_spells (hplain : PlainText num) {a b : Indicator} (hname : a.name = b.name)
    (h : Spells num a b) : a.key num = b.key num := by
  refine pieces_injective (c := '_') ?_
  have hclose : pieces '_' "close" = ["close"] := pieces_of_not_mem (by decide)
  have hfilled : ∀ w ∈ b.paramTexts num ++ outputParts b.output, w ≠ "" := by
    intro w hw
    obtain hw | hw := List.mem_append.mp hw
    · obtain ⟨p, -, rfl⟩ := List.mem_map.mp hw
      exact (plain_paramText hplain p).1
    · cases hout : b.output with
      | none => simp [hout, outputParts] at hw
      | some text =>
        by_cases hempty : text = ""
        · simp [hout, outputParts, hempty] at hw
        · simp only [hout, outputParts, if_neg hempty, List.mem_singleton] at hw
          exact hw ▸ hempty
  rw [pieces_key hplain, pieces_key hplain, hname]
  congr 1
  obtain ⟨hsymbol, extra, hparams, hout⟩ | ⟨words, hsymbol, hout⟩ := h
  · have hextra : ∀ w ∈ extra, pieces '_' w = [w] := fun w hw =>
      pieces_paramTexts hplain b w (hparams ▸ List.mem_append_right _ hw)
    have hpieces := outputPieces_eq (extra ++ outputParts b.output) (by
      intro hempty
      refine List.eq_nil_iff_forall_not_mem.mpr fun w hw => ?_
      refine hfilled w ?_ (eq_empty_of_joined hempty hw)
      rw [hparams, List.append_assoc]
      exact List.mem_append_right _ hw) hout
    rw [List.flatMap_append, flatMap_pieces_of_forall hextra] at hpieces
    rw [hsymbol, hparams, hpieces, List.append_assoc]
    rfl
  · have hpieces := outputPieces_eq
      (words ++ "close" :: (b.paramTexts num ++ outputParts b.output)) (by
        intro hempty
        exact absurd (eq_empty_of_joined hempty
          (List.mem_append_right words (List.mem_cons_self ..))) (by decide)) hout
    have hsymbols := congrArg (pieces '_') hsymbol
    rw [pieces_joined (List.cons_ne_nil _ _), List.flatMap_cons, List.flatMap_cons,
      List.flatMap_append, hclose, flatMap_pieces_of_forall (pieces_paramTexts hplain a)]
      at hsymbols
    rw [List.flatMap_append, List.flatMap_cons, List.flatMap_append, hclose,
      flatMap_pieces_of_forall (pieces_paramTexts hplain b)] at hpieces
    rw [hsymbols, hpieces]
    simp [outputPieces]

/-- The keys of two references are the same when one spells out the other. -/
theorem key_eq_iff (hplain : PlainText num) {a b : Indicator} :
    a.key num = b.key num ↔ a.name = b.name ∧ (Spells num a b ∨ Spells num b a) := by
  constructor
  · intro h
    have hpieces := congrArg (pieces '_') h
    rw [pieces_key hplain, pieces_key hplain] at hpieces
    obtain ⟨hname, hrest⟩ := List.cons.inj hpieces
    refine ⟨?_, ?_⟩
    · revert hname
      cases a.name <;> cases b.name <;> decide
    · obtain ⟨rest, hsymbol, hrest⟩ | ⟨rest, hsymbol, hrest⟩ := List.append_eq_append_iff.mp hrest
      · exact spells_of_pieces hplain hsymbol hrest
      · exact (spells_of_pieces hplain hsymbol hrest).symm
  · rintro ⟨hname, h | h⟩
    · exact key_eq_of_spells hplain hname h
    · exact (key_eq_of_spells hplain hname.symm h).symm

end Keys

/-! ## Cached series -/

section Extraction

variable [RatCast K] {num : Numerics K}

/-- Extraction from one reference. -/
def addReference (num : Numerics K) (specs : List IndicatorSpec) (ind : Indicator) :
    List IndicatorSpec :=
  extractFromValue num specs (.indicator ind)

theorem extractFromValue_eq (specs : List IndicatorSpec) (value : Value K) :
    extractFromValue num specs value = (valueReferences value).foldl (addReference num) specs := by
  cases value <;> rfl

mutual

theorem extractFromCondition_eq : (condition : Condition K) → (specs : List IndicatorSpec) →
    extractFromCondition num specs condition =
      (conditionReferences condition).foldl (addReference num) specs
  | .comparison _ left right, specs => by
    rw [extractFromCondition, conditionReferences, List.foldl_append, extractFromValue_eq,
      extractFromValue_eq]
  | .crossover _ fast slow, specs => by
    rw [extractFromCondition, conditionReferences, List.foldl_append, extractFromValue_eq,
      extractFromValue_eq]
  | .logicalOp _ operands, specs => by
    rw [extractFromCondition, conditionReferences, extractFromOperands_eq operands]

theorem extractFromOperands_eq : (operands : List (Condition K)) → (specs : List IndicatorSpec) →
    extractFromOperands num specs operands =
      (operandReferences operands).foldl (addReference num) specs
  | [], specs => by rw [extractFromOperands, operandReferences, List.foldl_nil]
  | operand :: operands, specs => by
    rw [extractFromOperands, operandReferences, List.foldl_append,
      extractFromCondition_eq operand, extractFromOperands_eq operands]

end

mutual

theorem extractFromBlock_eq : (block : Block K) → (specs : List IndicatorSpec) →
    extractFromBlock num specs block = (blockReferences block).foldl (addReference num) specs
  | .strategy _ children _, specs => by
    rw [extractFromBlock, blockReferences, extractFromBlocks_eq children]
  | .group _ children _, specs => by
    rw [extractFromBlock, blockReferences, extractFromBlocks_eq children]
  | .weight _ children .., specs => by
    rw [extractFromBlock, blockReferences, extractFromBlocks_eq children]
  | .asset .., specs => by rw [extractFromBlock, blockReferences, List.foldl_nil]
  | .onlyIf condition thenBlock, specs => by
    rw [extractFromBlock, blockReferences, List.foldl_append, extractFromCondition_eq condition,
      extractFromBlock_eq thenBlock]
  | .ifElse condition thenBlock elseBlock, specs => by
    rw [extractFromBlock, blockReferences, List.foldl_append, List.foldl_append,
      extractFromCondition_eq condition, extractFromBlock_eq thenBlock,
      extractFromBlock_eq elseBlock]
  | .filter _ _ _ children _, specs => by
    rw [extractFromBlock, blockReferences, extractFromBlocks_eq children]

theorem extractFromBlocks_eq : (blocks : List (Block K)) → (specs : List IndicatorSpec) →
    extractFromBlocks num specs blocks = (childReferences blocks).foldl (addReference num) specs
  | [], specs => by rw [extractFromBlocks, childReferences, List.foldl_nil]
  | block :: blocks, specs => by
    rw [extractFromBlocks, childReferences, List.foldl_append, extractFromBlock_eq block,
      extractFromBlocks_eq blocks]

end

variable (num) in
/-- The spec of a reference. -/
def Indicator.spec (ind : Indicator) : IndicatorSpec :=
  ⟨ind.name, ind.symbol, ind.params, ind.key num, ind.output,
    calculateRequiredBars ind.name ind.params⟩

theorem addReference_eq (specs : List IndicatorSpec) (ind : Indicator) :
    addReference num specs ind =
      if specs.any (·.outputKey = ind.key num) then specs else specs ++ [ind.spec num] := rfl

/-- Extraction keeps what is found, finds every key, and finds specs of references only. -/
theorem foldl_addReference (refs : List Indicator) (specs : List IndicatorSpec) :
    (∀ spec ∈ specs, spec ∈ refs.foldl (addReference num) specs) ∧
    (∀ ind ∈ refs, ∃ spec ∈ refs.foldl (addReference num) specs, spec.outputKey = ind.key num) ∧
    ∀ spec ∈ refs.foldl (addReference num) specs, spec ∈ specs ∨ ∃ ind ∈ refs, spec = ind.spec num := by
  induction refs generalizing specs with
  | nil => exact ⟨fun _ h => h, fun _ h => absurd h List.not_mem_nil, fun _ h => .inl h⟩
  | cons ind refs ih =>
    obtain ⟨hkeeps, hfinds, honly⟩ := ih (addReference num specs ind)
    have hadd : (∀ spec ∈ specs, spec ∈ addReference num specs ind) ∧
        (∃ spec ∈ addReference num specs ind, spec.outputKey = ind.key num) ∧
        ∀ spec ∈ addReference num specs ind, spec ∈ specs ∨ spec = ind.spec num := by
      rw [addReference_eq]
      split_ifs with hany
      · obtain ⟨spec, hspec, hkey⟩ := List.any_eq_true.mp hany
        exact ⟨fun _ h => h, ⟨spec, hspec, of_decide_eq_true hkey⟩, fun _ h => .inl h⟩
      · refine ⟨fun spec h => List.mem_append_left _ h,
          ⟨ind.spec num, List.mem_append_right _ (List.mem_singleton_self _), rfl⟩, fun spec h => ?_⟩
        exact (List.mem_append.mp h).imp_right List.mem_singleton.mp
    rw [List.foldl_cons]
    refine ⟨fun spec h => hkeeps spec (hadd.1 spec h), fun other hother => ?_, fun spec h => ?_⟩
    · obtain rfl | hother := List.mem_cons.mp hother
      · obtain ⟨spec, hspec, hkey⟩ := hadd.2.1
        exact ⟨spec, hkeeps spec hspec, hkey⟩
      · exact hfinds other hother
    · obtain h | ⟨other, hother, rfl⟩ := honly spec h
      · obtain h | rfl := hadd.2.2 spec h
        · exact .inl h
        · exact .inr ⟨ind, List.mem_cons_self .., rfl⟩
      · exact .inr ⟨other, List.mem_cons_of_mem _ hother, rfl⟩

theorem extractIndicators_eq (num : Numerics K) (strategy : Strategy K) :
    extractIndicators num strategy = strategy.references.foldl (addReference num) [] :=
  extractFromBlocks_eq strategy.children []

variable (num) in
/-- Every reference of a strategy has a spec with its key. -/
theorem exists_spec_of_reference {strategy : Strategy K} {ind : Indicator}
    (h : ind ∈ strategy.references) :
    ∃ spec ∈ extractIndicators num strategy, spec.outputKey = ind.key num :=
  extractIndicators_eq num strategy ▸ (foldl_addReference strategy.references []).2.1 ind h

variable (num) in
/-- Every spec of a strategy is that of a reference. -/
theorem exists_reference_of_spec {strategy : Strategy K} {spec : IndicatorSpec}
    (h : spec ∈ extractIndicators num strategy) : ∃ ind ∈ strategy.references, spec = ind.spec num := by
  rw [extractIndicators_eq] at h
  exact ((foldl_addReference strategy.references []).2.2 spec h).resolve_left List.not_mem_nil

end Extraction

section Cache

variable [Field K] [LinearOrder K] {num : Numerics K}

theorem foldlM_holds {α β : Type} {f : β → α → Option β} {P : β → Prop} {l : List α} {x : α}
    (hx : x ∈ l) (hset : ∀ b b', f b x = some b' → P b')
    (hkeep : ∀ y b b', P b → f b y = some b' → P b') {b b' : β} (h : l.foldlM f b = some b') :
    P b' := by
  have hstays : ∀ (l : List α) (b : β), P b → l.foldlM f b = some b' → P b' := by
    intro l
    induction l with
    | nil => exact fun b hb h => by cases h; exact hb
    | cons y l ih =>
      intro b hb h
      obtain ⟨c, hc, h⟩ := Option.bind_eq_some_iff.mp h
      exact ih c (hkeep y b c hb hc) h
  induction l generalizing b with
  | nil => cases hx
  | cons y l ih =>
    obtain ⟨c, hc, hrest⟩ := Option.bind_eq_some_iff.mp h
    obtain rfl | hx := List.mem_cons.mp hx
    · exact hstays l c (hset b c hc) hrest
    · exact ih hx hrest

theorem outputKey_mem_results {spec : IndicatorSpec} {bars : List (Bar T K)}
    {results : List (String × Series K)} (h : computeIndicator num spec bars = some results) :
    ∃ series, (spec.outputKey, series) ∈ results := by
  have hresults : ∀ base outputs default, ∃ series : Series K,
      (spec.outputKey, series) ∈ spec.results base outputs default := fun base outputs default =>
    ⟨_, List.mem_append_right _ (List.mem_singleton_self _)⟩
  have hsingle : ∀ value : Series K, ∃ series, (spec.outputKey, series) ∈ [(spec.outputKey, value)] :=
    fun value => ⟨value, List.mem_singleton_self _⟩
  have hif : ∀ (n : ℕ) (computed : Option (List (String × Series K))),
      (if n = 0 then none else computed) = some results → computed = some results := by
    intro n computed h
    by_cases hn : n = 0
    · rw [if_pos hn] at h
      cases h
    · rwa [if_neg hn] at h
  unfold computeIndicator at h
  cases htype : spec.indicatorType <;> simp only [htype] at h
  case sma | cci | williamsR | momentum =>
    cases hif _ _ h
    exact hsingle _
  case ema | rsi | atr | obv | mfi | vwap | stddev =>
    cases h
    exact hsingle _
  case macd | adx | keltner =>
    cases h
    exact hresults _ _ _
  case bbands | donchian =>
    cases hif _ _ h
    exact hresults _ _ _
  case stoch =>
    have h := hif _ _ h
    by_cases hshort : bars.length < periodAt .stoch spec.params 0
    · rw [if_pos hshort] at h
      cases h
      exact hresults _ _ _
    · rw [if_neg hshort] at h
      cases hif _ _ (hif _ _ h)
      exact hresults _ _ _

omit [Field K] [LinearOrder K] in
/-- Writing results defines their keys. -/
theorem isSome_update {results : List (String × Series K)} {key : String}
    {computed : String → Option (Series K)}
    (h : (∃ series, (key, series) ∈ results) ∨ (computed key).isSome) :
    ((results.foldl (fun computed (k, series) => Function.update computed k (some series))
      computed) key).isSome := by
  induction results generalizing computed with
  | nil =>
    obtain ⟨series, h⟩ | h := h
    · cases h
    · exact h
  | cons result results ih =>
    refine ih ?_
    by_cases hkey : key = result.1
    · subst hkey
      exact .inr (by simp)
    · obtain ⟨series, h⟩ | h := h
      · refine .inl ⟨series, (List.mem_cons.mp h).resolve_left ?_⟩
        rintro rfl
        exact hkey rfl
      · exact .inr (by simpa [Function.update_of_ne hkey] using h)

theorem computeSymbolIndicators_keeps {compiled : CompiledStrategy K} {symbol key : String}
    {bars : List (Bar T K)} {computed computed' : String → Option (Series K)}
    (hsome : (computed key).isSome)
    (h : compiled.computeSymbolIndicators num computed symbol bars = some computed') :
    (computed' key).isSome := by
  unfold CompiledStrategy.computeSymbolIndicators at h
  generalize compiled.indicators.filter (·.symbol = symbol) = specs at h
  induction specs generalizing computed with
  | nil => cases h; exact hsome
  | cons spec specs ih =>
    obtain ⟨next, hnext, h⟩ := Option.bind_eq_some_iff.mp h
    obtain ⟨results, -, hnext⟩ := Option.bind_eq_some_iff.mp hnext
    cases hnext
    exact ih (isSome_update (.inr hsome)) h

/-- Every spec whose symbol has bars is computed. -/
theorem isSome_computed {compiled : CompiledStrategy K} {spec : IndicatorSpec}
    (hspec : spec ∈ compiled.indicators) {history : InsertionDict (List (Bar T K))}
    {bars : List (Bar T K)} (hbars : bars ≠ []) (hmem : (spec.symbol, bars) ∈ history)
    {computed : String → Option (Series K)}
    (h : compiled.computeAllIndicators num history = some computed) :
    (computed spec.outputKey).isSome := by
  refine foldlM_holds (P := fun computed => (computed spec.outputKey).isSome) hmem ?_ ?_ h
  · intro before after hafter
    simp only [List.isEmpty_iff, if_neg hbars] at hafter
    refine foldlM_holds (P := fun computed => (computed spec.outputKey).isSome)
      (List.mem_filter.mpr ⟨hspec, by simp⟩) ?_ ?_ hafter
    · intro before after hafter
      obtain ⟨results, hresults, hafter⟩ := Option.bind_eq_some_iff.mp hafter
      cases hafter
      exact isSome_update (.inl (outputKey_mem_results hresults))
    · intro other before after hbefore hafter
      obtain ⟨results, -, hafter⟩ := Option.bind_eq_some_iff.mp hafter
      cases hafter
      exact isSome_update (.inr hbefore)
  · intro entry before after hbefore hafter
    dsimp only at hafter
    by_cases hempty : entry.2.isEmpty
    · rw [if_pos hempty] at hafter
      cases hafter
      exact hbefore
    · rw [if_neg hempty] at hafter
      exact computeSymbolIndicators_keeps hbefore hafter

/-- The key under which `get_indicator_value` finds a series. -/
def EvaluationState.resolvedKey (num : Numerics K) (state : EvaluationState T K)
    (ind : Indicator) : Option String :=
  if (state.indicators (ind.key num)).isSome then some (ind.key num)
  else
    let keyWithoutOutput := generateOutputKey num ind.name ind.symbol ind.params none
    if (state.indicators keyWithoutOutput).isSome then some keyWithoutOutput else none

/-- **Reference keys.** In every state that is built from bars of all symbols with indicators, each
reference of the strategy reads the series under its own key. References that differ have
different keys exactly when none spells out another of the same indicator. -/
theorem references_share_no_key (hplain : PlainText num) (strategy : Strategy K) :
    (∀ (currentBars : InsertionDict (Bar T K)) history state,
      (CompiledStrategy.compile num strategy).buildState num currentBars history = some state →
      (∀ spec ∈ extractIndicators num strategy, ∃ bars, bars ≠ [] ∧
        (spec.symbol, bars) ∈ history) →
      ∀ ind ∈ strategy.references, state.resolvedKey num ind = some (ind.key num)) ∧
    ((∀ a ∈ strategy.references, ∀ b ∈ strategy.references, a.key num = b.key num → a.Same b) ↔
      ∀ a ∈ strategy.references, ∀ b ∈ strategy.references, a.name = b.name → Spells num a b →
        a.Same b) := by
  refine ⟨fun currentBars history state hstate hbars ind hind => ?_, fun h a ha b hb hname hspells =>
    h a ha b hb ((key_eq_iff hplain).mpr ⟨hname, .inl hspells⟩), fun h a ha b hb hkey => ?_⟩
  · obtain ⟨computed, hcomputed, hstate⟩ := Option.bind_eq_some_iff.mp hstate
    cases hstate
    obtain ⟨spec, hspec, hkey⟩ := exists_spec_of_reference num hind
    obtain ⟨bars, hne, hmem⟩ := hbars spec hspec
    have hsome := isSome_computed hspec hne hmem hcomputed
    rw [EvaluationState.resolvedKey]
    exact if_pos (hkey ▸ hsome)
  · obtain ⟨hname, hspells | hspells⟩ := (key_eq_iff hplain).mp hkey
    · exact h a ha b hb hname hspells
    · obtain ⟨h₁, h₂, h₃, h₄⟩ := h b hb a ha hname.symm hspells
      exact ⟨h₁.symm, h₂.symm, h₃.symm, h₄.symm⟩

end Cache

namespace Sample

/-- The relative strength of a symbol over two weeks. -/
def strengthOf (symbol : String) : Indicator := ⟨.rsi, symbol, [.int 14], none, none⟩

/-- The relative strength of a symbol, with an output that the indicator does not have. -/
def spelledOutput : Indicator := ⟨.rsi, "SPY", [], some "close_14", none⟩

/-- Stocks while one relative strength is above the other. -/
def strengthSwitch (a b : Indicator) : Strategy ℚ where
  name := "Strength switch"
  rebalance := none
  children := [.ifElse (.comparison .gt (.indicator a) (.indicator b)) (.asset "SPY" none)
    (.asset "TLT" none)]

end Sample

theorem references_strengthSwitch (a b : Indicator) :
    (Sample.strengthSwitch a b).references = [a, b] := by
  simp [Strategy.references, Sample.strengthSwitch, childReferences, blockReferences,
    conditionReferences, valueReferences]

/-- The strengths of two symbols. -/
theorem references_share_no_key_strengths :
    let strategy := Sample.strengthSwitch (Sample.strengthOf "SPY") (Sample.strengthOf "TLT")
    ∀ a ∈ strategy.references, ∀ b ∈ strategy.references,
      a.key Sample.numerics = b.key Sample.numerics → a.Same b := by
  refine (references_share_no_key (T := ℕ) (fun x => plain_intText x.num) _).2.mpr ?_
  have hno : ∀ s t : String, Spells Sample.numerics (Sample.strengthOf s) (Sample.strengthOf t) →
      s = t := by
    rintro s t (h | ⟨words, -, h⟩)
    · exact h.1
    · exact absurd (eq_empty_of_joined h.symm
        (List.mem_append_right words (List.mem_cons_self ..))) (by decide)
  rw [references_strengthSwitch]
  have hsame : ∀ s t : String, Spells Sample.numerics (Sample.strengthOf s)
      (Sample.strengthOf t) → (Sample.strengthOf s).Same (Sample.strengthOf t) :=
    fun s t h => ⟨rfl, hno s t h, rfl, rfl⟩
  intro a ha b hb _ hspells
  obtain rfl | hb := List.mem_cons.mp hb <;> obtain rfl | ha := List.mem_cons.mp ha
  · exact hsame _ _ hspells
  · cases List.mem_singleton.mp ha
    exact hsame _ _ hspells
  · cases List.mem_singleton.mp hb
    exact hsame _ _ hspells
  · cases List.mem_singleton.mp ha
    cases List.mem_singleton.mp hb
    exact hsame _ _ hspells

/-- A validated strategy reads the strengths of two symbols under one key. -/
theorem spelled_output_shares_key :
    let strategy := Sample.strengthSwitch Sample.spelledOutput (Sample.strengthOf "SPY_close")
    validateStrategy Sample.numerics strategy = [] ∧
      Sample.spelledOutput ∈ strategy.references ∧
      Sample.strengthOf "SPY_close" ∈ strategy.references ∧
      ¬ Sample.spelledOutput.Same (Sample.strengthOf "SPY_close") ∧
      Sample.spelledOutput.key Sample.numerics =
        (Sample.strengthOf "SPY_close").key Sample.numerics := by
  dsimp only
  rw [references_strengthSwitch]
  exact ⟨by decide, List.mem_cons_self .., List.mem_cons_of_mem _ (List.mem_cons_self ..),
    fun h => absurd h.2.1 (by decide), by rfl⟩

end LlamaTrade
