import LlamaTrade.SavedEditors

/-!
# Clean editors

Every step that keeps a saved editor saved keeps the invariant, so in every run of such steps a
clean editor is one whose text the server has.
-/

namespace LlamaTrade.Builder

namespace Editor

section Steps

variable {C F : Type} {w : EditorWorld C F} {s s' : Editor C F}

/-- A change of the document, with the requests and the server left alone. -/
theorem Synced.of_document (h : Synced w s) (hsaves : s'.saves = s.saves)
    (hserver : s'.server = s.server)
    (hdocument : ∀ id, s'.strategyId = some id → id < s.server.length ∧
      (s'.isDirty = false → s.Holds id (s'.text w) ∧ s.Pending id (s'.text w))) : Synced w s' where
  clean id hid hclean := by
    unfold Holds Pending
    rw [hserver, hsaves]
    exact (hdocument id hid).2 hclean
  known id hid := by
    rw [hserver]
    exact (hdocument id hid).1
  same := by
    rw [hsaves]
    exact h.same
  printed := by
    rw [hsaves]
    exact h.printed
  target := by
    rw [hsaves, hserver]
    exact h.target
  stored := by
    unfold Holds
    rw [hsaves, hserver]
    exact h.stored

theorem Synced.of_unsaved (h : Synced w s) (hsaves : s'.saves = s.saves)
    (hserver : s'.server = s.server) (hid : s'.strategyId = s.strategyId ∨ s'.strategyId = none)
    (hunsaved : s'.Unsaved) : Synced w s' := by
  refine h.of_document hsaves hserver fun id hid' => ⟨?_, fun hclean => ?_⟩
  · rcases hid with hid | hid
    · exact h.known id (hid.symm.trans hid')
    · exact nomatch hid.symm.trans hid'
  · rcases hunsaved with hdirty | hnone
    · exact nomatch hdirty.symm.trans hclean
    · exact nomatch hnone.symm.trans hid'

/-- The document changes and its text does not. -/
theorem Synced.of_text (h : Synced w s) (hsaves : s'.saves = s.saves)
    (hserver : s'.server = s.server) (hid : s'.strategyId = s.strategyId)
    (hdirty : s'.isDirty = s.isDirty) (htext : s'.text w = s.text w) : Synced w s' := by
  refine h.of_document hsaves hserver fun id hid' => ?_
  rw [hid] at hid'
  refine ⟨h.known id hid', fun hclean => ?_⟩
  rw [htext]
  exact h.clean id hid' (hdirty ▸ hclean)

theorem act_synced {a : BuilderAction C F} (hkeeps : Keeps w s (.act a)) (h : Synced w s) :
    Synced w (act w s a) := by
  by_cases hunsaved : s.Unsaved
  · refine h.of_unsaved rfl rfl (.inl rfl) ?_
    rcases hunsaved with hdirty | hnone
    · exact .inl (by simp [act, hdirty])
    · exact .inr hnone
  cases hmarks : marks w.toBuilderWorld s.store a with
  | true => exact h.of_unsaved rfl rfl (.inl rfl) (.inl (by simp [act, hmarks]))
  | false =>
    refine h.of_text rfl rfl rfl (by simp [act, hmarks]) ?_
    cases a with
    | undo =>
      have hundo := hkeeps.resolve_left hunsaved
      simp only [text, act, Builder.act, undo, detailsAfter]
      split
      · rfl
      · next t ht => exact hundo t ht
    | redo =>
      have hredo := hkeeps.resolve_left hunsaved
      simp only [text, act, Builder.act, redo, detailsAfter]
      split
      · rfl
      · next t ht => exact hredo t ht
    | syncTreeFromCode dslCode times =>
      simp only [text, act, Builder.act, syncTreeFromCode, detailsAfter]
      cases dslCode with
      | none => rfl
      | some parsed =>
        have hsync := hkeeps.resolve_left hunsaved
        cases haccepted : acceptedTree w.toBuilderWorld s.store (some parsed) times with
        | none => rfl
        | some t => exact hsync t haccepted
    | addAsset | addGroup | addWeight | updateBlock | deleteBlock | setWeightAllocation
    | addCondition | updateCondition | addFilter | updateFilter | setViewMode | commitCodeToTree
    | setStrategyName =>
      obtain ⟨htree, hdetails⟩ := act_of_not_marks s.details id hmarks
      simp only [text, act, htree, hdetails]

theorem loadDraft_synced (source : DraftSource) (dslCode : Option SExpr) (times : ParseTimes)
    (h : Synced w s) : Synced w (loadDraft w s source dslCode times) := by
  unfold loadDraft
  split
  · exact h.of_text rfl rfl rfl rfl rfl
  · split
    · exact h.of_text rfl rfl rfl rfl rfl
    · exact h.of_unsaved rfl rfl (.inr rfl) (.inr rfl)

theorem finishLoad_synced {i : ℕ} {l : LoadRequest} {row : StrategyRow} {times : ParseTimes}
    {viewMode : ViewMode} (hkeeps : Keeps w s (.finishLoad i times viewMode))
    (hl : s.loads[i]? = some l) (hrow : l.answer = some row) (h : Synced w s) :
    Synced w { finishLoad w s l.strategyId row times viewMode with loads := s.loads.eraseIdx i } := by
  obtain ⟨hholds, hpending, hcanonical⟩ := hkeeps l row hl hrow
  refine h.of_document rfl rfl fun id hid => ?_
  cases hid
  refine ⟨hholds.lt, fun _ => ?_⟩
  have htext : text w { finishLoad w s l.strategyId row times viewMode with
      loads := s.loads.eraseIdx i } = row.dslCode := hcanonical
  rw [htext]
  exact ⟨hholds, hpending⟩

theorem startSave_synced (hkeeps : Keeps w s .startSave) (h : Synced w s) :
    Synced w (startSave w s) := by
  unfold startSave
  split_ifs with hvalid
  · have hmem : ∀ r : SaveRequest C F,
        r ∈ s.saves ++ [⟨s.strategyId, s.store.tree, s.details, s.text w, none⟩] ↔
          r ∈ s.saves ∨ r = ⟨s.strategyId, s.store.tree, s.details, s.text w, none⟩ := by simp
    have htext : ∀ r ∈ s.saves ++ [⟨s.strategyId, s.store.tree, s.details, s.text w, none⟩],
        r.dslCode = s.text w := by
      intro r hr
      rcases (hmem r).mp hr with hr | rfl
      · exact hkeeps r hr
      · rfl
    exact {
      clean := fun id hid hclean => ⟨(h.clean id hid hclean).1, fun r hr _ _ => htext r hr⟩
      known := h.known
      same := fun r hr r' hr' => (htext r hr).trans (htext r' hr').symm
      printed := by
        intro r hr
        rcases (hmem r).mp hr with hr | rfl
        · exact h.printed r hr
        · rfl
      target := by
        intro r hr id hid
        rcases (hmem r).mp hr with hr | rfl
        · exact h.target r hr id hid
        · exact h.known id hid
      stored := by
        intro r hr answer hanswer
        rcases (hmem r).mp hr with hr | rfl
        · exact h.stored r hr answer hanswer
        · cases hanswer }
  · exact h

theorem setStrategyName_tree (s : BuilderStore C F) (name : String) :
    (setStrategyName s name).tree = rename s.tree name := by
  unfold setStrategyName rename
  cases hroot : s.tree.blocks s.tree.rootId with
  | none => rfl
  | some b =>
    obtain ⟨id, parentId, childIds, kind⟩ := b
    cases kind with
    | root => rfl
    | _ => rfl

/-- Requests of before, on the same server, for the same document. -/
theorem Synced.of_subset (h : Synced w s) (hdocument : s'.store.tree = s.store.tree ∧
      s'.details = s.details ∧ s'.strategyId = s.strategyId ∧ s'.isDirty = s.isDirty)
    (hserver : s'.server = s.server) (hsaves : s'.saves ⊆ s.saves) : Synced w s' := by
  obtain ⟨htree, hdetails, hid, hdirty⟩ := hdocument
  have htext : s'.text w = s.text w := by rw [text, text, htree, hdetails]
  exact {
    clean := fun id hid' hclean => by
      obtain ⟨hholds, hpending⟩ := h.clean id (hid ▸ hid') (hdirty ▸ hclean)
      rw [htext]
      unfold Holds
      rw [hserver]
      exact ⟨hholds, fun r hr => hpending r (hsaves hr)⟩
    known := fun id hid' => by
      rw [hserver]
      exact h.known id (hid ▸ hid')
    same := fun r hr r' hr' => h.same r (hsaves hr) r' (hsaves hr')
    printed := fun r hr => h.printed r (hsaves hr)
    target := fun r hr => by
      rw [hserver]
      exact h.target r (hsaves hr)
    stored := fun r hr => by
      unfold Holds
      rw [hserver]
      exact h.stored r (hsaves hr) }

theorem finishSave_synced {i : ℕ} {r : SaveRequest C F} {answer : ℕ × String}
    (hkeeps : Keeps w s (.finishSave i)) (hr : s.saves[i]? = some r)
    (hanswer : r.answer = some answer) (h : Synced w s) :
    Synced w (finishSave s i answer.1 answer.2) := by
  obtain ⟨hname, htree, hdetails⟩ := hkeeps r answer hr hanswer
  have hmem := List.mem_of_getElem? hr
  have hstored := h.stored r hmem answer hanswer
  have htext : (finishSave s i answer.1 answer.2).text w = r.dslCode := by
    simp only [text, finishSave, setStrategyName_tree, htree, hdetails, w.toDSL_rename]
    exact (h.printed r hmem).symm
  have hsaves : ∀ r' ∈ s.saves.eraseIdx i, r' ∈ s.saves := fun r' hr' => List.mem_of_mem_eraseIdx hr'
  exact {
    clean := fun id hid _ => by
      cases hid
      rw [htext]
      exact ⟨hstored, fun r' hr' _ _ => h.same r' (hsaves r' hr') r hmem⟩
    known := fun id hid => by
      cases hid
      exact hstored.lt
    same := fun r₁ h₁ r₂ h₂ => h.same r₁ (hsaves r₁ h₁) r₂ (hsaves r₂ h₂)
    printed := fun r' hr' => h.printed r' (hsaves r' hr')
    target := fun r' hr' => h.target r' (hsaves r' hr')
    stored := fun r' hr' => h.stored r' (hsaves r' hr') }

/-- The server takes in a text for a strategy, and the request that brought it is answered. -/
theorem Synced.of_answer (h : Synced w s) {i : ℕ} {r : SaveRequest C F} {id : ℕ} {name : String}
    {server : List StrategyRow} (hr : s.saves[i]? = some r) (hnone : r.answer = none)
    (hlength : s.server.length ≤ server.length)
    (hnew : (server[id]?).map StrategyRow.dslCode = some r.dslCode)
    (hother : ∀ j, j ≠ id → j < s.server.length → server[j]? = s.server[j]?)
    (htarget : r.strategyId = some id ∨ s.server.length ≤ id) :
    Synced w { s with
      server := server, saves := s.saves.set i { r with answer := some (id, name) } } := by
  have hmem := List.mem_of_getElem? hr
  have hset : ∀ r' ∈ s.saves.set i { r with answer := some (id, name) },
      r' ∈ s.saves ∨ r' = { r with answer := some (id, name) } :=
    fun r' hr' => List.mem_or_eq_of_mem_set hr'
  have htexts : ∀ r' ∈ s.saves.set i { r with answer := some (id, name) },
      r'.dslCode = r.dslCode := by
    intro r' hr'
    rcases hset r' hr' with hold | rfl
    · exact h.same r' hold r hmem
    · rfl
  -- What the server stored before is stored, or the strategy now has the text of the requests.
  have hkept : ∀ j text, s.Holds j text → (j = id → text = r.dslCode) →
      (server[j]?).map StrategyRow.dslCode = some text := by
    intro j text hholds heq
    by_cases hj : j = id
    · rw [heq hj, hj]
      exact hnew
    · rw [hother j hj hholds.lt]
      exact hholds
  exact {
    clean := fun j hj hclean => by
      obtain ⟨hholds, hpending⟩ := h.clean j hj hclean
      refine ⟨hkept j _ hholds fun heq => ?_, fun r' hr' hid' hnone' => ?_⟩
      · rcases htarget with htarget | hfresh
        · exact (hpending r hmem (heq ▸ htarget) hnone).symm
        · exact absurd (heq ▸ h.known j hj) (Nat.not_lt.mpr hfresh)
      · rcases hset r' hr' with hold | rfl
        · exact hpending r' hold hid' hnone'
        · cases hnone'
    known := fun j hj => (h.known j hj).trans_le hlength
    same := fun r₁ h₁ r₂ h₂ => (htexts r₁ h₁).trans (htexts r₂ h₂).symm
    printed := fun r' hr' => by
      rcases hset r' hr' with hold | rfl
      · exact h.printed r' hold
      · exact h.printed r hmem
    target := fun r' hr' j hj => by
      rcases hset r' hr' with hold | rfl
      · exact (h.target r' hold j hj).trans_le hlength
      · exact (h.target r hmem j hj).trans_le hlength
    stored := fun r' hr' answer hanswer => by
      rcases hset r' hr' with hold | rfl
      · exact hkept answer.1 _ (h.stored r' hold answer hanswer) fun _ => htexts r' hr'
      · cases hanswer
        exact hnew }

theorem answerSave_synced {i : ℕ} {r : SaveRequest C F} (hr : s.saves[i]? = some r)
    (hnone : r.answer = none) (hanswer : answerSave s i r = some s') (h : Synced w s) :
    Synced w s' := by
  obtain ⟨strategyId, tree, details, dslCode, answer⟩ := r
  cases strategyId with
  | some id =>
    obtain ⟨row, hrow, rfl⟩ := Option.map_eq_some_iff.mp hanswer
    have hlt := h.target _ (List.mem_of_getElem? hr) id rfl
    refine h.of_answer hr hnone ?_ ?_ (fun j hj _ => ?_) (.inl rfl)
    · rw [List.length_set]
    · rw [List.getElem?_set_self hlt]
      rfl
    · exact List.getElem?_set_ne hj.symm
  | none =>
    cases hanswer
    refine h.of_answer hr hnone ?_ ?_ (fun j _ hj => ?_) (.inr le_rfl)
    · rw [List.length_append]
      exact Nat.le_add_right _ _
    · rw [List.getElem?_concat_length]
      rfl
    · exact List.getElem?_append_left hj

/-- One step: the invariant is kept. -/
theorem step_synced {a : EditorAction C F} (hkeeps : Keeps w s a) (hstep : step w s a = some s')
    (h : Synced w s) : Synced w s' := by
  cases a with
  | act a =>
    simp only [step, Option.ite_none_right_eq_some, Option.some.injEq] at hstep
    obtain ⟨-, rfl⟩ := hstep
    exact act_synced hkeeps h
  | updateDSLCode | setStrategyDescription | setTimeframe | setBenchmark =>
    cases hstep
    exact h.of_unsaved rfl rfl (.inl rfl) (.inl rfl)
  | reset | createNew =>
    cases hstep
    exact h.of_unsaved rfl rfl (.inr rfl) (.inr rfl)
  | loadDraft source dslCode times =>
    cases hstep
    exact loadDraft_synced source dslCode times h
  | startLoad id =>
    cases hstep
    exact h.of_text rfl rfl rfl rfl rfl
  | answerLoad i =>
    obtain ⟨l, -, hl⟩ := Option.bind_eq_some_iff.mp hstep
    obtain ⟨row, -, rfl⟩ := Option.map_eq_some_iff.mp hl
    exact h.of_text rfl rfl rfl rfl rfl
  | finishLoad i times viewMode =>
    obtain ⟨l, hl, hrow⟩ := Option.bind_eq_some_iff.mp hstep
    obtain ⟨row, hanswer, rfl⟩ := Option.map_eq_some_iff.mp hrow
    exact finishLoad_synced hkeeps hl hanswer h
  | failLoad i =>
    obtain ⟨l, -, rfl⟩ := Option.map_eq_some_iff.mp hstep
    exact h.of_text rfl rfl rfl rfl rfl
  | startSave =>
    cases hstep
    exact startSave_synced hkeeps h
  | answerSave i =>
    obtain ⟨r, hr, hanswer⟩ := Option.bind_eq_some_iff.mp hstep
    simp only [Option.isNone_iff_eq_none, Option.ite_none_right_eq_some] at hanswer
    exact answerSave_synced hr hanswer.1 hanswer.2 h
  | finishSave i =>
    obtain ⟨r, hr, hanswer⟩ := Option.bind_eq_some_iff.mp hstep
    obtain ⟨answer, hsome, rfl⟩ := Option.map_eq_some_iff.mp hanswer
    exact finishSave_synced hkeeps hr hsome h
  | failSave i =>
    obtain ⟨r, -, rfl⟩ := Option.map_eq_some_iff.mp hstep
    exact h.of_subset ⟨rfl, rfl, rfl, rfl⟩ rfl (List.eraseIdx_subset)

/-- A clean editor is a saved editor, in every run whose steps keep it so. -/
theorem run_cleanSaved {server : List StrategyRow} {actions : List (EditorAction C F)}
    (hmeets : Transition.Meets (step w) (Keeps w) (initial C F server) actions)
    (hrun : Transition.run (step w) (initial C F server) actions = some s) : CleanSaved w s :=
  (Transition.run_invariant (fun _ _ _ h hkeeps hstep => step_synced hkeeps hstep h)
    (initial_synced w server) hmeets hrun).cleanSaved

end Steps

end Editor

namespace Sample

/-- The lines of `toDSL` for the children of a root that holds assets only. -/
def assetLines (t : StrategyTree Unit Unit) : List String :=
  match ((t.blocks t.rootId).elim [] Block.childIds).filterMap (symbolAt t) with
  | [] => ["  (weight :method equal", "    (asset SPY))"]
  | symbols => symbols.map fun symbol => "  (asset " ++ symbol ++ ")"

/-- `toDSL` of such a tree that is rebalanced daily. -/
def assetsDSL (t : StrategyTree Unit Unit) (d : Details) : String :=
  String.intercalate "\n"
    (["(strategy \"" ++ d.name ++ "\"", "  :rebalance daily"] ++ assetLines t ++ [")"])

theorem symbolAt_rename (t : StrategyTree Unit Unit) (name : String) :
    symbolAt (rename t name) = symbolAt t := by
  funext i
  unfold rename
  split
  · next hroot =>
    by_cases hi : i = t.rootId
    · simp [symbolAt, hi, hroot]
    · simp [symbolAt, Function.update_of_ne hi]
  · rfl

theorem assetsDSL_rename (t : StrategyTree Unit Unit) (name : String) (d : Details) :
    assetsDSL (rename t name) d = assetsDSL t d := by
  have hchildren : ((rename t name).blocks (rename t name).rootId).elim [] Block.childIds =
      (t.blocks t.rootId).elim [] Block.childIds := by
    unfold rename
    split
    · next hroot => simp [hroot]
    · rfl
  unfold assetsDSL assetLines
  rw [symbolAt_rename, hchildren]

def editorWorld : EditorWorld Unit Unit where
  toBuilderWorld := builderWorld
  toDSL := assetsDSL
  readCode _ := none
  toDSL_rename := assetsDSL_rename

def addSymbol (symbol : String) : EditorAction Unit Unit :=
  .act (.addAsset (.uuid 0) symbol "NYSE" symbol)

/-- A second asset is taken back before the strategy is saved. -/
def undoneRun : List (EditorAction Unit Unit) :=
  [addSymbol "SPY", addSymbol "QQQ", .act .undo, .startSave, .answerSave 0, .finishSave 0]

theorem undoneRun_keeps :
    Transition.Meets (Editor.step editorWorld) (Editor.Keeps editorWorld)
      (Editor.initial Unit Unit []) undoneRun := by
  refine Transition.meets_cons rfl trivial ?_
  refine Transition.meets_cons rfl trivial ?_
  refine Transition.meets_cons rfl (.inl (.inl rfl)) ?_
  refine Transition.meets_cons rfl (fun _ hr => absurd hr List.not_mem_nil) ?_
  refine Transition.meets_cons rfl trivial ?_
  refine Transition.meets_cons rfl (fun r answer hr hanswer => ?_) trivial
  cases hr
  cases hanswer
  exact ⟨rfl, rfl, rfl⟩

theorem run_cleanSaved_undone :
    ∃ s, Transition.run (Editor.step editorWorld) (Editor.initial Unit Unit []) undoneRun = some s ∧
      s.strategyId = some 0 ∧ s.isDirty = false ∧ s.saves = [] ∧
        Editor.CleanSaved editorWorld s :=
  ⟨_, rfl, rfl, rfl, rfl, Editor.run_cleanSaved undoneRun_keeps rfl⟩

/-- A second asset is taken back after the strategy was saved: the editor is clean, and the server
has the asset. -/
theorem undone_not_cleanSaved :
    ∃ s, Transition.run (Editor.step editorWorld) (Editor.initial Unit Unit [])
        [addSymbol "SPY", addSymbol "QQQ", .startSave, .answerSave 0, .finishSave 0, .act .undo] =
          some s ∧
      s.Holds 0 "(strategy \"Untitled Strategy\"\n  :rebalance daily\n  (asset SPY)\n  (asset QQQ)\n)" ∧
      s.text editorWorld = "(strategy \"Untitled Strategy\"\n  :rebalance daily\n  (asset SPY)\n)" ∧
      ¬Editor.CleanSaved editorWorld s := by
  refine ⟨_, rfl, rfl, rfl, fun h => ?_⟩
  have hsaved := h 0 rfl rfl rfl
  have htexts : (some "(strategy \"Untitled Strategy\"\n  :rebalance daily\n  (asset SPY)\n  (asset QQQ)\n)" :
      Option String) = some "(strategy \"Untitled Strategy\"\n  :rebalance daily\n  (asset SPY)\n)" :=
    hsaved
  exact absurd htexts (by decide)

end Sample

end LlamaTrade.Builder
