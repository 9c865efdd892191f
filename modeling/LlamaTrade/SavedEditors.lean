import LlamaTrade.BuilderStore

/-!
# Saved editors

The builder store with its metadata, its dirty flag and the requests that are under way, beside the
strategies of the server. A save sends the text of the tree and the metadata it starts with; the
server stores it some time later, and some time after that the answer clears the flag. A load takes
what the server answers for clean.

`past`, `future` and the view mode are those of the builder store. Other writers of the strategies
are left out. Strategies are numbered as they are created.
-/

namespace LlamaTrade.Builder

structure Details where
  name : String
  description : String
  timeframe : String
  benchmark : String
  deriving DecidableEq

/-- What `fromDSLString` returns beside the tree. -/
structure ParsedDetails where
  name : String
  timeframe : Option String := none
  benchmark : Option String := none
  description : Option String := none

/-- `a || b`. -/
def orElse (a b : String) : String := if a = "" then b else a

def rebalanceToTimeframe (rebalance : String) : String :=
  if rebalance = "daily" then "1D"
  else if rebalance = "weekly" then "1W"
  else if rebalance = "monthly" then "1M"
  else if rebalance = "quarterly" then "3M"
  else if rebalance = "annually" then "1Y"
  else "1D"

def ParsedDetails.set (p : ParsedDetails) : String × Option SExpr → ParsedDetails
  | (key, some (.text value)) =>
    if key = ":rebalance" then { p with timeframe := some (rebalanceToTimeframe value) }
    else if key = ":benchmark" then { p with benchmark := some value }
    else if key = ":description" then { p with description := some value }
    else p
  | _ => p

/-- The metadata of an expression that is parsed. -/
def parsedDetails : SExpr → ParsedDetails
  | .list items =>
    if isNamed items then
      (keywords (items.drop 2)).foldl ParsedDetails.set ⟨textAt items 1 "", none, none, none⟩
    else (keywords (items.drop 1)).foldl ParsedDetails.set ⟨"Imported Strategy", none, none, none⟩
  | _ => ⟨"Imported Strategy", none, none, none⟩

/-- The metadata after code was taken over into the tree. -/
def Details.withParsed (d : Details) (p : ParsedDetails) : Details where
  name := orElse p.name d.name
  description := p.description.getD d.description
  timeframe := orElse (p.timeframe.getD "") d.timeframe
  benchmark := p.benchmark.getD ""

/-- The root has the name. -/
def rename {C F : Type} (t : StrategyTree C F) (name : String) : StrategyTree C F :=
  match t.blocks t.rootId with
  | some ⟨id, parentId, childIds, .root _⟩ =>
    ⟨t.rootId, Function.update t.blocks t.rootId (some ⟨id, parentId, childIds, .root name⟩)⟩
  | _ => t

/-- What the editor calls: the serializer, which prints the name of the metadata and not that of the
root, and the tokenizer. -/
structure EditorWorld (C F : Type) extends BuilderWorld C F where
  toDSL : StrategyTree C F → Details → String
  readCode : String → Option SExpr
  toDSL_rename : ∀ t name d, toDSL (rename t name) d = toDSL t d

structure StrategyRow where
  name : String
  description : String
  dslCode : String

/-- `saveStrategy` under way. The answer of the server is the strategy and its name. -/
structure SaveRequest (C F : Type) where
  strategyId : Option ℕ
  tree : StrategyTree C F
  details : Details
  dslCode : String
  answer : Option (ℕ × String)

/-- `loadStrategy` under way. -/
structure LoadRequest where
  strategyId : ℕ
  answer : Option StrategyRow

structure Editor (C F : Type) where
  store : BuilderStore C F
  details : Details
  strategyId : Option ℕ
  isDirty : Bool
  saves : List (SaveRequest C F)
  loads : List LoadRequest
  server : List StrategyRow

/-- Where a strategy that is not saved comes from: `loadFromDSL` and `loadFromArtifact` prefer the
name they are given, and `loadTemplate` the name in the code. -/
inductive DraftSource where
  | code (name description : String)
  | template (name description : String)

def DraftSource.details (p : ParsedDetails) : DraftSource → Details
  | .code name description =>
    ⟨orElse name (orElse p.name "Untitled Strategy"), orElse description (p.description.getD ""),
      orElse (p.timeframe.getD "") "1D", p.benchmark.getD ""⟩
  | .template name description =>
    ⟨orElse p.name name, description, orElse (p.timeframe.getD "") "1D", p.benchmark.getD ""⟩

inductive EditorAction (C F : Type) where
  | act (a : BuilderAction C F)
  | updateDSLCode
  | setStrategyDescription (description : String)
  | setTimeframe (timeframe : String)
  | setBenchmark (benchmark : String)
  | reset
  | createNew
  | loadDraft (source : DraftSource) (dslCode : Option SExpr) (times : ParseTimes)
  | startLoad (id : ℕ)
  | answerLoad (i : ℕ)
  | finishLoad (i : ℕ) (times : ParseTimes) (viewMode : ViewMode)
  | failLoad (i : ℕ)
  | startSave
  | answerSave (i : ℕ)
  | finishSave (i : ℕ)
  | failSave (i : ℕ)

section Actions

variable {C F : Type}

/-- The parent of a new block is there. -/
def hasParent (s : BuilderStore C F) (parentId : BlockId) : Bool :=
  parentId = (draw s).1 || (s.tree.blocks parentId).isSome

def hasType (s : BuilderStore C F) (id : BlockId) (type : BlockType) : Bool :=
  (s.tree.blocks id).any fun b => b.type = type

/-- The tree that `commitCodeToTree` writes. -/
def committedTree (w : BuilderWorld C F) (s : BuilderStore C F) (dslCode : Option SExpr)
    (times : ParseTimes) : Option (StrategyTree C F) :=
  if s.viewMode ≠ .code ∧ s.viewMode ≠ .split then none
  else (acceptedTree w s dslCode times).bind (reconcileIds w.stack s.tree)

/-- The operation sets `isDirty`. -/
def marks (w : BuilderWorld C F) (s : BuilderStore C F) : BuilderAction C F → Bool
  | .addAsset parentId _ _ _ => hasParent s parentId
  | .addGroup parentId _ => hasParent s parentId
  | .addWeight parentId _ => hasParent s parentId
  | .addFilter parentId _ => hasParent s parentId
  | .addCondition parentId _ => hasParent s parentId
  | .updateBlock id _ => (s.tree.blocks id).isSome
  | .deleteBlock id =>
    ((s.tree.blocks id).any fun b => b.type ≠ .root) &&
      (deleteBlock w.stack s.tree.blocks id).isSome
  | .setWeightAllocation weightId _ _ => hasType s weightId .weight
  | .updateCondition id _ => hasType s id .ifType
  | .updateFilter id _ => hasType s id .filter
  | .undo | .redo | .setViewMode _ => false
  | .commitCodeToTree dslCode times => (committedTree w s dslCode times).isSome
  | .syncTreeFromCode _ _ => false
  | .setStrategyName _ => true

/-- The metadata after an operation. -/
def detailsAfter (w : BuilderWorld C F) (s : BuilderStore C F) (d : Details) :
    BuilderAction C F → Details
  | .commitCodeToTree dslCode times =>
    match dslCode, committedTree w s dslCode times with
    | some parsed, some _ => d.withParsed (parsedDetails parsed)
    | _, _ => d
  | .syncTreeFromCode dslCode times =>
    match dslCode, acceptedTree w s dslCode times with
    | some parsed, some _ => d.withParsed (parsedDetails parsed)
    | _, _ => d
  | .setStrategyName name => { d with name := name }
  | _ => d

namespace Editor

/-- The store as it is created. -/
def initial (C F : Type) (server : List StrategyRow) : Editor C F where
  store := initialStore C F
  details := ⟨"Untitled Strategy", "", "1D", ""⟩
  strategyId := none
  isDirty := false
  saves := []
  loads := []
  server := server

def act (w : EditorWorld C F) (s : Editor C F) (a : BuilderAction C F) : Editor C F :=
  { s with
    store := Builder.act w.toBuilderWorld s.store a
    details := detailsAfter w.toBuilderWorld s.store s.details a
    isDirty := s.isDirty || marks w.toBuilderWorld s.store a }

/-- A tree in place of the tree and its history. -/
def replaceTree (s : BuilderStore C F) (tree : StrategyTree C F) (viewMode : ViewMode) :
    BuilderStore C F :=
  { s with tree := tree, past := [], future := [], viewMode := viewMode }

def emptyTree (s : BuilderStore C F) (name : String) : StrategyTree C F :=
  rootTree (draw s).1 name

/-- `reset` and `createNew`. -/
def startOver (s : Editor C F) (name : String) (viewMode : ViewMode) : Editor C F :=
  { s with
    store := replaceTree (draw s.store).2 (emptyTree s.store "New Strategy") viewMode
    details := ⟨name, "", "1D", ""⟩
    strategyId := none
    isDirty := false }

/-- The end of `loadFromDSL`, `loadFromArtifact` and `loadTemplate`. -/
def loadDraft (w : EditorWorld C F) (s : Editor C F) (source : DraftSource)
    (dslCode : Option SExpr) (times : ParseTimes) : Editor C F :=
  match dslCode with
  | none => { s with store := tick s.store times }
  | some parsed =>
    match fromDSL (times.readings s.store.clock) w.toReadings w.stack parsed with
    | none => { s with store := tick s.store times }
    | some tree =>
      let details := source.details (parsedDetails parsed)
      { s with
        store := replaceTree (tick s.store times) (rename tree details.name) .split
        details := details
        strategyId := none
        isDirty := true }

/-- What `fromDSLString` makes of the code of a strategy. -/
def parsedCode (w : EditorWorld C F) (s : BuilderStore C F) (row : StrategyRow)
    (times : ParseTimes) : Option (SExpr × StrategyTree C F) :=
  (w.readCode row.dslCode).bind fun parsed =>
    (fromDSL (times.readings s.clock) w.toReadings w.stack parsed).map fun tree => (parsed, tree)

/-- The tree that a strategy is loaded with. -/
def loadedTree (w : EditorWorld C F) (s : BuilderStore C F) (row : StrategyRow)
    (times : ParseTimes) : StrategyTree C F :=
  match parsedCode w s row times with
  | some (_, tree) => tree
  | none => emptyTree s (orElse row.name "Strategy")

/-- The metadata that a strategy is loaded with. -/
def loadedDetails (w : EditorWorld C F) (s : BuilderStore C F) (row : StrategyRow)
    (times : ParseTimes) : Details :=
  let parsed := (parsedCode w s row times).map fun p => parsedDetails p.1
  ⟨row.name, row.description, (parsed.bind ParsedDetails.timeframe).getD "1D",
    (parsed.bind ParsedDetails.benchmark).getD ""⟩

/-- `loadStrategy`, when the answer is there. An id is drawn only where the code is not parsed. -/
def finishLoad (w : EditorWorld C F) (s : Editor C F) (id : ℕ) (row : StrategyRow)
    (times : ParseTimes) (viewMode : ViewMode) : Editor C F :=
  let store := if (parsedCode w s.store row times).isSome then s.store else (draw s.store).2
  { s with
    store := replaceTree (tick store times) (loadedTree w s.store row times) viewMode
    details := loadedDetails w s.store row times
    strategyId := some id
    isDirty := false }

/-- The text of the tree and the metadata. -/
def text (w : EditorWorld C F) (s : Editor C F) : String := w.toDSL s.store.tree s.details

/-- `saveStrategy`, until the request is sent. -/
def startSave (w : EditorWorld C F) (s : Editor C F) : Editor C F :=
  if w.validateTree s.store.tree then
    { s with saves := s.saves ++ [⟨s.strategyId, s.store.tree, s.details, s.text w, none⟩] }
  else s

/-- `update_strategy`, of a strategy that is there. -/
def updated (row : StrategyRow) (r : SaveRequest C F) : StrategyRow :=
  ⟨orElse r.details.name row.name, orElse r.details.description row.description, r.dslCode⟩

/-- `updateStrategy` and `createStrategy`. -/
def answerSave (s : Editor C F) (i : ℕ) (r : SaveRequest C F) : Option (Editor C F) :=
  match r.strategyId with
  | some id => (s.server[id]?).map fun row =>
    { s with
      server := s.server.set id (updated row r)
      saves := s.saves.set i { r with answer := some (id, (updated row r).name) } }
  | none => some
    { s with
      server := s.server ++ [⟨r.details.name, r.details.description, r.dslCode⟩]
      saves := s.saves.set i { r with answer := some (s.server.length, r.details.name) } }

/-- `saveStrategy`, when the answer is there. -/
def finishSave (s : Editor C F) (i id : ℕ) (name : String) : Editor C F :=
  { s with
    store := setStrategyName s.store name
    details := { s.details with name := name }
    strategyId := some id
    isDirty := false
    saves := s.saves.eraseIdx i }

/-- Only an id that was given out can be passed to an operation, and only a request that is under
way is answered, once, and comes to its end. -/
def step (w : EditorWorld C F) (s : Editor C F) : EditorAction C F → Option (Editor C F)
  | .act a => if a.ids.all (knownId s.store.drawn s.store.clock) then some (act w s a) else none
  | .updateDSLCode => some { s with isDirty := true }
  | .setStrategyDescription description =>
    some { s with details := { s.details with description := description }, isDirty := true }
  | .setTimeframe timeframe =>
    some { s with details := { s.details with timeframe := timeframe }, isDirty := true }
  | .setBenchmark benchmark =>
    some { s with details := { s.details with benchmark := benchmark }, isDirty := true }
  | .reset => some (startOver s "Untitled Strategy" .split)
  | .createNew => some (startOver s "New Strategy" .tree)
  | .loadDraft source dslCode times => some (loadDraft w s source dslCode times)
  | .startLoad id => some { s with loads := s.loads ++ [⟨id, none⟩] }
  | .answerLoad i => (s.loads[i]?).bind fun l => (s.server[l.strategyId]?).map fun row =>
    { s with loads := s.loads.set i { l with answer := some row } }
  | .finishLoad i times viewMode => (s.loads[i]?).bind fun l => l.answer.map fun row =>
    { finishLoad w s l.strategyId row times viewMode with loads := s.loads.eraseIdx i }
  | .failLoad i => (s.loads[i]?).map fun _ => { s with loads := s.loads.eraseIdx i }
  | .startSave => some (startSave w s)
  | .answerSave i => (s.saves[i]?).bind fun r =>
    if r.answer.isNone then answerSave s i r else none
  | .finishSave i => (s.saves[i]?).bind fun r => r.answer.map fun answer =>
    finishSave s i answer.1 answer.2
  | .failSave i => (s.saves[i]?).map fun _ => { s with saves := s.saves.eraseIdx i }

/-! ## A clean editor is a saved editor -/

/-- The server stores the text for the strategy. -/
def Holds (s : Editor C F) (id : ℕ) (text : String) : Prop :=
  (s.server[id]?).map StrategyRow.dslCode = some text

/-- Where the editor is clean and no save is under way, the server stores its text. -/
def CleanSaved (w : EditorWorld C F) (s : Editor C F) : Prop :=
  ∀ id, s.strategyId = some id → s.isDirty = false → s.saves = [] → s.Holds id (s.text w)

/-- Nothing that is stored is displaced: the editor is dirty or holds no strategy of the server. -/
def Unsaved (s : Editor C F) : Prop := s.isDirty = true ∨ s.strategyId = none

/-- The saves that are under way to a strategy, and are not stored yet, are of one text. -/
def Pending (s : Editor C F) (id : ℕ) (text : String) : Prop :=
  ∀ r ∈ s.saves, r.strategyId = some id → r.answer = none → r.dslCode = text

/-- `undo`, `redo` and `syncTreeFromCode` take a saved editor to trees of the same text only; a save
starts only while those under way are of the same text, and ends with the document it started with
but for the name, which the server leaves as it is; a load brings the text that the server stores,
which no save is about to replace, and which is what is printed of it. -/
def Keeps (w : EditorWorld C F) (s : Editor C F) : EditorAction C F → Prop
  | .act .undo =>
    s.Unsaved ∨ ∀ t, s.store.past.getLast? = some t → w.toDSL t s.details = s.text w
  | .act .redo =>
    s.Unsaved ∨ ∀ t, s.store.future.getLast? = some t → w.toDSL t s.details = s.text w
  | .act (.syncTreeFromCode (some parsed) times) =>
    s.Unsaved ∨ ∀ t, acceptedTree w.toBuilderWorld s.store (some parsed) times = some t →
      w.toDSL t (s.details.withParsed (parsedDetails parsed)) = s.text w
  | .startSave => ∀ r ∈ s.saves, r.dslCode = s.text w
  | .finishSave i => ∀ r answer, s.saves[i]? = some r → r.answer = some answer →
    answer.2 = r.details.name ∧ rename s.store.tree answer.2 = rename r.tree answer.2 ∧
      { s.details with name := answer.2 } = r.details
  | .finishLoad i times _ => ∀ l row, s.loads[i]? = some l → l.answer = some row →
    s.Holds l.strategyId row.dslCode ∧ s.Pending l.strategyId row.dslCode ∧
      w.toDSL (loadedTree w s.store row times) (loadedDetails w s.store row times) = row.dslCode
  | _ => True

/-- The invariant. -/
structure Synced (w : EditorWorld C F) (s : Editor C F) : Prop where
  clean : ∀ id, s.strategyId = some id → s.isDirty = false →
    s.Holds id (s.text w) ∧ s.Pending id (s.text w)
  known : ∀ id, s.strategyId = some id → id < s.server.length
  same : ∀ r ∈ s.saves, ∀ r' ∈ s.saves, r.dslCode = r'.dslCode
  printed : ∀ r ∈ s.saves, r.dslCode = w.toDSL r.tree r.details
  target : ∀ r ∈ s.saves, ∀ id, r.strategyId = some id → id < s.server.length
  stored : ∀ r ∈ s.saves, ∀ answer, r.answer = some answer → s.Holds answer.1 r.dslCode

theorem Synced.cleanSaved {w : EditorWorld C F} {s : Editor C F} (h : Synced w s) :
    CleanSaved w s :=
  fun id hid hclean _ => (h.clean id hid hclean).1

theorem initial_synced (w : EditorWorld C F) (server : List StrategyRow) :
    Synced w (initial C F server) where
  clean _ hid := nomatch hid
  known _ hid := nomatch hid
  same _ hr := absurd hr List.not_mem_nil
  printed _ hr := absurd hr List.not_mem_nil
  target _ hr := absurd hr List.not_mem_nil
  stored _ hr := absurd hr List.not_mem_nil

theorem Holds.lt {s : Editor C F} {id : ℕ} {text : String} (h : s.Holds id text) :
    id < s.server.length := by
  obtain ⟨row, hrow, -⟩ := Option.map_eq_some_iff.mp h
  exact (List.getElem?_eq_some_iff.mp hrow).1

/-! ### Operations on the tree -/

theorem addBlock_eq_none {s : BuilderStore C F} {parentId : BlockId} (kind : BlockKind C F)
    (h : hasParent s parentId = false) :
    addBlock s.tree.blocks (draw s).1 parentId kind = none := by
  simp only [hasParent, Bool.or_eq_false_iff, decide_eq_false_iff_not, Option.isSome_eq_false_iff,
    Option.isNone_iff_eq_none] at h
  simp [addBlock, addChildToParent, Function.update_of_ne h.1, h.2]

theorem setKind_tree {s : BuilderStore C F} {id : BlockId}
    {f : BlockKind C F → Option (BlockKind C F)}
    (h : ∀ b, s.tree.blocks id = some b → f b.kind = none) : (setKind s id f).tree = s.tree := by
  unfold setKind
  cases hb : s.tree.blocks id with
  | none => rfl
  | some b => simp [h b hb, edit]

theorem not_hasType {s : BuilderStore C F} {id : BlockId} {type : BlockType}
    (h : hasType s id type = false) {b : Block C F} (hb : s.tree.blocks id = some b) :
    b.type ≠ type := by
  simpa [hasType, hb] using h

/-- The operations that change the tree without the flag. -/
def Unmarked : BuilderAction C F → Prop
  | .undo | .redo | .syncTreeFromCode _ _ => True
  | _ => False

/-- What neither marks the editor nor is one of the three leaves the tree and the metadata. -/
theorem act_of_not_marks {w : BuilderWorld C F} {s : BuilderStore C F} (d : Details)
    {a : BuilderAction C F} (ha : ¬Unmarked a) (h : marks w s a = false) :
    (Builder.act w s a).tree = s.tree ∧ detailsAfter w s d a = d := by
  cases a with
  | addAsset | addGroup | addWeight | addFilter | addCondition =>
    refine ⟨?_, rfl⟩
    simp only [Builder.act, addAsset, addGroup, addWeight, addFilter, addCondition, addKind,
      addBlock_eq_none _ h]
    rfl
  | updateBlock id updates =>
    refine ⟨setKind_tree fun b hb => ?_, rfl⟩
    simp [marks, hb] at h
  | deleteBlock id =>
    refine ⟨?_, rfl⟩
    simp only [Builder.act, deleteFromTree]
    split
    · rfl
    · next b hb =>
      split
      · rfl
      · next htype =>
        simp only [marks, hb, Option.any_some, htype, ne_eq, not_false_eq_true, decide_true,
          Bool.true_and, Option.isSome_eq_false_iff, Option.isNone_iff_eq_none] at h
        rw [h]
        rfl
  | setWeightAllocation | updateCondition | updateFilter =>
    refine ⟨setKind_tree fun b hb => ?_, rfl⟩
    have htype := not_hasType h hb
    split
    · next hkind => exact absurd (congrArg BlockKind.type hkind) htype
    · rfl
  | undo | redo | syncTreeFromCode => exact absurd trivial ha
  | setViewMode => exact ⟨rfl, rfl⟩
  | commitCodeToTree dslCode times =>
    simp only [marks, Option.isSome_eq_false_iff, Option.isNone_iff_eq_none] at h
    constructor
    · simp only [Builder.act, commitCodeToTree]
      split_ifs with hmode
      · rfl
      · rw [committedTree, if_neg hmode] at h
        rw [h]
        rfl
    · simp only [detailsAfter, h]
  | setStrategyName name => cases h

end Editor

end Actions

end LlamaTrade.Builder
