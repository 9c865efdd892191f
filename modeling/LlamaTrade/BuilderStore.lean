import LlamaTrade.ParsedTrees
import LlamaTrade.ReconciledTrees
import LlamaTrade.TransitionRuns
import Mathlib.Algebra.Order.Group.MinMax

/-!
# The store of the strategy builder

The operations on the tree of the builder (`store/strategy-builder.ts`) and its history: two stacks
of trees, of which an edit pushes the first and empties the second. Code that is typed becomes a
tree without either. An operation that raises leaves the draft behind, and the store as it was.

`drawn` numbers the draws of `uuidv4`, and `clock` is a reading of the clock after the last parse.
-/

namespace LlamaTrade.Builder

inductive ViewMode where
  | tree | code | split
  deriving DecidableEq

structure BuilderStore (C F : Type) where
  tree : StrategyTree C F
  past : List (StrategyTree C F)
  future : List (StrategyTree C F)
  viewMode : ViewMode
  drawn : ℕ
  clock : ℕ

/-- What the store calls: the readings of the parser, the text of a filter, `validateTree`, and the
depth of the stack. -/
structure BuilderWorld (C F : Type) extends Readings C F where
  displayText : F → String
  validateTree : StrategyTree C F → Bool
  stack : ℕ

/-- The fields that `updateBlock` may write and that do not shape the tree. -/
structure BlockUpdates (C F : Type) where
  name : Option String := none
  symbol : Option String := none
  exchange : Option String := none
  displayName : Option String := none
  method : Option String := none
  lookbackDays : Option (Option ℚ) := none
  top : Option (Option ℚ) := none
  condition : Option C := none
  conditionText : Option String := none
  config : Option F := none
  displayText : Option String := none

/-- A parse starts after the last one ended, and reads the clock for each id. -/
structure ParseTimes where
  elapsed : ℕ → ℕ
  duration : ℕ

/-- The code in the editor comes as the expression that the tokenizer and `parseExpr` make of it,
if they make one. -/
inductive BuilderAction (C F : Type) where
  | addAsset (parentId : BlockId) (symbol exchange displayName : String)
  | addGroup (parentId : BlockId) (name : String)
  | addWeight (parentId : BlockId) (method : String)
  | updateBlock (id : BlockId) (updates : BlockUpdates C F)
  | deleteBlock (id : BlockId)
  | setWeightAllocation (weightId childId : BlockId) (percent : ℚ)
  | addCondition (parentId : BlockId) (condition : C)
  | updateCondition (id : BlockId) (condition : C)
  | addFilter (parentId : BlockId) (config : F)
  | updateFilter (id : BlockId) (config : F)
  | undo
  | redo
  | setViewMode (mode : ViewMode)
  | commitCodeToTree (dslCode : Option SExpr) (times : ParseTimes)
  | syncTreeFromCode (dslCode : Option SExpr) (times : ParseTimes)
  | setStrategyName (name : String)

section Store

variable {C F : Type}

/-- `createInitialState`. -/
def initialStore (C F : Type) : BuilderStore C F :=
  ⟨rootTree (.uuid 0) "New Strategy", [], [], .split, 1, 0⟩

def maxHistory : ℕ := 50

/-- `pushToHistory`. -/
def pushToHistory (s : BuilderStore C F) : BuilderStore C F :=
  let past := s.past ++ [s.tree]
  { s with past := if maxHistory < past.length then past.tail else past, future := [] }

/-- The rest of an operation that pushed the tree; it is dropped if it raises. -/
def edit (s : BuilderStore C F) (blocks : Option (Blocks C F)) : BuilderStore C F :=
  match blocks with
  | none => s
  | some blocks => { pushToHistory s with tree := ⟨s.tree.rootId, blocks⟩ }

/-- A draw of `uuidv4`. -/
def draw (s : BuilderStore C F) : BlockId × BuilderStore C F :=
  (.uuid s.drawn, { s with drawn := s.drawn + 1 })

/-- The operations that add one block. -/
def addKind (s : BuilderStore C F) (parentId : BlockId) (kind : BlockKind C F) :
    BuilderStore C F :=
  edit (draw s).2 (addBlock s.tree.blocks (draw s).1 parentId kind)

def addAsset (s : BuilderStore C F) (parentId : BlockId) (symbol exchange displayName : String) :
    BuilderStore C F :=
  addKind s parentId (.asset symbol exchange displayName)

def addGroup (s : BuilderStore C F) (parentId : BlockId) (name : String) : BuilderStore C F :=
  addKind s parentId (.group name)

def addWeight (s : BuilderStore C F) (parentId : BlockId) (method : String) : BuilderStore C F :=
  let lookbackDays :=
    if method ∈ ["inverse_volatility", "momentum", "min_variance"] then some 30 else none
  addKind s parentId (.weight method lookbackDays none fun _ => none)

def addFilter (w : BuilderWorld C F) (s : BuilderStore C F) (parentId : BlockId) (config : F) :
    BuilderStore C F :=
  addKind s parentId (.filter config (w.displayText config))

def addCondition (w : BuilderWorld C F) (s : BuilderStore C F) (parentId : BlockId) (condition : C) :
    BuilderStore C F :=
  let ifDraw := draw s
  let elseDraw := draw ifDraw.2
  edit elseDraw.2 <|
    (addBlock s.tree.blocks ifDraw.1 parentId
      (.ifBlock condition (w.conditionText condition))).bind fun blocks =>
        addBlock blocks elseDraw.1 parentId (.elseBlock ifDraw.1)

/-- The operations that write the fields of one block, if it is there and they are for its type. -/
def setKind (s : BuilderStore C F) (id : BlockId) (f : BlockKind C F → Option (BlockKind C F)) :
    BuilderStore C F :=
  edit s <| (s.tree.blocks id).bind fun b => (f b.kind).map fun kind =>
    Function.update s.tree.blocks id (some { b with kind := kind })

/-- `Object.assign`, on the fields of the type. -/
def BlockKind.assign (updates : BlockUpdates C F) : BlockKind C F → BlockKind C F
  | .root name => .root (updates.name.getD name)
  | .asset symbol exchange displayName =>
    .asset (updates.symbol.getD symbol) (updates.exchange.getD exchange)
      (updates.displayName.getD displayName)
  | .group name => .group (updates.name.getD name)
  | .weight method lookbackDays top allocations =>
    .weight (updates.method.getD method) (updates.lookbackDays.getD lookbackDays)
      (updates.top.getD top) allocations
  | .ifBlock condition conditionText =>
    .ifBlock (updates.condition.getD condition) (updates.conditionText.getD conditionText)
  | .elseBlock ifBlockId => .elseBlock ifBlockId
  | .filter config displayText =>
    .filter (updates.config.getD config) (updates.displayText.getD displayText)

def updateBlock (s : BuilderStore C F) (id : BlockId) (updates : BlockUpdates C F) :
    BuilderStore C F :=
  setKind s id fun kind => some (kind.assign updates)

def setWeightAllocation (s : BuilderStore C F) (weightId childId : BlockId) (percent : ℚ) :
    BuilderStore C F :=
  setKind s weightId fun
    | .weight method lookbackDays top allocations =>
      some (.weight method lookbackDays top
        (Function.update allocations childId (some (max 0 (min 100 percent)))))
    | _ => none

def updateCondition (w : BuilderWorld C F) (s : BuilderStore C F) (id : BlockId) (condition : C) :
    BuilderStore C F :=
  setKind s id fun
    | .ifBlock _ _ => some (.ifBlock condition (w.conditionText condition))
    | _ => none

def updateFilter (w : BuilderWorld C F) (s : BuilderStore C F) (id : BlockId) (config : F) :
    BuilderStore C F :=
  setKind s id fun
    | .filter _ _ => some (.filter config (w.displayText config))
    | _ => none

/-- `deleteBlock`: a root stays. -/
def deleteFromTree (w : BuilderWorld C F) (s : BuilderStore C F) (id : BlockId) :
    BuilderStore C F :=
  match s.tree.blocks id with
  | none => s
  | some b => if b.type = .root then s else edit s (deleteBlock w.stack s.tree.blocks id)

def undo (s : BuilderStore C F) : BuilderStore C F :=
  match s.past.getLast? with
  | none => s
  | some previous =>
    { s with past := s.past.dropLast, future := s.future ++ [s.tree], tree := previous }

def redo (s : BuilderStore C F) : BuilderStore C F :=
  match s.future.getLast? with
  | none => s
  | some next =>
    { s with future := s.future.dropLast, past := s.past ++ [s.tree], tree := next }

def setViewMode (s : BuilderStore C F) (mode : ViewMode) : BuilderStore C F :=
  { s with viewMode := mode }

/-- The readings of the clock during a parse, and the clock after it. -/
def ParseTimes.readings (times : ParseTimes) (clock n : ℕ) : ℕ :=
  clock + 1 + min (times.elapsed n) times.duration

def tick (s : BuilderStore C F) (times : ParseTimes) : BuilderStore C F :=
  { s with clock := s.clock + 1 + times.duration }

/-- The tree that the code says, if it parses and is valid. -/
def acceptedTree (w : BuilderWorld C F) (s : BuilderStore C F) (dslCode : Option SExpr)
    (times : ParseTimes) : Option (StrategyTree C F) :=
  (dslCode.bind (fromDSL (times.readings s.clock) w.toReadings w.stack)).filter w.validateTree

/-- `commitCodeToTree`. The root of a parsed tree has the parsed name. -/
def commitCodeToTree (w : BuilderWorld C F) (s : BuilderStore C F) (dslCode : Option SExpr)
    (times : ParseTimes) : BuilderStore C F :=
  if s.viewMode ≠ .code ∧ s.viewMode ≠ .split then s
  else
    match (acceptedTree w s dslCode times).bind (reconcileIds w.stack s.tree) with
    | none => tick s times
    | some reconciled => { tick s times with tree := reconciled }

def syncTreeFromCode (w : BuilderWorld C F) (s : BuilderStore C F) (dslCode : Option SExpr)
    (times : ParseTimes) : BuilderStore C F :=
  match acceptedTree w s dslCode times with
  | none => tick s times
  | some tree => { pushToHistory (tick s times) with tree := tree }

def setStrategyName (s : BuilderStore C F) (name : String) : BuilderStore C F :=
  match s.tree.blocks s.tree.rootId with
  | some ⟨id, parentId, childIds, .root _⟩ =>
    { s with tree := ⟨s.tree.rootId, Function.update s.tree.blocks s.tree.rootId
        (some ⟨id, parentId, childIds, .root name⟩)⟩ }
  | _ => s

def act (w : BuilderWorld C F) (s : BuilderStore C F) : BuilderAction C F → BuilderStore C F
  | .addAsset parentId symbol exchange displayName => addAsset s parentId symbol exchange displayName
  | .addGroup parentId name => addGroup s parentId name
  | .addWeight parentId method => addWeight s parentId method
  | .updateBlock id updates => updateBlock s id updates
  | .deleteBlock id => deleteFromTree w s id
  | .setWeightAllocation weightId childId percent => setWeightAllocation s weightId childId percent
  | .addCondition parentId condition => addCondition w s parentId condition
  | .updateCondition id condition => updateCondition w s id condition
  | .addFilter parentId config => addFilter w s parentId config
  | .updateFilter id config => updateFilter w s id config
  | .undo => undo s
  | .redo => redo s
  | .setViewMode mode => setViewMode s mode
  | .commitCodeToTree dslCode times => commitCodeToTree w s dslCode times
  | .syncTreeFromCode dslCode times => syncTreeFromCode w s dslCode times
  | .setStrategyName name => setStrategyName s name

/-- The ids that are passed to an operation. -/
def BuilderAction.ids : BuilderAction C F → List BlockId
  | .addAsset parentId _ _ _ | .addGroup parentId _ | .addWeight parentId _
  | .addCondition parentId _ | .addFilter parentId _ => [parentId]
  | .updateBlock id _ | .deleteBlock id | .updateCondition id _ | .updateFilter id _ => [id]
  | .setWeightAllocation weightId childId _ => [weightId, childId]
  | _ => []

/-- The id was given out before. -/
def knownId (drawn clock : ℕ) : BlockId → Bool
  | .uuid draw => draw < drawn
  | .block now _ => now ≤ clock

/-- Only an id that was given out can be passed to an operation. -/
def step (w : BuilderWorld C F) (s : BuilderStore C F) (a : BuilderAction C F) :
    Option (BuilderStore C F) :=
  if a.ids.all (knownId s.drawn s.clock) then some (act w s a) else none

/-! ## The history -/

def BuilderAction.isEdit : BuilderAction C F → Bool
  | .undo | .redo | .setViewMode _ => false
  | _ => true

/-- Neither the tree nor the history changed. -/
def Untouched (s s' : BuilderStore C F) : Prop :=
  s'.tree = s.tree ∧ s'.past = s.past ∧ s'.future = s.future

/-- Undoing gives the tree before, and there is nothing to redo. -/
def TakenBack (s s' : BuilderStore C F) : Prop :=
  (undo s').tree = s.tree ∧ redo s' = s'

theorem getLast?_pushToHistory (s : BuilderStore C F) :
    (pushToHistory s).past.getLast? = some s.tree := by
  unfold pushToHistory
  dsimp only
  split
  · next hlong =>
    cases hpast : s.past with
    | nil =>
      rw [hpast] at hlong
      exact absurd hlong (Nat.not_lt.mpr (Nat.le_add_left 1 49))
    | cons t rest => rw [List.cons_append, List.tail_cons, List.getLast?_concat]
  · rw [List.getLast?_concat]

theorem takenBack_pushed {s s₀ : BuilderStore C F} (htree : s₀.tree = s.tree)
    (t : StrategyTree C F) : TakenBack s { pushToHistory s₀ with tree := t } := by
  constructor
  · simp only [undo, getLast?_pushToHistory, htree]
  · rfl

/-- An edit that goes through `edit` had no effect or can be taken back. -/
theorem edit_takenBack {s s₀ : BuilderStore C F} (h : Untouched s s₀)
    (blocks : Option (Blocks C F)) :
    Untouched s (edit s₀ blocks) ∨ TakenBack s (edit s₀ blocks) := by
  cases blocks with
  | none => exact .inl h
  | some blocks => exact .inr (takenBack_pushed h.1 _)

/-- A change of the tree that leaves the history alone can be taken back exactly where the last
tree of the past is the one before. -/
theorem unrecorded_takenBack_iff {s s' : BuilderStore C F} (hpast : s'.past = s.past)
    (hfuture : s'.future = s.future) :
    Untouched s s' ∨ TakenBack s s' ↔
      s'.tree = s.tree ∨ (s.past.getLast? = some s.tree ∧ s.future = []) := by
  constructor
  · rintro (⟨htree, -, -⟩ | ⟨hundo, hredo⟩)
    · exact .inl htree
    · unfold undo at hundo
      rw [hpast] at hundo
      split at hundo
      · exact .inl hundo
      · next previous hlast =>
        refine .inr ⟨hlast.trans (congrArg some hundo), ?_⟩
        unfold redo at hredo
        rw [hfuture] at hredo
        split at hredo
        · next hnone => exact List.getLast?_eq_none_iff.mp hnone
        · have hlength := congrArg (fun s => s.past.length) hredo
          simp at hlength
  · rintro (htree | ⟨hlast, hnone⟩)
    · exact .inl ⟨htree, hpast, hfuture⟩
    · refine .inr ⟨?_, ?_⟩
      · simp only [undo, hpast, hlast]
      · simp only [redo, hfuture, hnone, List.getLast?_nil]

/-- The step changes the tree through the history, or leaves it as it is, or the history knows the
tree already. -/
def Recorded (w : BuilderWorld C F) (s : BuilderStore C F) : BuilderAction C F → Prop
  | .commitCodeToTree dslCode times =>
    s.viewMode = .tree ∨ (s.past.getLast? = some s.tree ∧ s.future = []) ∨
      ∀ t t', acceptedTree w s dslCode times = some t → reconcileIds w.stack s.tree t = some t' →
        t' = s.tree
  | .setStrategyName name =>
    (s.past.getLast? = some s.tree ∧ s.future = []) ∨
      ∀ b old, s.tree.blocks s.tree.rootId = some b → b.kind = .root old → old = name
  | _ => True

theorem commitCodeToTree_takenBack_iff (w : BuilderWorld C F) (s : BuilderStore C F)
    (dslCode : Option SExpr) (times : ParseTimes) :
    Untouched s (commitCodeToTree w s dslCode times) ∨
        TakenBack s (commitCodeToTree w s dslCode times) ↔
      Recorded w s (.commitCodeToTree dslCode times) := by
  unfold commitCodeToTree Recorded
  by_cases hmode : s.viewMode = .tree
  · rw [if_pos (by rw [hmode]; decide)]
    exact iff_of_true (.inl ⟨rfl, rfl, rfl⟩) (.inl hmode)
  · have hcode : ¬(s.viewMode ≠ .code ∧ s.viewMode ≠ .split) := by
      cases hview : s.viewMode with
      | tree => exact absurd hview hmode
      | code | split => decide
    rw [if_neg hcode]
    cases haccepted : (acceptedTree w s dslCode times).bind (reconcileIds w.stack s.tree) with
    | none =>
      refine iff_of_true (.inl ⟨rfl, rfl, rfl⟩) (.inr (.inr fun t t' ht ht' => ?_))
      rw [ht, Option.bind_some, ht'] at haccepted
      cases haccepted
    | some reconciled =>
      obtain ⟨t, ht, hreconciled⟩ := Option.bind_eq_some_iff.mp haccepted
      refine Iff.trans (unrecorded_takenBack_iff ?_ ?_) ?_
      · rfl
      · rfl
      constructor
      · rintro (htree | hknown)
        · refine .inr (.inr fun t₁ t' ht₁ ht' => ?_)
          cases ht.symm.trans ht₁
          cases hreconciled.symm.trans ht'
          exact htree
        · exact .inr (.inl hknown)
      · rintro (hview | hknown | hsame)
        · exact absurd hview hmode
        · exact .inr hknown
        · exact .inl (hsame t reconciled ht hreconciled)

theorem setStrategyName_takenBack_iff (w : BuilderWorld C F) (s : BuilderStore C F)
    (name : String) :
    Untouched s (setStrategyName s name) ∨ TakenBack s (setStrategyName s name) ↔
      Recorded w s (.setStrategyName name) := by
  unfold setStrategyName Recorded
  split
  · next id parentId childIds old hroot =>
    refine Iff.trans (unrecorded_takenBack_iff ?_ ?_) (or_comm.trans ?_)
    · rfl
    · rfl
    refine or_congr_right ⟨fun htree b old' hb hkind => ?_, fun hname => ?_⟩
    · cases hroot.symm.trans hb
      cases hkind
      have hblock := congrArg (fun t => t.blocks s.tree.rootId) htree
      simp only [Function.update_self, hroot] at hblock
      injection hblock with hblock
      injection hblock with _ _ _ hkind
      injection hkind with hname
      exact hname.symm
    · cases hname _ old hroot rfl
      rw [← hroot, Function.update_eq_self]
  · next hnone =>
    refine iff_of_true (.inl ⟨rfl, rfl, rfl⟩) (.inr fun b old hb hkind => ?_)
    obtain ⟨id, parentId, childIds, kind⟩ := b
    cases hkind
    exact absurd hb (hnone id parentId childIds old)

/-- In one step: an edit had no effect, or can be taken back, if it is recorded. -/
theorem act_takenBack {w : BuilderWorld C F} {s : BuilderStore C F} {a : BuilderAction C F}
    (hedit : a.isEdit) (hrecorded : Recorded w s a) :
    Untouched s (act w s a) ∨ TakenBack s (act w s a) := by
  have hsame : Untouched s s := ⟨rfl, rfl, rfl⟩
  cases a with
  | addAsset | addGroup | addWeight | addFilter | addCondition =>
    exact edit_takenBack ⟨rfl, rfl, rfl⟩ _
  | updateBlock | setWeightAllocation | updateCondition | updateFilter =>
    exact edit_takenBack hsame _
  | deleteBlock id =>
    simp only [act, deleteFromTree]
    split
    · exact .inl hsame
    · split
      · exact .inl hsame
      · exact edit_takenBack hsame _
  | undo | redo | setViewMode => cases hedit
  | commitCodeToTree dslCode times =>
    exact (commitCodeToTree_takenBack_iff w s dslCode times).mpr hrecorded
  | syncTreeFromCode dslCode times =>
    simp only [act, syncTreeFromCode]
    split
    · exact .inl ⟨rfl, rfl, rfl⟩
    · exact .inr (takenBack_pushed rfl _)
  | setStrategyName name => exact (setStrategyName_takenBack_iff w s name).mpr hrecorded

/-- Right after an edit that had an effect, undoing gives the tree before it and redoing does
nothing, in every run whose edits are recorded. -/
theorem edits_takenBack {w : BuilderWorld C F} {s₀ s : BuilderStore C F}
    {actions : List (BuilderAction C F)} {a : BuilderAction C F} (hedit : a.isEdit)
    (hmeets : Transition.Meets (step w) (Recorded w) s₀ (actions ++ [a]))
    (hrun : Transition.run (step w) s₀ actions = some s) :
    Untouched s (act w s a) ∨ TakenBack s (act w s a) :=
  act_takenBack hedit (Transition.meets_of_append hmeets hrun).1

end Store

namespace Sample

def builderWorld : BuilderWorld Unit Unit where
  condition _ := ()
  conditionText _ := ""
  filter _ := ((), "")
  method _ := "equal"
  displayText _ := ""
  validateTree _ := true
  stack := 10

/-- The code of a strategy of one asset. -/
def assetCode (symbol : String) : SExpr :=
  .list [.text "strategy", .text "New Strategy", .list [.text "asset", .text symbol]]

def symbolAt (t : StrategyTree Unit Unit) (id : BlockId) : Option String :=
  (t.blocks id).bind fun b =>
    match b.kind with
    | .asset symbol _ _ => some symbol
    | _ => none

/-- An asset is added and taken back; the group that is added then leaves nothing to redo. -/
theorem edits_takenBack_group :
    ∃ s, Transition.run (step builderWorld) (initialStore Unit Unit)
        [.addAsset (.uuid 0) "SPY" "NYSE" "SPY", .undo] = some s ∧
      (Untouched s (addGroup s (.uuid 0) "Core") ∨ TakenBack s (addGroup s (.uuid 0) "Core")) :=
  ⟨_, rfl, @edits_takenBack Unit Unit builderWorld (initialStore Unit Unit) _
    [.addAsset (.uuid 0) "SPY" "NYSE" "SPY", .undo] (.addGroup (.uuid 0) "Core") rfl
    (Transition.meets_cons rfl trivial (Transition.meets_cons rfl trivial
      (Transition.meets_cons rfl trivial trivial))) rfl⟩

/-- Code is typed over an asset: undoing does not bring the asset back. -/
theorem commit_not_takenBack :
    ∃ s, Transition.run (step builderWorld) (initialStore Unit Unit)
        [.addAsset (.uuid 0) "SPY" "NYSE" "SPY"] = some s ∧
      ¬(Untouched s (commitCodeToTree builderWorld s (some (assetCode "QQQ")) ⟨fun _ => 0, 0⟩) ∨
        TakenBack s (commitCodeToTree builderWorld s (some (assetCode "QQQ")) ⟨fun _ => 0, 0⟩)) := by
  refine ⟨_, rfl, ?_⟩
  rintro (⟨htree, -⟩ | ⟨hundo, -⟩)
  · exact absurd (congrArg (symbolAt · (.uuid 1)) htree) (by decide)
  · exact absurd (congrArg (symbolAt · (.uuid 1)) hundo) (by decide)

end Sample

end LlamaTrade.Builder
