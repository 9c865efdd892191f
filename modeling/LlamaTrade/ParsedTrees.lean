import LlamaTrade.BuilderTrees
import Mathlib.Data.Set.Insert

/-!
# Parsed builder trees

`fromDSLString` (`strategy/serializer.ts`) from the nested lists of a strategy on: blocks are
numbered as they are met, and an else block after all its children, which were parsed as children
of its if block. Whatever the lists are, a tree that is parsed is well formed. The number is the
depth of the stack.
-/

namespace LlamaTrade.Builder

/-- A parsed expression. -/
inductive SExpr where
  | list (items : List SExpr)
  | text (s : String)
  | number (x : ℚ)

/-- What the parser makes of the parts that do not shape the tree: a condition or its absence, the
configuration and the text of a filter, and the value of `:method`. -/
structure Readings (C F : Type) where
  condition : Option (List SExpr) → C
  conditionText : C → String
  filter : List SExpr → F × String
  method : Option SExpr → String

structure ParseState (C F : Type) where
  counter : ℕ
  blocks : BlockId → Option (Block C F)

section Parser

variable {C F : Type}

/-- `generateBlockId`, which reads the clock for each id. -/
def ParseState.nextId (now : ℕ → ℕ) (s : ParseState C F) : BlockId :=
  .block (now (s.counter + 1)) (s.counter + 1)

def ParseState.count (s : ParseState C F) : ParseState C F := { s with counter := s.counter + 1 }

/-- `blocks[id] = block`. -/
def ParseState.put (s : ParseState C F) (b : Block C F) : ParseState C F :=
  { s with blocks := Function.update s.blocks b.id (some b) }

/-- `startsWith(':')`. -/
def isKeyword (s : String) : Bool := s.toList.head? = some ':'

/-- The lists among the items. -/
def nested (items : List SExpr) : List (List SExpr) :=
  items.filterMap fun
    | .list item => some item
    | _ => none

/-- The lists among the items where a keyword takes the item behind it. -/
def positional : List SExpr → List (List SExpr)
  | [] => []
  | [.list item] => [item]
  | [_] => []
  | .text key :: value :: rest =>
    if isKeyword key then positional rest else positional (value :: rest)
  | .list item :: value :: rest => item :: positional (value :: rest)
  | .number _ :: value :: rest => positional (value :: rest)

/-- The keywords among the items, with the item behind each. -/
def keywords : List SExpr → List (String × Option SExpr)
  | [] => []
  | [.text key] => if isKeyword key then [(key, none)] else []
  | [_] => []
  | .text key :: value :: rest =>
    if isKeyword key then (key, some value) :: keywords rest else keywords (value :: rest)
  | _ :: value :: rest => keywords (value :: rest)

/-- The numbers behind `:weight`. -/
def weightsIn : List SExpr → List ℚ
  | .text key :: .number x :: rest =>
    if key = ":weight" then x :: weightsIn (.number x :: rest) else weightsIn (.number x :: rest)
  | _ :: rest => weightsIn rest
  | [] => []

def isHead (item : List SExpr) (name : String) : Bool :=
  match item.head? with
  | some (.text s) => s = name
  | _ => false

def textAt (expr : List SExpr) (place : ℕ) (default : String) : String :=
  match expr[place]? with
  | some (.text s) => s
  | _ => default

def numberOf : Option SExpr → Option ℚ
  | some (.number x) => some x
  | _ => none

/-- A parser of one block below a parent: the new ids (an if block may bring an else block). -/
abbrev Visit (C F : Type) :=
  List SExpr → BlockId → ParseState C F → Option (List BlockId × ParseState C F)

/-- The loop over the lists, which collects the children. -/
def parseChildren (visit : Visit C F) (parentId : BlockId) (items : List (List SExpr))
    (s : ParseState C F) : Option (List BlockId × ParseState C F) :=
  items.foldlM (fun acc item => (visit item parentId acc.2).map fun r => (acc.1 ++ r.1, r.2)) ([], s)

/-- `parseAssetExpr`. -/
def parseAsset (now : ℕ → ℕ) (expr : List SExpr) (parentId : BlockId) (s : ParseState C F) :
    List BlockId × ParseState C F :=
  let symbol := textAt expr 1 "UNKNOWN"
  ([s.nextId now],
    s.count.put ⟨s.nextId now, some parentId, [], .asset symbol "NASDAQ" symbol⟩)

/-- What a child of a weight block says about its share: the last `:weight` of an asset, the first
one of another block, for which it counts only when the child brings a block. -/
def childWeight (item : List SExpr) : Option ℚ :=
  if isHead item "asset" then (weightsIn (item.drop 2)).getLast? else (weightsIn (item.drop 1)).head?

/-- The children of a weight block and their allocations. -/
def parseWeightChildren (visit : Visit C F) (id : BlockId) (items : List (List SExpr))
    (s : ParseState C F) :
    Option ((List BlockId × (BlockId → Option ℚ)) × ParseState C F) :=
  items.foldlM (fun acc item => (visit item id acc.2).map fun r =>
    let allocations := match r.1.head?, childWeight item with
      | some childId, some x => Function.update acc.1.2 childId (some x)
      | _, _ => acc.1.2
    ((acc.1.1 ++ r.1, allocations), r.2)) (([], fun _ => none), s)

/-- `parseWeightExpr`. -/
def parseWeight (now : ℕ → ℕ) (r : Readings C F) (visit : Visit C F) (expr : List SExpr)
    (parentId : BlockId) (s : ParseState C F) : Option (List BlockId × ParseState C F) :=
  let id := s.nextId now
  let options := keywords (expr.drop 1)
  let last (key : String) : Option (Option SExpr) := (options.reverse.lookup key)
  let method := ((last ":method").map r.method).getD "equal"
  let lookbackDays := (last ":lookback").bind numberOf
  let top := (last ":top").bind numberOf
  (parseWeightChildren visit id (positional (expr.drop 1)) s.count).map fun children =>
    ([id], children.2.put
      ⟨id, some parentId, children.1.1, .weight method lookbackDays top children.1.2⟩)

/-- `parseGroupExpr`. -/
def parseGroup (now : ℕ → ℕ) (visit : Visit C F) (expr : List SExpr) (parentId : BlockId)
    (s : ParseState C F) : Option (List BlockId × ParseState C F) :=
  let id := s.nextId now
  (parseChildren visit id (nested (expr.drop 2)) s.count).map fun children =>
    ([id], children.2.put ⟨id, some parentId, children.1, .group (textAt expr 1 "Group")⟩)

/-- `parseFilterExpr`. -/
def parseFilter (now : ℕ → ℕ) (r : Readings C F) (visit : Visit C F) (expr : List SExpr)
    (parentId : BlockId) (s : ParseState C F) : Option (List BlockId × ParseState C F) :=
  let id := s.nextId now
  let reading := r.filter expr
  (parseChildren visit id (positional (expr.drop 1)) s.count).map fun children =>
    ([id], children.2.put ⟨id, some parentId, children.1, .filter reading.1 reading.2⟩)

/-- The parts of an if expression that were met. -/
structure IfParts where
  condition : Option (List SExpr)
  ifChildIds : List BlockId
  elseChildIds : List BlockId

/-- One item of an if expression. -/
def parseIfItem (visit : Visit C F) (ifId : BlockId) (acc : IfParts × ParseState C F)
    (item : List SExpr) : Option (IfParts × ParseState C F) :=
  let parts := acc.1
  if isHead item "then" then
    (parseChildren visit ifId (nested (item.drop 1)) acc.2).map fun children =>
      ({ parts with ifChildIds := parts.ifChildIds ++ children.1 }, children.2)
  else if isHead item "else" then
    (parseChildren visit ifId (nested (item.drop 1)) acc.2).map fun children =>
      ({ parts with elseChildIds := parts.elseChildIds ++ children.1 }, children.2)
  else if parts.condition.isNone then some ({ parts with condition := some item }, acc.2)
  else
    (visit item ifId acc.2).map fun children =>
      ({ parts with ifChildIds := parts.ifChildIds ++ children.1 }, children.2)

/-- The children get their parent anew. -/
def reparent (parentId : BlockId) (childIds : List BlockId) (s : ParseState C F) :
    ParseState C F :=
  { s with blocks := fun i =>
      if i ∈ childIds then (s.blocks i).map fun b => { b with parentId := some parentId }
      else s.blocks i }

/-- The blocks of an if expression whose items were parsed. -/
def finishIf (now : ℕ → ℕ) (r : Readings C F) (ifId parentId : BlockId) (parts : IfParts)
    (s : ParseState C F) : List BlockId × ParseState C F :=
  let condition := r.condition parts.condition
  let s := s.put
    ⟨ifId, some parentId, parts.ifChildIds, .ifBlock condition (r.conditionText condition)⟩
  if parts.elseChildIds.isEmpty then ([ifId], s)
  else
    let elseId := s.nextId now
    ([ifId, elseId], (reparent elseId parts.elseChildIds s.count).put
      ⟨elseId, some parentId, parts.elseChildIds, .elseBlock ifId⟩)

/-- `parseIfExpr`. -/
def parseIf (now : ℕ → ℕ) (r : Readings C F) (visit : Visit C F) (expr : List SExpr)
    (parentId : BlockId) (s : ParseState C F) : Option (List BlockId × ParseState C F) :=
  let ifId := s.nextId now
  ((nested (expr.drop 1)).foldlM (parseIfItem visit ifId) (⟨none, [], []⟩, s.count)).map
    fun parts => finishIf now r ifId parentId parts.1 parts.2

/-- `parseBlockFromExpr`. -/
def parseBlock (now : ℕ → ℕ) (r : Readings C F) : ℕ → Visit C F
  | 0, _, _, _ => none
  | fuel + 1, expr, parentId, s =>
    if isHead expr "asset" then some (parseAsset now expr parentId s)
    else if isHead expr "weight" then parseWeight now r (parseBlock now r fuel) expr parentId s
    else if isHead expr "group" then parseGroup now (parseBlock now r fuel) expr parentId s
    else if isHead expr "if" then parseIf now r (parseBlock now r fuel) expr parentId s
    else if isHead expr "filter" then parseFilter now r (parseBlock now r fuel) expr parentId s
    else some ([], s)

/-- The first argument of the strategy is its name, not a keyword. -/
def isNamed (items : List SExpr) : Bool :=
  match (items[1]? : Option SExpr) with
  | some (.text s) => !isKeyword s
  | _ => false

/-- The options and blocks behind the name. -/
def parseStrategy (now : ℕ → ℕ) (r : Readings C F) (fuel : ℕ) (name : String)
    (rest : List SExpr) : Option (StrategyTree C F) :=
  if (keywords rest).any fun option => option.1 ∉ [":rebalance", ":benchmark", ":description"] then
    none
  else
    let start : ParseState C F := ⟨0, fun _ => none⟩
    let rootId := start.nextId now
    (parseChildren (parseBlock now r fuel) rootId (positional rest) start.count).map
      fun children =>
        ⟨rootId, (children.2.put ⟨rootId, none, children.1, .root name⟩).blocks⟩

/-- `fromDSLString`, from the parsed expression on: the tree, or `null`. -/
def fromDSL (now : ℕ → ℕ) (r : Readings C F) (fuel : ℕ) (parsed : SExpr) :
    Option (StrategyTree C F) :=
  match parsed with
  | .list items =>
    if !isHead items "strategy" then none
    else if isNamed items then
      parseStrategy now r fuel (textAt items 1 "") (items.drop 2)
    else parseStrategy now r fuel "Imported Strategy" (items.drop 1)
  | _ => none

/-! ## Forests -/

/-- The blocks of a set hang together below the roots of a list, each of which has its parent
outside. -/
structure Forest (blocks : BlockId → Option (Block C F)) (S : Set BlockId)
    (parentOf : BlockId → Option BlockId) (roots : List BlockId) : Prop where
  nodup : roots.Nodup
  root : ∀ c ∈ roots, c ∈ S ∧ ∃ b, blocks c = some b ∧ b.parentId = parentOf c
  block : ∀ i ∈ S, ∃ b, blocks i = some b ∧ b.id = i
  parent : ∀ i ∈ S, i ∉ roots → ∀ b, blocks i = some b →
    ∃ p ∈ S, b.parentId = some p ∧ ∃ pb, blocks p = some pb ∧ i ∈ pb.childIds
  child : ∀ p ∈ S, ∀ pb c, blocks p = some pb → c ∈ pb.childIds →
    c ∈ S ∧ c ∉ roots ∧ ∃ b, blocks c = some b ∧ b.parentId = some p
  childNodup : ∀ i ∈ S, ∀ b, blocks i = some b → b.childIds.Nodup
  leaf : ∀ i ∈ S, ∀ b, blocks i = some b → b.type = .asset → b.childIds = []
  elseBlock : ∀ i ∈ S, ∀ b j, blocks i = some b → b.kind = .elseBlock j →
    j ∈ S ∧ ∃ sibling, blocks j = some sibling ∧ sibling.type = .ifType ∧
      sibling.parentId = b.parentId
  allocations : ∀ i ∈ S, ∀ b method lookbackDays top allocations, blocks i = some b →
    b.kind = .weight method lookbackDays top allocations →
      ∀ key, (allocations key).isSome → key ∈ b.childIds
  heights : ∃ (height : BlockId → ℕ) (bound : ℕ), (∀ i ∈ S, height i ≤ bound) ∧
    ∀ p ∈ S, ∀ pb c, blocks p = some pb → c ∈ pb.childIds → height c < height p

namespace Forest

variable {blocks blocks' : BlockId → Option (Block C F)} {S S' : Set BlockId}
  {parentOf parentOf' : BlockId → Option BlockId} {roots roots' : List BlockId}

theorem empty : Forest blocks ∅ parentOf [] where
  nodup := List.nodup_nil
  root _ hc := absurd hc List.not_mem_nil
  block i hi := absurd hi (Set.notMem_empty i)
  parent i hi := absurd hi (Set.notMem_empty i)
  child i hi := absurd hi (Set.notMem_empty i)
  childNodup i hi := absurd hi (Set.notMem_empty i)
  leaf i hi := absurd hi (Set.notMem_empty i)
  elseBlock i hi := absurd hi (Set.notMem_empty i)
  allocations i hi := absurd hi (Set.notMem_empty i)
  heights := ⟨fun _ => 0, 0, fun i hi => absurd hi (Set.notMem_empty i),
    fun i hi => absurd hi (Set.notMem_empty i)⟩

/-- Only the blocks of the set and the parents of the roots count, and the roots in any order. -/
theorem congr (h : Forest blocks S parentOf roots) (hblocks : ∀ i ∈ S, blocks' i = blocks i)
    (hperm : roots.Perm roots') (hparent : ∀ c ∈ roots, parentOf' c = parentOf c) :
    Forest blocks' S parentOf' roots' where
  nodup := hperm.nodup_iff.mp h.nodup
  root c hc := by
    have hc := hperm.mem_iff.mpr hc
    rw [hblocks c (h.root c hc).1, hparent c hc]
    exact h.root c hc
  block i hi := by
    rw [hblocks i hi]
    exact h.block i hi
  parent i hi hroot b hb := by
    rw [hblocks i hi] at hb
    obtain ⟨p, hp, hparent, pb, hpb, hmem⟩ :=
      h.parent i hi (fun hmem => hroot (hperm.mem_iff.mp hmem)) b hb
    exact ⟨p, hp, hparent, pb, (hblocks p hp).trans hpb, hmem⟩
  child p hp pb c hpb hc := by
    rw [hblocks p hp] at hpb
    obtain ⟨hcS, hroot, b, hb, hbp⟩ := h.child p hp pb c hpb hc
    exact ⟨hcS, fun hmem => hroot (hperm.mem_iff.mpr hmem), b, (hblocks c hcS).trans hb, hbp⟩
  childNodup i hi b hb := h.childNodup i hi b ((hblocks i hi).symm.trans hb)
  leaf i hi b hb := h.leaf i hi b ((hblocks i hi).symm.trans hb)
  elseBlock i hi b j hb hkind := by
    obtain ⟨hj, sibling, hs, htype⟩ := h.elseBlock i hi b j ((hblocks i hi).symm.trans hb) hkind
    exact ⟨hj, sibling, (hblocks j hj).trans hs, htype⟩
  allocations i hi b method lookbackDays top a hb :=
    h.allocations i hi b method lookbackDays top a ((hblocks i hi).symm.trans hb)
  heights := by
    obtain ⟨height, bound, hbound, hheight⟩ := h.heights
    exact ⟨height, bound, hbound, fun p hp pb c hpb =>
      hheight p hp pb c ((hblocks p hp).symm.trans hpb)⟩

theorem union (h : Forest blocks S parentOf roots) (h' : Forest blocks S' parentOf roots')
    (hdisjoint : ∀ i ∈ S, i ∉ S') : Forest blocks (S ∪ S') parentOf (roots ++ roots') where
  nodup := List.nodup_append.mpr ⟨h.nodup, h'.nodup, fun a ha c hc hac =>
    hdisjoint a (h.root a ha).1 (hac ▸ (h'.root c hc).1)⟩
  root c hc := by
    obtain hc | hc := List.mem_append.mp hc
    · exact ⟨.inl (h.root c hc).1, (h.root c hc).2⟩
    · exact ⟨.inr (h'.root c hc).1, (h'.root c hc).2⟩
  block i hi := hi.elim (h.block i) (h'.block i)
  parent i hi hroot b hb := by
    rw [List.mem_append, not_or] at hroot
    obtain hi | hi := hi
    · obtain ⟨p, hp, hrest⟩ := h.parent i hi hroot.1 b hb
      exact ⟨p, .inl hp, hrest⟩
    · obtain ⟨p, hp, hrest⟩ := h'.parent i hi hroot.2 b hb
      exact ⟨p, .inr hp, hrest⟩
  child p hp pb c hpb hc := by
    obtain hp | hp := hp
    · obtain ⟨hcS, hroot, hrest⟩ := h.child p hp pb c hpb hc
      refine ⟨.inl hcS, fun hmem => ?_, hrest⟩
      obtain hmem | hmem := List.mem_append.mp hmem
      · exact hroot hmem
      · exact hdisjoint c hcS (h'.root c hmem).1
    · obtain ⟨hcS, hroot, hrest⟩ := h'.child p hp pb c hpb hc
      refine ⟨.inr hcS, fun hmem => ?_, hrest⟩
      obtain hmem | hmem := List.mem_append.mp hmem
      · exact hdisjoint c (h.root c hmem).1 hcS
      · exact hroot hmem
  childNodup i hi := hi.elim (h.childNodup i) (h'.childNodup i)
  leaf i hi := hi.elim (h.leaf i) (h'.leaf i)
  elseBlock i hi b j hb hkind := by
    obtain hi | hi := hi
    · obtain ⟨hj, hrest⟩ := h.elseBlock i hi b j hb hkind
      exact ⟨.inl hj, hrest⟩
    · obtain ⟨hj, hrest⟩ := h'.elseBlock i hi b j hb hkind
      exact ⟨.inr hj, hrest⟩
  allocations i hi := hi.elim (h.allocations i) (h'.allocations i)
  heights := by
    classical
    obtain ⟨height, bound, hbound, hheight⟩ := h.heights
    obtain ⟨height', bound', hbound', hheight'⟩ := h'.heights
    refine ⟨fun i => if i ∈ S then height i else height' i, max bound bound', fun i hi => ?_,
      fun p hp pb c hpb hc => ?_⟩
    · dsimp only
      split
      · next hS => exact (hbound i hS).trans (le_max_left _ _)
      · next hS => exact (hbound' i (hi.resolve_left hS)).trans (le_max_right _ _)
    · dsimp only
      obtain hp | hp := hp
      · rw [if_pos hp, if_pos (h.child p hp pb c hpb hc).1]
        exact hheight p hp pb c hpb hc
      · have hc' := (h'.child p hp pb c hpb hc).1
        rw [if_neg fun hS => hdisjoint p hS hp, if_neg fun hS => hdisjoint c hS hc']
        exact hheight' p hp pb c hpb hc

/-- A new block takes some of the roots as its children. -/
theorem node {id : BlockId} {childIds : List BlockId} (parentId : Option BlockId)
    (kind : BlockKind C F)
    (h : Forest blocks S parentOf (childIds ++ roots)) (hid : id ∉ S)
    (hchildren : ∀ c ∈ childIds, parentOf c = some id)
    (hleaf : kind.type = .asset → childIds = [])
    (helse : ∀ j, kind = .elseBlock j → j ∈ S ∧ ∃ sibling, blocks j = some sibling ∧
      sibling.type = .ifType ∧ sibling.parentId = parentId)
    (halloc : ∀ method lookbackDays top allocations,
      kind = .weight method lookbackDays top allocations →
        ∀ key, (allocations key).isSome → key ∈ childIds) :
    Forest (Function.update blocks id (some ⟨id, parentId, childIds, kind⟩)) (insert id S)
      (Function.update parentOf id parentId) (id :: roots) := by
  obtain ⟨hnodupChildren, hnodupRoots, hapart⟩ := List.nodup_append.mp h.nodup
  have hne : ∀ {i}, i ∈ S → i ≠ id := fun hi heq => hid (heq ▸ hi)
  have hold : ∀ {i}, i ∈ S →
      Function.update blocks id (some ⟨id, parentId, childIds, kind⟩) i = blocks i :=
    fun hi => Function.update_of_ne (hne hi) _ _
  have hself := Function.update_self id (some (⟨id, parentId, childIds, kind⟩ : Block C F)) blocks
  refine ⟨?_, fun c hc => ?_, fun i hi => ?_, fun i hi hroot b hb => ?_, fun p hp pb c hpb hc => ?_,
    fun i hi b hb => ?_, fun i hi b hb htype => ?_, fun i hi b j hb hkind => ?_,
    fun i hi b method lookbackDays top a hb hkind => ?_, ?_⟩
  · refine List.nodup_cons.mpr ⟨fun hmem => ?_, hnodupRoots⟩
    exact hid (h.root id (List.mem_append_right _ hmem)).1
  · obtain rfl | hc := List.mem_cons.mp hc
    · exact ⟨Set.mem_insert _ _, _, hself, by rw [Function.update_self]⟩
    · obtain ⟨hcS, hrest⟩ := h.root c (List.mem_append_right _ hc)
      rw [hold hcS, Function.update_of_ne (hne hcS)]
      exact ⟨.inr hcS, hrest⟩
  · obtain rfl | hi := hi
    · exact ⟨_, hself, rfl⟩
    · rw [hold hi]
      exact h.block i hi
  · rw [List.mem_cons, not_or] at hroot
    obtain rfl | hi := hi
    · exact absurd rfl hroot.1
    · rw [hold hi] at hb
      by_cases hchild : i ∈ childIds
      · obtain ⟨-, b', hb', hparent⟩ := h.root i (List.mem_append_left _ hchild)
        cases hb.symm.trans hb'
        rw [hchildren i hchild] at hparent
        exact ⟨id, .inl rfl, hparent, _, hself, hchild⟩
      · obtain ⟨p, hp, hparent, pb, hpb, hmem⟩ := h.parent i hi
          (fun hmem => (List.mem_append.mp hmem).elim hchild hroot.2) b hb
        exact ⟨p, .inr hp, hparent, pb, (hold hp).trans hpb, hmem⟩
  · obtain rfl | hp := hp
    · cases hself.symm.trans hpb
      obtain ⟨hcS, b, hb, hparent⟩ := h.root c (List.mem_append_left _ hc)
      refine ⟨.inr hcS, fun hmem => ?_, b, (hold hcS).trans hb, by rw [hparent, hchildren c hc]⟩
      obtain rfl | hmem := List.mem_cons.mp hmem
      · exact hid hcS
      · exact hapart c hc c hmem rfl
    · rw [hold hp] at hpb
      obtain ⟨hcS, hroot, b, hb, hparent⟩ := h.child p hp pb c hpb hc
      refine ⟨.inr hcS, fun hmem => ?_, b, (hold hcS).trans hb, hparent⟩
      obtain rfl | hmem := List.mem_cons.mp hmem
      · exact hid hcS
      · exact hroot (List.mem_append_right _ hmem)
  · obtain rfl | hi := hi
    · cases hself.symm.trans hb
      exact hnodupChildren
    · exact h.childNodup i hi b ((hold hi).symm.trans hb)
  · obtain rfl | hi := hi
    · cases hself.symm.trans hb
      exact hleaf htype
    · exact h.leaf i hi b ((hold hi).symm.trans hb) htype
  · obtain rfl | hi := hi
    · cases hself.symm.trans hb
      obtain ⟨hj, sibling, hs, htype⟩ := helse j hkind
      exact ⟨.inr hj, sibling, (hold hj).trans hs, htype⟩
    · obtain ⟨hj, sibling, hs, htype⟩ := h.elseBlock i hi b j ((hold hi).symm.trans hb) hkind
      exact ⟨.inr hj, sibling, (hold hj).trans hs, htype⟩
  · obtain rfl | hi := hi
    · cases hself.symm.trans hb
      exact halloc method lookbackDays top a hkind
    · exact h.allocations i hi b method lookbackDays top a ((hold hi).symm.trans hb) hkind
  · obtain ⟨height, bound, hbound, hheight⟩ := h.heights
    refine ⟨Function.update height id (bound + 1), bound + 1, fun i hi => ?_,
      fun p hp pb c hpb hc => ?_⟩
    · obtain rfl | hi := hi
      · rw [Function.update_self]
      · rw [Function.update_of_ne (hne hi)]
        exact (hbound i hi).trans (Nat.le_succ bound)
    · obtain rfl | hp := hp
      · cases hself.symm.trans hpb
        obtain ⟨hcS, -⟩ := h.root c (List.mem_append_left _ hc)
        rw [Function.update_self, Function.update_of_ne (hne hcS)]
        exact Nat.lt_succ_of_le (hbound c hcS)
      · rw [hold hp] at hpb
        obtain ⟨hcS, -⟩ := h.child p hp pb c hpb hc
        rw [Function.update_of_ne (hne hp), Function.update_of_ne (hne hcS)]
        exact hheight p hp pb c hpb hc

/-- Roots get one new parent outside. An else block and its if block are roots together, since
their parent is the same. -/
theorem reparent {s : ParseState C F} {id : BlockId} (h : Forest s.blocks S parentOf roots)
    (hout : ∀ c ∈ roots, ∀ p, parentOf c = some p → p ∉ S) :
    Forest (Builder.reparent id roots s).blocks S (fun _ => some id) roots := by
  have hblock : ∀ i b, s.blocks i = some b → (Builder.reparent id roots s).blocks i =
      some { b with parentId := if i ∈ roots then some id else b.parentId } := by
    intro i b hb
    by_cases hi : i ∈ roots <;> simp [Builder.reparent, hi, hb]
  have hsource : ∀ i ∈ S, ∀ b, (Builder.reparent id roots s).blocks i = some b →
      ∃ b₀, s.blocks i = some b₀ ∧
        b = { b₀ with parentId := if i ∈ roots then some id else b₀.parentId } := by
    intro i hi b hb
    obtain ⟨b₀, hb₀, -⟩ := h.block i hi
    exact ⟨b₀, hb₀, Option.some.inj (hb.symm.trans (hblock i b₀ hb₀))⟩
  refine ⟨h.nodup, fun c hc => ?_, fun i hi => ?_, fun i hi hroot b hb => ?_,
    fun p hp pb c hpb hc => ?_, fun i hi b hb => ?_, fun i hi b hb htype => ?_,
    fun i hi b j hb hkind => ?_, fun i hi b method lookbackDays top a hb hkind => ?_, ?_⟩
  · obtain ⟨hcS, b, hb, -⟩ := h.root c hc
    exact ⟨hcS, _, hblock c b hb, if_pos hc⟩
  · obtain ⟨b, hb, hid⟩ := h.block i hi
    exact ⟨_, hblock i b hb, hid⟩
  · obtain ⟨b₀, hb₀, rfl⟩ := hsource i hi b hb
    obtain ⟨p, hp, hparent, pb, hpb, hmem⟩ := h.parent i hi hroot b₀ hb₀
    exact ⟨p, hp, (if_neg hroot).trans hparent, _, hblock p pb hpb, hmem⟩
  · obtain ⟨pb₀, hpb₀, rfl⟩ := hsource p hp pb hpb
    obtain ⟨hcS, hroot, b, hb, hparent⟩ := h.child p hp pb₀ c hpb₀ hc
    exact ⟨hcS, hroot, _, hblock c b hb, (if_neg hroot).trans hparent⟩
  · obtain ⟨b₀, hb₀, rfl⟩ := hsource i hi b hb
    exact h.childNodup i hi b₀ hb₀
  · obtain ⟨b₀, hb₀, rfl⟩ := hsource i hi b hb
    exact h.leaf i hi b₀ hb₀ htype
  · obtain ⟨b₀, hb₀, rfl⟩ := hsource i hi b hb
    obtain ⟨hj, sibling, hs, htype, hparent⟩ := h.elseBlock i hi b₀ j hb₀ hkind
    -- the parent of a root is outside, and that of another block is inside
    have houtside : ∀ k ∈ S, ∀ kb, s.blocks k = some kb →
        (k ∈ roots ↔ ∀ p, kb.parentId = some p → p ∉ S) := by
      intro k hk kb hkb
      constructor
      · intro hroot p hp
        obtain ⟨-, kb', hkb', hkp⟩ := h.root k hroot
        cases hkb.symm.trans hkb'
        exact hout k hroot p (hkp.symm.trans hp)
      · intro hall
        by_contra hroot
        obtain ⟨p, hpS, hp, -⟩ := h.parent k hk hroot kb hkb
        exact hall p hp hpS
    have hboth : j ∈ roots ↔ i ∈ roots := by
      rw [houtside j hj sibling hs, houtside i hi b₀ hb₀, hparent]
    refine ⟨hj, _, hblock j sibling hs, htype, ?_⟩
    simp only [hboth, hparent]
  · obtain ⟨b₀, hb₀, rfl⟩ := hsource i hi b hb
    exact h.allocations i hi b₀ method lookbackDays top a hb₀ hkind
  · obtain ⟨height, bound, hbound, hheight⟩ := h.heights
    refine ⟨height, bound, hbound, fun p hp pb c hpb hc => ?_⟩
    obtain ⟨pb₀, hpb₀, rfl⟩ := hsource p hp pb hpb
    exact hheight p hp pb₀ c hpb₀ hc

/-- A forest of one tree whose root has no parent, and nothing else, is a well-formed tree. -/
theorem wellFormed {rootId : BlockId} {b : Block C F}
    (h : Forest blocks S (fun _ => none) [rootId]) (hroot : blocks rootId = some b)
    (htype : b.type = .root) (houtside : ∀ i ∉ S, blocks i = none) :
    StrategyTree.WellFormed ⟨rootId, blocks⟩ := by
  have hin : ∀ {i b}, blocks i = some b → i ∈ S := fun {i b} hb => by
    by_contra hi
    exact nomatch (houtside i hi).symm.trans hb
  refine ⟨?_, fun i b hb => ?_, fun i b hb hi => ?_, ?_, fun i b hb => h.childNodup i (hin hb) b hb,
    fun i b hb => h.leaf i (hin hb) b hb, fun i b j hb hkind => (h.elseBlock i (hin hb) b j hb hkind).2,
    fun i b method lookbackDays top a hb => h.allocations i (hin hb) b method lookbackDays top a hb, ?_⟩
  · obtain ⟨-, b', hb', hparent⟩ := h.root rootId (List.mem_singleton_self _)
    cases hroot.symm.trans hb'
    exact ⟨b, hroot, htype, hparent⟩
  · obtain ⟨b', hb', hid⟩ := h.block i (hin hb)
    cases hb.symm.trans hb'
    exact hid
  · obtain ⟨p, -, hparent, hlists⟩ :=
      h.parent i (hin hb) (fun hmem => hi (List.mem_singleton.mp hmem)) b hb
    exact ⟨p, hparent, hlists⟩
  · rintro p c ⟨pb, hpb, hc⟩
    exact (h.child p (hin hpb) pb c hpb hc).2.2
  · obtain ⟨height, bound, hbound, hheight⟩ := h.heights
    refine ⟨height, bound, fun i b hb => hbound i (hin hb), ?_⟩
    rintro p c ⟨pb, hpb, hc⟩
    exact hheight p (hin hpb) pb c hpb hc

end Forest

/-! ## What the parser adds -/

/-- What every step of a loop keeps holds when the loop ends. -/
theorem foldlM_keeps {α β : Type} {f : β → α → Option β} {P : β → Prop}
    (hstep : ∀ b a b', P b → f b a = some b' → P b') {l : List α} {b b' : β} (hb : P b)
    (h : l.foldlM f b = some b') : P b' := by
  induction l generalizing b with
  | nil =>
    cases h
    exact hb
  | cons a l ih =>
    obtain ⟨c, hc, hrest⟩ := Option.bind_eq_some_iff.mp h
    exact ih (hstep b a c hb hc) hrest

section Grown

variable {now : ℕ → ℕ} {s s' s'' : ParseState C F} {i parentId : BlockId}
  {ids ids' : List BlockId}

/-- The ids that were given out between two states. -/
def newIds (now : ℕ → ℕ) (s s' : ParseState C F) : Set BlockId :=
  {i | ∃ n, s.counter < n ∧ n ≤ s'.counter ∧ i = .block (now n) n}

theorem mem_newIds_trans (h : s.counter ≤ s'.counter) (h' : s'.counter ≤ s''.counter) :
    i ∈ newIds now s s'' ↔ i ∈ newIds now s s' ∨ i ∈ newIds now s' s'' := by
  constructor
  · rintro ⟨n, hlow, hhigh, rfl⟩
    by_cases hn : n ≤ s'.counter
    · exact .inl ⟨n, hlow, hn, rfl⟩
    · exact .inr ⟨n, by omega, hhigh, rfl⟩
  · rintro (⟨n, hlow, hhigh, rfl⟩ | ⟨n, hlow, hhigh, rfl⟩)
    · exact ⟨n, hlow, by omega, rfl⟩
    · exact ⟨n, by omega, hhigh, rfl⟩

theorem newIds_disjoint (hi : i ∈ newIds now s s') : i ∉ newIds now s' s'' := by
  obtain ⟨n, -, hhigh, rfl⟩ := hi
  rintro ⟨m, hlow, -, heq⟩
  injection heq with _ heq
  omega

theorem newIds_self : newIds now s s = ∅ := by
  ext i
  simp only [newIds, Set.mem_ofPred_eq, Set.mem_empty_iff_false, iff_false]
  rintro ⟨n, hlow, hhigh, -⟩
  omega

theorem nextId_notMem_newIds : s.nextId now ∉ newIds now s.count s' := by
  rintro ⟨n, hlow, -, heq⟩
  injection heq with _ heq
  simp only [ParseState.count] at hlow
  omega

/-- The ids from a state on are its next one and those after it. -/
theorem newIds_count (h : s.count.counter ≤ s'.counter) :
    newIds now s s' = insert (s.nextId now) (newIds now s.count s') := by
  ext i
  simp only [ParseState.count] at h
  constructor
  · rintro ⟨n, hlow, hhigh, rfl⟩
    by_cases hn : n = s.counter + 1
    · exact .inl (by rw [hn, ParseState.nextId])
    · exact .inr ⟨n, by simp only [ParseState.count]; omega, hhigh, rfl⟩
  · rintro (rfl | ⟨n, hlow, hhigh, rfl⟩)
    · exact ⟨s.counter + 1, by omega, h, rfl⟩
    · simp only [ParseState.count] at hlow
      exact ⟨n, by omega, hhigh, rfl⟩

theorem nextId_notMem : s'.nextId now ∉ newIds now s s' := by
  rintro ⟨n, -, hhigh, heq⟩
  injection heq with _ heq
  omega

theorem newIds_next (h : s.counter ≤ s'.counter) (hnext : s''.counter = s'.counter + 1) :
    newIds now s s'' = insert (s'.nextId now) (newIds now s s') := by
  ext i
  constructor
  · rintro ⟨n, hlow, hhigh, rfl⟩
    by_cases hn : n = s'.counter + 1
    · exact .inl (by rw [hn, ParseState.nextId])
    · exact .inr ⟨n, hlow, by omega, rfl⟩
  · rintro (rfl | ⟨n, hlow, hhigh, rfl⟩)
    · exact ⟨s'.counter + 1, by omega, hnext.ge, rfl⟩
    · exact ⟨n, hlow, by omega, rfl⟩

/-- The parser put a forest on the new ids, with the roots below the parent. -/
structure Grown (now : ℕ → ℕ) (parentId : BlockId) (ids : List BlockId) (s s' : ParseState C F) :
    Prop where
  counter : s.counter ≤ s'.counter
  frame : ∀ i ∉ newIds now s s', s'.blocks i = s.blocks i
  forest : Forest s'.blocks (newIds now s s') (fun _ => some parentId) ids

namespace Grown

theorem refl (s : ParseState C F) : Grown now parentId [] s s := by
  refine ⟨le_rfl, fun _ _ => rfl, ?_⟩
  rw [newIds_self]
  exact .empty

/-- What is added later leaves the forest as it is. -/
theorem frame_forest (h : Grown now parentId ids s' s'') {S : Set BlockId}
    {parentOf : BlockId → Option BlockId} {roots : List BlockId}
    (hforest : Forest s'.blocks S parentOf roots) (hS : S ⊆ newIds now s s') :
    Forest s''.blocks S parentOf roots :=
  hforest.congr (fun i hi => h.frame i (newIds_disjoint (hS hi))) (.refl _) fun _ _ => rfl

theorem trans (h : Grown now parentId ids s s') (h' : Grown now parentId ids' s' s'') :
    Grown now parentId (ids ++ ids') s s'' := by
  refine ⟨h.counter.trans h'.counter, fun i hi => ?_, ?_⟩
  · rw [mem_newIds_trans h.counter h'.counter, not_or] at hi
    rw [h'.frame i hi.2, h.frame i hi.1]
  · have hset : newIds now s s'' = newIds now s s' ∪ newIds now s' s'' :=
      Set.ext fun i => mem_newIds_trans h.counter h'.counter
    rw [hset]
    exact (h'.frame_forest h.forest subset_rfl).union h'.forest fun i hi => newIds_disjoint hi

/-- The children's forest becomes one tree below the next id. -/
theorem put {kind : BlockKind C F} (h : Grown now (s.nextId now) ids s.count s')
    (hleaf : kind.type = .asset → ids = []) (helse : ∀ j, kind ≠ .elseBlock j)
    (halloc : ∀ method lookbackDays top allocations,
      kind = .weight method lookbackDays top allocations →
        ∀ key, (allocations key).isSome → key ∈ ids) :
    Grown now parentId [s.nextId now] s (s'.put ⟨s.nextId now, some parentId, ids, kind⟩) := by
  have hset : newIds now s (s'.put ⟨s.nextId now, some parentId, ids, kind⟩) =
      insert (s.nextId now) (newIds now s.count s') := newIds_count h.counter
  refine ⟨(Nat.le_succ _).trans h.counter, fun i hi => ?_, ?_⟩
  · rw [hset, Set.mem_insert_iff, not_or] at hi
    exact (Function.update_of_ne hi.1 _ _).trans (h.frame i hi.2)
  · rw [hset]
    have hforest := h.forest
    rw [← List.append_nil ids] at hforest
    have hnode := hforest.node (some parentId) kind nextId_notMem_newIds (fun _ _ => rfl) hleaf
      (fun j hj => absurd hj (helse j)) halloc
    refine hnode.congr (fun _ _ => rfl) (.refl _) fun c hc => ?_
    rw [List.mem_singleton.mp hc, Function.update_self]

end Grown

end Grown

section Parsed

variable {now : ℕ → ℕ} {r : Readings C F} {visit : Visit C F} {s s' : ParseState C F}
  {parentId : BlockId} {ids : List BlockId}

/-- The parser below a block grows a forest. -/
def GrowsForests (now : ℕ → ℕ) (visit : Visit C F) : Prop :=
  ∀ item parentId s ids s', visit item parentId s = some (ids, s') → Grown now parentId ids s s'

theorem parseChildren_grown (hvisit : GrowsForests now visit) {items : List (List SExpr)}
    (h : parseChildren visit parentId items s = some (ids, s')) : Grown now parentId ids s s' := by
  refine foldlM_keeps (P := fun acc => Grown now parentId acc.1 s acc.2) ?_ (.refl s) h
  intro acc item acc' hacc hstep
  obtain ⟨added, hadded, rfl⟩ := Option.map_eq_some_iff.mp hstep
  exact hacc.trans (hvisit item parentId acc.2 added.1 added.2 hadded)

/-- The allocations of a parsed weight block are to its children. -/
theorem parseWeightChildren_grown (hvisit : GrowsForests now visit) {items : List (List SExpr)}
    {allocations : BlockId → Option ℚ}
    (h : parseWeightChildren visit parentId items s = some ((ids, allocations), s')) :
    Grown now parentId ids s s' ∧ ∀ key, (allocations key).isSome → key ∈ ids := by
  refine foldlM_keeps (P := fun acc => Grown now parentId acc.1.1 s acc.2 ∧
    ∀ key, (acc.1.2 key).isSome → key ∈ acc.1.1) ?_ ⟨.refl s, fun _ hkey => nomatch hkey⟩ h
  rintro acc item acc' ⟨hgrown, hkeys⟩ hstep
  obtain ⟨added, hadded, rfl⟩ := Option.map_eq_some_iff.mp hstep
  refine ⟨hgrown.trans (hvisit item parentId acc.2 added.1 added.2 hadded), fun key hkey => ?_⟩
  dsimp only at hkey ⊢
  split at hkey
  · next childId x hchild _ =>
    by_cases hself : key = childId
    · exact List.mem_append_right _ (hself ▸ List.mem_of_mem_head? hchild)
    · rw [Function.update_of_ne hself] at hkey
      exact List.mem_append_left _ (hkeys key hkey)
  · exact List.mem_append_left _ (hkeys key hkey)

/-- Between the two ends of the loop over an if expression, the children of the if block and those
of the else block are two forests. -/
structure GrownParts (now : ℕ → ℕ) (ifId : BlockId) (parts : IfParts) (s s' : ParseState C F) :
    Prop where
  counter : s.counter ≤ s'.counter
  frame : ∀ i ∉ newIds now s s', s'.blocks i = s.blocks i
  forests : ∃ S T : Set BlockId, newIds now s s' = S ∪ T ∧ (∀ i ∈ S, i ∉ T) ∧
    Forest s'.blocks S (fun _ => some ifId) parts.ifChildIds ∧
    Forest s'.blocks T (fun _ => some ifId) parts.elseChildIds

theorem GrownParts.refl (ifId : BlockId) (s : ParseState C F) :
    GrownParts now ifId ⟨none, [], []⟩ s s := by
  refine ⟨le_rfl, fun _ _ => rfl, ∅, ∅, ?_, fun i hi => absurd hi (Set.notMem_empty i), .empty, .empty⟩
  rw [newIds_self, Set.union_empty]

/-- More children of the if block, or more of the else block. -/
theorem GrownParts.grow {ifId : BlockId} {parts : IfParts} {s'' : ParseState C F}
    (h : GrownParts now ifId parts s s') (h' : Grown now ifId ids s' s'')
    (condition : Option (List SExpr)) :
    GrownParts now ifId ⟨condition, parts.ifChildIds ++ ids, parts.elseChildIds⟩ s s'' ∧
      GrownParts now ifId ⟨condition, parts.ifChildIds, parts.elseChildIds ++ ids⟩ s s'' := by
  obtain ⟨hcounter, hframe, S, T, hnew, hdisjoint, hS, hT⟩ := h
  have hcounter' := hcounter.trans h'.counter
  have hframe' : ∀ i ∉ newIds now s s'', s''.blocks i = s.blocks i := by
    intro i hi
    rw [mem_newIds_trans hcounter h'.counter, not_or] at hi
    rw [h'.frame i hi.2, hframe i hi.1]
  have hset : newIds now s s'' = S ∪ T ∪ newIds now s' s'' := by
    rw [← hnew]
    exact Set.ext fun i => mem_newIds_trans hcounter h'.counter
  have hSnew : S ⊆ newIds now s s' := hnew ▸ Set.subset_union_left
  have hTnew : T ⊆ newIds now s s' := hnew ▸ Set.subset_union_right
  have hS' := h'.frame_forest hS hSnew
  have hT' := h'.frame_forest hT hTnew
  refine ⟨⟨hcounter', hframe', S ∪ newIds now s' s'', T, ?_, ?_, ?_, hT'⟩,
    ⟨hcounter', hframe', S, T ∪ newIds now s' s'', ?_, ?_, hS', ?_⟩⟩
  · rw [hset, Set.union_right_comm]
  · rintro i (hi | hi) hiT
    · exact hdisjoint i hi hiT
    · exact newIds_disjoint (hTnew hiT) hi
  · exact hS'.union h'.forest fun i hi => newIds_disjoint (hSnew hi)
  · rw [hset, Set.union_assoc]
  · rintro i hi (hiT | hiT)
    · exact hdisjoint i hi hiT
    · exact newIds_disjoint (hSnew hi) hiT
  · exact hT'.union h'.forest fun i hi => newIds_disjoint (hTnew hi)

theorem parseIfItem_grown (hvisit : GrowsForests now visit) {ifId : BlockId}
    {acc acc' : IfParts × ParseState C F} {item : List SExpr}
    (hacc : GrownParts now ifId acc.1 s acc.2) (h : parseIfItem visit ifId acc item = some acc') :
    GrownParts now ifId acc'.1 s acc'.2 := by
  unfold parseIfItem at h
  split at h
  · obtain ⟨children, hchildren, rfl⟩ := Option.map_eq_some_iff.mp h
    exact (hacc.grow (parseChildren_grown hvisit hchildren) _).1
  · split at h
    · obtain ⟨children, hchildren, rfl⟩ := Option.map_eq_some_iff.mp h
      exact (hacc.grow (parseChildren_grown hvisit hchildren) _).2
    · dsimp only at h
      split at h
      · cases h
        exact ⟨hacc.counter, hacc.frame, hacc.forests⟩
      · obtain ⟨children, hchildren, rfl⟩ := Option.map_eq_some_iff.mp h
        exact (hacc.grow (hvisit item ifId acc.2 children.1 children.2 hchildren) _).1

theorem finishIf_grown {parts : IfParts} (h : GrownParts now (s.nextId now) parts s.count s') :
    Grown now parentId (finishIf now r (s.nextId now) parentId parts s').1 s
      (finishIf now r (s.nextId now) parentId parts s').2 := by
  obtain ⟨hcounter, hframe, S, T, hnew, hdisjoint, hS, hT⟩ := h
  set ifId := s.nextId now with hifId
  set ifBlock : Block C F := ⟨ifId, some parentId, parts.ifChildIds,
    .ifBlock (r.condition parts.condition) (r.conditionText (r.condition parts.condition))⟩
    with hifBlock
  have hifNew : ifId ∉ newIds now s.count s' := nextId_notMem_newIds
  have hifS : ifId ∉ S := fun hmem => hifNew (hnew ▸ .inl hmem)
  have hifT : ifId ∉ T := fun hmem => hifNew (hnew ▸ .inr hmem)
  -- the if block with its children
  have htree : Forest (s'.put ifBlock).blocks (insert ifId S)
      (Function.update (fun _ => some ifId) ifId (some parentId)) [ifId] := by
    rw [← List.append_nil parts.ifChildIds] at hS
    exact hS.node (some parentId) _ hifS (fun _ _ => rfl) (fun h => nomatch h) (fun _ h => nomatch h)
      fun _ _ _ _ h => nomatch h
  have hids : newIds now s s' = insert ifId S ∪ T := by
    rw [newIds_count hcounter, hnew, Set.insert_union]
  have hcounter' : s.counter ≤ s'.counter := (Nat.le_succ _).trans hcounter
  have happart : ∀ i ∈ insert ifId S, i ∉ T := by
    rintro i (rfl | hi)
    · exact hifT
    · exact hdisjoint i hi
  have helse : Forest (s'.put ifBlock).blocks T (fun _ => some ifId) parts.elseChildIds :=
    hT.congr (fun i hi => Function.update_of_ne (ne_of_mem_of_not_mem hi hifT) _ _) (.refl _)
      fun _ _ => rfl
  have hframe' : ∀ i ∉ newIds now s s', (s'.put ifBlock).blocks i = s.blocks i := by
    intro i hi
    rw [newIds_count hcounter, Set.mem_insert_iff, not_or] at hi
    exact (Function.update_of_ne hi.1 _ _).trans (hframe i hi.2)
  unfold finishIf
  dsimp only
  rw [← hifBlock]
  split
  · next hempty =>
    rw [List.isEmpty_iff.mp hempty] at helse
    refine ⟨hcounter', hframe', ?_⟩
    rw [show newIds now s (s'.put ifBlock) = insert ifId S ∪ T from hids]
    have hunion := htree.union (helse.congr (fun _ _ => rfl) (.refl _) fun c hc => nomatch hc) happart
    refine hunion.congr (fun _ _ => rfl) (.refl _) fun c hc => ?_
    rw [List.mem_singleton.mp hc, Function.update_self]
  · set elseId := (s'.put ifBlock).nextId now with helseId
    have hnewElse : elseId ∉ insert ifId S ∪ T := hids ▸ nextId_notMem
    have hset : ∀ t : ParseState C F, t.counter = s'.counter + 1 →
        newIds now s t = insert elseId (insert ifId S ∪ T) := fun t ht => by
      rw [← hids, newIds_next hcounter' ht]
      rfl
    have houtside : ∀ i ∉ T, (reparent elseId parts.elseChildIds (s'.put ifBlock).count).blocks i =
        (s'.put ifBlock).blocks i := fun i hi => if_neg fun hmem => hi (hT.root i hmem).1
    have hmoved : Forest (reparent elseId parts.elseChildIds (s'.put ifBlock).count).blocks T
        (fun _ => some elseId) parts.elseChildIds :=
      Forest.reparent (s := (s'.put ifBlock).count) helse fun c _ p hp => by
        cases hp
        exact hifT
    -- the if block and the children of the else block, which then takes them
    have hunion : Forest (reparent elseId parts.elseChildIds (s'.put ifBlock).count).blocks
        (insert ifId S ∪ T) (fun i => if i = ifId then some parentId else some elseId)
        ([ifId] ++ parts.elseChildIds) := by
      refine (htree.congr (fun i hi => houtside i (happart i hi)) (.refl _) fun c hc => ?_).union
        (hmoved.congr (fun _ _ => rfl) (.refl _) fun c hc => ?_) happart
      · rw [List.mem_singleton.mp hc, if_pos rfl, Function.update_self]
      · rw [if_neg (ne_of_mem_of_not_mem (hT.root c hc).1 hifT)]
    have hperm := hunion.congr (fun _ _ => rfl) List.perm_append_comm fun _ _ => rfl
    have hne : ifId ≠ elseId := fun heq => hnewElse (heq ▸ .inl (.inl rfl))
    refine ⟨hcounter'.trans (Nat.le_succ _), fun i hi => ?_, ?_⟩
    · rw [hset _ rfl, ← hids, Set.mem_insert_iff, not_or] at hi
      refine (Function.update_of_ne hi.1 _ _).trans ?_
      rw [houtside i fun hiT => hi.2 (hids ▸ .inr hiT), hframe' i hi.2]
    · rw [hset _ rfl]
      refine Forest.congr (hperm.node (some parentId) (.elseBlock ifId) hnewElse (fun c hc => ?_)
        (fun h => nomatch h) (fun j hj => ?_) fun _ _ _ _ h => (nomatch h)) (fun _ _ => rfl) (.swap ..)
          fun c hc => ?_
      · exact if_neg (ne_of_mem_of_not_mem (hT.root c hc).1 hifT)
      · cases hj
        refine ⟨.inl (.inl rfl), ifBlock, ?_, rfl, rfl⟩
        rw [houtside ifId hifT]
        exact Function.update_self ..
      · obtain rfl | hc := List.mem_cons.mp hc
        · rw [Function.update_self]
        · rw [List.mem_singleton.mp hc, Function.update_of_ne hne, if_pos rfl]

theorem parseBlock_grown (now : ℕ → ℕ) (r : Readings C F) (fuel : ℕ) :
    GrowsForests now (parseBlock now r fuel) := by
  induction fuel with
  | zero => exact fun _ _ _ _ _ h => nomatch h
  | succ fuel ih =>
    intro expr parentId s ids s' h
    unfold parseBlock at h
    split at h
    · cases h
      exact (Grown.refl s.count).put (fun _ => rfl) (fun _ h => nomatch h) fun _ _ _ _ h => nomatch h
    · split at h
      · obtain ⟨children, hchildren, heq⟩ := Option.map_eq_some_iff.mp h
        cases heq
        obtain ⟨hgrown, hkeys⟩ := parseWeightChildren_grown ih hchildren
        refine hgrown.put (fun h => nomatch h) (fun _ h => nomatch h)
          fun method lookbackDays top allocations hkind => ?_
        cases hkind
        exact hkeys
      · split at h
        · obtain ⟨children, hchildren, heq⟩ := Option.map_eq_some_iff.mp h
          cases heq
          exact (parseChildren_grown ih hchildren).put (fun h => nomatch h) (fun _ h => nomatch h)
            fun _ _ _ _ h => nomatch h
        · split at h
          · obtain ⟨parts, hparts, heq⟩ := Option.map_eq_some_iff.mp h
            have hgrown := foldlM_keeps
              (P := fun acc => GrownParts now (s.nextId now) acc.1 s.count acc.2)
              (fun acc item acc' hacc => parseIfItem_grown ih hacc) (.refl _ _) hparts
            have hfinished : Grown now parentId
                (finishIf now r (s.nextId now) parentId parts.1 parts.2).1 s
                (finishIf now r (s.nextId now) parentId parts.1 parts.2).2 := finishIf_grown hgrown
            rwa [show finishIf now r (s.nextId now) parentId parts.1 parts.2 = (ids, s') from heq]
              at hfinished
          · split at h
            · obtain ⟨children, hchildren, heq⟩ := Option.map_eq_some_iff.mp h
              cases heq
              exact (parseChildren_grown ih hchildren).put (fun h => nomatch h) (fun _ h => nomatch h)
                fun _ _ _ _ h => nomatch h
            · cases h
              exact .refl s

theorem parseStrategy_wellFormed {fuel : ℕ} {name : String} {rest : List SExpr}
    {t : StrategyTree C F} (h : parseStrategy now r fuel name rest = some t) :
    t.WellFormed ∧ ∀ i, (t.blocks i).isSome → ∃ n, i = .block (now n) n := by
  unfold parseStrategy at h
  split at h
  · cases h
  · obtain ⟨children, hchildren, rfl⟩ := Option.map_eq_some_iff.mp h
    set start : ParseState C F := ⟨0, fun _ => none⟩
    set rootId := start.nextId now
    have hgrown := parseChildren_grown (parseBlock_grown now r fuel) hchildren
    have hforest := hgrown.forest
    rw [← List.append_nil children.1] at hforest
    have hnode := hforest.node none (.root name) nextId_notMem_newIds (fun _ _ => rfl)
      (fun h => nomatch h) (fun _ h => nomatch h) fun _ _ _ _ h => nomatch h
    refine ⟨Forest.wellFormed (hnode.congr (fun _ _ => rfl) (.refl _) fun c hc => ?_)
      (Function.update_self ..) rfl fun i hi => ?_, fun i hi => ?_⟩
    · rw [List.mem_singleton.mp hc, Function.update_self]
    · rw [Set.mem_insert_iff, not_or] at hi
      exact (Function.update_of_ne hi.1 _ _).trans (hgrown.frame i hi.2)
    · by_cases hroot : i = rootId
      · exact ⟨1, hroot⟩
      · by_cases hnew : i ∈ newIds now start.count children.2
        · obtain ⟨n, -, -, rfl⟩ := hnew
          exact ⟨n, rfl⟩
        · dsimp only [ParseState.put] at hi
          rw [Function.update_of_ne hroot, hgrown.frame i hnew] at hi
          cases hi

/-- Whatever the expression is, a tree that is parsed from it is well formed, and its ids are those
of this parse. -/
theorem fromDSL_wellFormed {fuel : ℕ} {parsed : SExpr} {t : StrategyTree C F}
    (h : fromDSL now r fuel parsed = some t) :
    t.WellFormed ∧ ∀ i, (t.blocks i).isSome → ∃ n, i = .block (now n) n := by
  unfold fromDSL at h
  split at h
  · split at h
    · cases h
    · split at h
      · exact parseStrategy_wellFormed h
      · exact parseStrategy_wellFormed h
  · cases h

end Parsed

end Parser

end LlamaTrade.Builder
