import LlamaTrade.BuilderTrees
import Mathlib.Logic.Relation

/-!
# Edits of builder trees

The helpers of the builder store that change the record of blocks (`store/strategy-builder.ts`):
adding a block below a parent, taking a child from its parent and deleting a block with everything
below it. Each keeps a tree well formed where nothing else refers to what it removes. A helper is
`none` where it reads a block that is missing, which raises.
-/

namespace LlamaTrade.Builder

section Edits

variable {C F : Type}

abbrev Blocks (C F : Type) := BlockId → Option (Block C F)

/-- `addChildToParent`. -/
def addChildToParent (blocks : Blocks C F) (parentId childId : BlockId) : Option (Blocks C F) :=
  (blocks parentId).map fun parent =>
    if parent.hasChildren then
      Function.update blocks parentId (some { parent with childIds := parent.childIds ++ [childId] })
    else blocks

/-- The new block of an add operation, and its place in the parent. -/
def addBlock (blocks : Blocks C F) (id parentId : BlockId) (kind : BlockKind C F) :
    Option (Blocks C F) :=
  addChildToParent (Function.update blocks id (some ⟨id, some parentId, [], kind⟩)) parentId id

/-- `removeChildFromParent`. -/
def removeChildFromParent (blocks : Blocks C F) (parentId childId : BlockId) :
    Option (Blocks C F) :=
  (blocks parentId).map fun parent =>
    if parent.hasChildren then
      Function.update blocks parentId (some { parent with childIds := parent.childIds.erase childId })
    else blocks

/-- `deleteBlockRecursive`, with the depth of the stack. -/
def deleteBlockRecursive : ℕ → Blocks C F → BlockId → Option (Blocks C F)
  | 0, _, _ => none
  | fuel + 1, blocks, id =>
    match blocks id with
    | none => some blocks
    | some b =>
      (b.childIds.foldlM (deleteBlockRecursive fuel) blocks).map fun blocks =>
        Function.update blocks id none

/-- A block that is new to a tree refers to nothing but a sibling that is an if block. -/
def BlockKind.FitsBelow (t : StrategyTree C F) (parentId : BlockId) : BlockKind C F → Prop
  | .root _ => False
  | .weight _ _ _ allocations => ∀ key, allocations key = none
  | .elseBlock ifBlockId => ∃ sibling, t.blocks ifBlockId = some sibling ∧
      sibling.type = .ifType ∧ sibling.parentId = some parentId
  | _ => True

section Adding

variable {t : StrategyTree C F} {id parentId : BlockId} {parent : Block C F} {kind : BlockKind C F}

/-- The record after a block was added below a parent that takes children. -/
def added (blocks : Blocks C F) (id parentId : BlockId) (parent : Block C F) (kind : BlockKind C F) :
    Blocks C F := fun i =>
  if i = parentId then some { parent with childIds := parent.childIds ++ [id] }
  else if i = id then some ⟨id, some parentId, [], kind⟩
  else blocks i

theorem addBlock_eq (hparent : t.blocks parentId = some parent) (hchildren : parent.hasChildren)
    (hfresh : t.blocks id = none) :
    addBlock t.blocks id parentId kind = some (added t.blocks id parentId parent kind) := by
  have hne : parentId ≠ id := by
    rintro rfl
    exact nomatch hparent.symm.trans hfresh
  rw [addBlock, addChildToParent, Function.update_of_ne hne, hparent, Option.map_some,
    if_pos hchildren]
  refine congrArg some (funext fun i => ?_)
  simp only [Function.update_apply, added]

/-- Where the blocks of the grown tree come from. -/
theorem added_cases {i : BlockId} {b : Block C F}
    (h : added t.blocks id parentId parent kind i = some b) :
    (i = parentId ∧ b = { parent with childIds := parent.childIds ++ [id] }) ∨
      (i = id ∧ b = ⟨id, some parentId, [], kind⟩) ∨
      (i ≠ parentId ∧ i ≠ id ∧ t.blocks i = some b) := by
  unfold added at h
  split at h
  · next heq => exact .inl ⟨heq, (Option.some.inj h).symm⟩
  · next hne =>
    split at h
    · next heq => exact .inr (.inl ⟨heq, (Option.some.inj h).symm⟩)
    · next hne' => exact .inr (.inr ⟨hne, hne', h⟩)

/-- A block that was there is still there, with its parent and its fields. -/
theorem added_old {i : BlockId} {b : Block C F} (hparent : t.blocks parentId = some parent)
    (hfresh : t.blocks id = none) (hb : t.blocks i = some b) :
    ∃ b', added t.blocks id parentId parent kind i = some b' ∧ b'.parentId = b.parentId ∧
      b'.kind = b.kind ∧ ∀ c ∈ b.childIds, c ∈ b'.childIds := by
  by_cases heq : i = parentId
  · subst heq
    cases hparent.symm.trans hb
    exact ⟨_, if_pos rfl, rfl, rfl, fun c hc => List.mem_append_left _ hc⟩
  · have hne : i ≠ id := by
      rintro rfl
      exact nomatch hb.symm.trans hfresh
    exact ⟨b, by rw [added, if_neg heq, if_neg hne, hb], rfl, rfl, fun c hc => hc⟩

theorem lists_added (hparent : t.blocks parentId = some parent) (hfresh : t.blocks id = none)
    {rootId p c : BlockId} :
    StrategyTree.Lists ⟨rootId, added t.blocks id parentId parent kind⟩ p c ↔
      t.Lists p c ∨ (p = parentId ∧ c = id) := by
  constructor
  · rintro ⟨b, hb, hc⟩
    obtain ⟨rfl, rfl⟩ | ⟨rfl, rfl⟩ | ⟨-, -, hold⟩ := added_cases hb
    · obtain hc | hc := List.mem_append.mp hc
      · exact .inl ⟨parent, hparent, hc⟩
      · exact .inr ⟨rfl, List.mem_singleton.mp hc⟩
    · exact absurd hc List.not_mem_nil
    · exact .inl ⟨b, hold, hc⟩
  · rintro (⟨b, hb, hc⟩ | ⟨rfl, rfl⟩)
    · obtain ⟨b', hb', -, -, hchildren⟩ := added_old hparent hfresh hb
      exact ⟨b', hb', hchildren c hc⟩
    · exact ⟨_, if_pos rfl, List.mem_append_right _ (List.mem_singleton_self _)⟩

theorem wellFormed_added (h : t.WellFormed) (hparent : t.blocks parentId = some parent)
    (hchildren : parent.hasChildren) (hfresh : t.blocks id = none)
    (hkind : kind.FitsBelow t parentId) :
    StrategyTree.WellFormed ⟨t.rootId, added t.blocks id parentId parent kind⟩ := by
  have hunlisted : ∀ p, ¬t.Lists p id := fun p hlists => by
    obtain ⟨b, hb, -⟩ := h.child p id hlists
    exact nomatch hb.symm.trans hfresh
  have hne : parentId ≠ id := by
    rintro rfl
    exact nomatch hparent.symm.trans hfresh
  have hnew : added t.blocks id parentId parent kind id = some ⟨id, some parentId, [], kind⟩ := by
    rw [added, if_neg hne.symm, if_pos rfl]
  refine ⟨?_, fun i b hb => ?_, fun i b hb hi => ?_, fun p c hlists => ?_, fun i b hb => ?_,
    fun i b hb htype => ?_, fun i b j hb hj => ?_, fun i b method lookbackDays top a hb ha key hkey => ?_,
    ?_⟩
  · obtain ⟨b, hb, htype, hnone⟩ := h.root
    obtain ⟨b', hb', hparent', hkind', -⟩ := added_old hparent hfresh hb
    exact ⟨b', hb', (congrArg BlockKind.type hkind').trans htype, hparent'.trans hnone⟩
  · obtain ⟨rfl, rfl⟩ | ⟨rfl, rfl⟩ | ⟨-, -, hold⟩ := added_cases hb
    · exact h.ids i parent hparent
    · rfl
    · exact h.ids i b hold
  · obtain ⟨rfl, rfl⟩ | ⟨rfl, rfl⟩ | ⟨-, -, hold⟩ := added_cases hb
    · obtain ⟨p, hp, hlists⟩ := h.parent i parent hparent hi
      exact ⟨p, hp, (lists_added hparent hfresh).mpr (.inl hlists)⟩
    · exact ⟨parentId, rfl, (lists_added hparent hfresh).mpr (.inr ⟨rfl, rfl⟩)⟩
    · obtain ⟨p, hp, hlists⟩ := h.parent i b hold hi
      exact ⟨p, hp, (lists_added hparent hfresh).mpr (.inl hlists)⟩
  · obtain hlists | ⟨rfl, rfl⟩ := (lists_added hparent hfresh).mp hlists
    · obtain ⟨b, hb, hp⟩ := h.child p c hlists
      obtain ⟨b', hb', hparent', -⟩ := added_old hparent hfresh hb
      exact ⟨b', hb', hparent'.trans hp⟩
    · exact ⟨_, hnew, rfl⟩
  · obtain ⟨rfl, rfl⟩ | ⟨rfl, rfl⟩ | ⟨-, -, hold⟩ := added_cases hb
    · have hnot : id ∉ parent.childIds := fun hmem => hunlisted i ⟨parent, hparent, hmem⟩
      exact List.nodup_append.mpr ⟨h.nodup i parent hparent, List.nodup_singleton id,
        fun a ha c hc hac => hnot (List.mem_singleton.mp hc ▸ hac ▸ ha)⟩
    · exact List.nodup_nil
    · exact h.nodup i b hold
  · obtain ⟨rfl, rfl⟩ | ⟨rfl, rfl⟩ | ⟨-, -, hold⟩ := added_cases hb
    · have hasset : parent.type = .asset := htype
      simp [Block.hasChildren, hasset] at hchildren
    · rfl
    · exact h.leaf i b hold htype
  · have hsibling : ∀ sibling parentId', t.blocks j = some sibling → sibling.type = .ifType →
        sibling.parentId = parentId' → ∃ s, added t.blocks id parentId parent kind j = some s ∧
          s.type = .ifType ∧ s.parentId = parentId' := by
      intro sibling parentId' hs htype hp
      obtain ⟨s, hs', hparent', hkind', -⟩ := added_old hparent hfresh hs
      exact ⟨s, hs', (congrArg BlockKind.type hkind').trans htype, hparent'.trans hp⟩
    obtain ⟨rfl, rfl⟩ | ⟨rfl, rfl⟩ | ⟨-, -, hold⟩ := added_cases hb
    · obtain ⟨sibling, hs, htype, hp⟩ := h.elseBlock i parent j hparent hj
      exact hsibling sibling _ hs htype hp
    · cases (show kind = .elseBlock j from hj)
      obtain ⟨sibling, hs, htype, hp⟩ := hkind
      exact hsibling sibling _ hs htype hp
    · obtain ⟨sibling, hs, htype, hp⟩ := h.elseBlock i b j hold hj
      exact hsibling sibling _ hs htype hp
  · obtain ⟨rfl, rfl⟩ | ⟨rfl, rfl⟩ | ⟨-, -, hold⟩ := added_cases hb
    · exact List.mem_append_left _ (h.allocations i parent method lookbackDays top a hparent ha key hkey)
    · cases (show kind = .weight method lookbackDays top a from ha)
      simp [hkind key] at hkey
    · exact h.allocations i b method lookbackDays top a hold ha key hkey
  · obtain ⟨height, bound, hbound, hheight⟩ := h.heights
    -- everything else is lifted above the new block
    refine ⟨fun i => if i = id then 0 else height i + 1, bound + 1, fun i b hb => ?_,
      fun p c hlists => ?_⟩
    · dsimp only
      split
      · exact Nat.zero_le _
      · next hi =>
        obtain ⟨rfl, -⟩ | ⟨rfl, -⟩ | ⟨-, -, hold⟩ := added_cases hb
        · exact Nat.succ_le_succ (hbound i parent hparent)
        · exact absurd rfl hi
        · exact Nat.succ_le_succ (hbound i b hold)
    · obtain hold | ⟨rfl, rfl⟩ := (lists_added hparent hfresh).mp hlists
      · have hp : p ≠ id := by
          rintro rfl
          obtain ⟨b, hb, -⟩ := hold
          exact nomatch hb.symm.trans hfresh
        have hc : c ≠ id := fun heq => hunlisted p (heq ▸ hold)
        dsimp only
        rw [if_neg hp, if_neg hc]
        exact Nat.succ_lt_succ (hheight p c hold)
      · dsimp only
        rw [if_pos rfl, if_neg hne]
        exact Nat.succ_pos _

end Adding

section Deleting

/-- The record is that of the tree without the blocks of a set. -/
def Cut (t : StrategyTree C F) (R : Set BlockId) (blocks : Blocks C F) : Prop :=
  (∀ i ∈ R, blocks i = none) ∧ ∀ i ∉ R, blocks i = t.blocks i

def Closed (t : StrategyTree C F) (R : Set BlockId) : Prop :=
  ∀ p c, p ∈ R → t.Lists p c → c ∈ R

/-- The block and everything below it. -/
def subtree (t : StrategyTree C F) (id : BlockId) : Set BlockId :=
  {i | Relation.ReflTransGen t.Lists id i}

theorem closed_union_subtree {t : StrategyTree C F} {R : Set BlockId} (h : Closed t R)
    (id : BlockId) : Closed t (R ∪ subtree t id) := by
  rintro p c (hp | hp) hlists
  · exact .inl (h p c hp hlists)
  · exact .inr (Relation.ReflTransGen.tail hp hlists)

theorem subtree_subset {t : StrategyTree C F} {R : Set BlockId} (h : Closed t R) {id : BlockId}
    (hid : id ∈ R) : subtree t id ⊆ R := by
  intro i hi
  induction hi with
  | refl => exact hid
  | tail _ hlists ih => exact h _ _ ih hlists

variable {t : StrategyTree C F} {height : BlockId → ℕ}

/-- With enough stack exactly the subtree is deleted. -/
theorem deleteBlockRecursive_cut (hheight : ∀ p c, t.Lists p c → height c < height p)
    (hexists : ∀ p c, t.Lists p c → ∃ b, t.blocks c = some b) {fuel : ℕ} {R : Set BlockId}
    {blocks : Blocks C F} {id : BlockId} {b : Block C F} (hb : t.blocks id = some b)
    (hfuel : height id < fuel) (hcut : Cut t R blocks) (hclosed : Closed t R) :
    ∃ blocks', deleteBlockRecursive fuel blocks id = some blocks' ∧
      Cut t (R ∪ subtree t id) blocks' := by
  induction fuel generalizing R blocks id b with
  | zero => exact absurd hfuel (Nat.not_lt_zero _)
  | succ fuel ih =>
    have hfold : ∀ (cs : List BlockId) (R : Set BlockId) (blocks : Blocks C F),
        (∀ c ∈ cs, t.Lists id c) → Cut t R blocks → Closed t R →
        ∃ blocks', cs.foldlM (deleteBlockRecursive fuel) blocks = some blocks' ∧
          Cut t (R ∪ {i | ∃ c ∈ cs, i ∈ subtree t c}) blocks' := by
      intro cs
      induction cs with
      | nil =>
        intro R blocks _ hcut _
        exact ⟨blocks, rfl, by simpa using hcut⟩
      | cons c cs ihcs =>
        intro R blocks hcs hcut hclosed
        obtain ⟨hc, hcs⟩ := List.forall_mem_cons.mp hcs
        obtain ⟨cb, hcb⟩ := hexists id c hc
        have hlower := hheight id c hc
        obtain ⟨blocks₁, hdelete, hcut₁⟩ := ih hcb (by omega) hcut hclosed
        obtain ⟨blocks₂, hrest, hcut₂⟩ := ihcs _ _ hcs hcut₁ (closed_union_subtree hclosed c)
        refine ⟨blocks₂, ?_, ?_⟩
        · rw [List.foldlM_cons, hdelete]
          exact hrest
        · have hset : R ∪ subtree t c ∪ {i | ∃ c ∈ cs, i ∈ subtree t c} =
              R ∪ {i | ∃ d ∈ c :: cs, i ∈ subtree t d} := by
            ext i
            simp [or_assoc]
          rwa [hset] at hcut₂
    rw [deleteBlockRecursive]
    by_cases hid : id ∈ R
    · rw [hcut.1 id hid, Set.union_eq_left.mpr (subtree_subset hclosed hid)]
      exact ⟨blocks, rfl, hcut⟩
    · rw [hcut.2 id hid, hb]
      obtain ⟨blocks₁, hchildren, hcut₁⟩ :=
        hfold b.childIds R blocks (fun c hc => ⟨b, hb, hc⟩) hcut hclosed
      refine ⟨Function.update blocks₁ id none, by simp only [hchildren, Option.map_some],
        fun i hi => ?_, fun i hi => ?_⟩
      · by_cases heq : i = id
        · rw [heq, Function.update_self]
        · rw [Function.update_of_ne heq]
          refine hcut₁.1 i ?_
          obtain hi | hi := hi
          · exact .inl hi
          · obtain heq' | ⟨c, ⟨b', hb', hc⟩, hbelow⟩ := Relation.ReflTransGen.cases_head hi
            · exact absurd heq'.symm heq
            · cases hb.symm.trans hb'
              exact .inr ⟨c, hc, hbelow⟩
      · have hne : i ≠ id := by
          rintro rfl
          exact hi (.inr .refl)
        rw [Function.update_of_ne hne]
        refine hcut₁.2 i fun hmem => hi ?_
        obtain hmem | ⟨c, hc, hbelow⟩ := hmem
        · exact .inl hmem
        · exact .inr (Relation.ReflTransGen.head ⟨b, hb, hc⟩ hbelow)

/-- No else block that stays names the block, and its parent has no allocation for it. -/
structure Unreferenced (t : StrategyTree C F) (id : BlockId) : Prop where
  elseBlock : ∀ i b, t.blocks i = some b → b.kind ≠ .elseBlock id
  allocations : ∀ i b method lookbackDays top allocations, t.blocks i = some b →
    b.kind = .weight method lookbackDays top allocations → allocations id = none

section Removed

variable {id : BlockId} {R : Set BlockId} {blocks : Blocks C F}

/-- The block without a child. -/
def Block.without (id : BlockId) (b : Block C F) : Block C F :=
  { b with childIds := b.childIds.erase id }

/-- Removing a subtree that nothing refers to keeps a tree well formed. -/
theorem wellFormed_removed (h : t.WellFormed) (hid : id ∈ R) (hroot : t.rootId ∉ R)
    (hclosed : Closed t R) (hback : ∀ p c, c ∈ R → c ≠ id → t.Lists p c → p ∈ R)
    (hremoved : ∀ i ∈ R, blocks i = none)
    (hrest : ∀ i ∉ R, blocks i = (t.blocks i).map (Block.without id)) (href : Unreferenced t id) :
    StrategyTree.WellFormed ⟨t.rootId, blocks⟩ := by
  have hsource : ∀ {i b}, blocks i = some b →
      i ∉ R ∧ ∃ b₀, t.blocks i = some b₀ ∧ b = b₀.without id := by
    intro i b hb
    have hi : i ∉ R := fun hi => nomatch (hremoved i hi).symm.trans hb
    rw [hrest i hi] at hb
    obtain ⟨b₀, hb₀, rfl⟩ := Option.map_eq_some_iff.mp hb
    exact ⟨hi, b₀, hb₀, rfl⟩
  have hkept : ∀ {i b₀}, i ∉ R → t.blocks i = some b₀ → blocks i = some (b₀.without id) := by
    intro i b₀ hi hb₀
    rw [hrest i hi, hb₀]
    rfl
  have hlists : ∀ {p c}, StrategyTree.Lists ⟨t.rootId, blocks⟩ p c →
      p ∉ R ∧ c ∉ R ∧ t.Lists p c := by
    rintro p c ⟨b, hb, hc⟩
    obtain ⟨hp, b₀, hb₀, rfl⟩ := hsource hb
    obtain ⟨hne, hc⟩ := (h.nodup p b₀ hb₀).mem_erase_iff.mp hc
    exact ⟨hp, fun hmem => hp (hback p c hmem hne ⟨b₀, hb₀, hc⟩), b₀, hb₀, hc⟩
  have hstays : ∀ {p c}, t.Lists p c → c ∉ R → StrategyTree.Lists ⟨t.rootId, blocks⟩ p c := by
    rintro p c ⟨b₀, hb₀, hc⟩ hmem
    have hp : p ∉ R := fun hp => hmem (hclosed p c hp ⟨b₀, hb₀, hc⟩)
    have hne : c ≠ id := fun heq => hmem (heq ▸ hid)
    exact ⟨_, hkept hp hb₀, (h.nodup p b₀ hb₀).mem_erase_iff.mpr ⟨hne, hc⟩⟩
  refine ⟨?_, fun i b hb => ?_, fun i b hb hi => ?_, fun p c hpc => ?_, fun i b hb => ?_,
    fun i b hb htype => ?_, fun i b j hb hj => ?_, fun i b method lookbackDays top a hb ha key hkey => ?_,
    ?_⟩
  · obtain ⟨b, hb, htype, hnone⟩ := h.root
    exact ⟨_, hkept hroot hb, htype, hnone⟩
  · obtain ⟨-, b₀, hb₀, rfl⟩ := hsource hb
    exact h.ids i b₀ hb₀
  · obtain ⟨hmem, b₀, hb₀, rfl⟩ := hsource hb
    obtain ⟨p, hp, hpi⟩ := h.parent i b₀ hb₀ hi
    exact ⟨p, hp, hstays hpi hmem⟩
  · obtain ⟨-, hc, hpc⟩ := hlists hpc
    obtain ⟨b₀, hb₀, hp⟩ := h.child p c hpc
    exact ⟨_, hkept hc hb₀, hp⟩
  · obtain ⟨-, b₀, hb₀, rfl⟩ := hsource hb
    exact (h.nodup i b₀ hb₀).erase id
  · obtain ⟨-, b₀, hb₀, rfl⟩ := hsource hb
    rw [Block.without, h.leaf i b₀ hb₀ htype]
    rfl
  · obtain ⟨hmem, b₀, hb₀, rfl⟩ := hsource hb
    obtain ⟨sibling, hs, htype, hp⟩ := h.elseBlock i b₀ j hb₀ hj
    have hne : j ≠ id := by
      rintro rfl
      exact href.elseBlock i b₀ hb₀ hj
    -- a removed sibling has a removed parent, which is the parent of the else block
    have hj : j ∉ R := by
      intro hjR
      obtain ⟨q, hq, hqj⟩ := h.parent j sibling hs fun heq => hroot (heq ▸ hjR)
      have hi : i ≠ t.rootId := by
        rintro rfl
        obtain ⟨rb, hrb, -, hnone⟩ := h.root
        cases hrb.symm.trans hb₀
        exact nomatch (hq.symm.trans hp).trans hnone
      obtain ⟨q', hq', hqi⟩ := h.parent i b₀ hb₀ hi
      obtain rfl : q = q' := Option.some.inj ((hq.symm.trans hp).trans hq')
      exact hmem (hclosed q i (hback q j hjR hne hqj) hqi)
    exact ⟨_, hkept hj hs, htype, hp⟩
  · obtain ⟨-, b₀, hb₀, rfl⟩ := hsource hb
    have hne : key ≠ id := by
      rintro rfl
      rw [href.allocations i b₀ method lookbackDays top a hb₀ ha] at hkey
      cases hkey
    exact (h.nodup i b₀ hb₀).mem_erase_iff.mpr
      ⟨hne, h.allocations i b₀ method lookbackDays top a hb₀ ha key hkey⟩
  · obtain ⟨height, bound, hbound, hheight⟩ := h.heights
    refine ⟨height, bound, fun i b hb => ?_, fun p c hpc => ?_⟩
    · obtain ⟨-, b₀, hb₀, -⟩ := hsource hb
      exact hbound i b₀ hb₀
    · exact hheight p c (hlists hpc).2.2

end Removed

/-- `deleteBlock`, once it is under way. -/
def deleteBlock (fuel : ℕ) (blocks : Blocks C F) (id : BlockId) : Option (Blocks C F) :=
  (blocks id).bind fun b => do
    let blocks ← match b.parentId with
      | some parentId => removeChildFromParent blocks parentId id
      | none => some blocks
    deleteBlockRecursive fuel blocks id

/-- Taking a child from its parent takes it from every list. -/
theorem removeChildFromParent_eq (h : t.WellFormed) {parentId id : BlockId}
    (hlists : t.Lists parentId id) :
    ∃ blocks, removeChildFromParent t.blocks parentId id = some blocks ∧
      ∀ i, blocks i = (t.blocks i).map (Block.without id) := by
  have hlisted := hlists
  obtain ⟨parent, hparent, hmem⟩ := hlisted
  have hchildren : parent.hasChildren := by
    by_contra hleaf
    have hasset : parent.type = .asset := by simpa [Block.hasChildren] using hleaf
    rw [h.leaf parentId parent hparent hasset] at hmem
    exact absurd hmem List.not_mem_nil
  refine ⟨_, by rw [removeChildFromParent, hparent, Option.map_some, if_pos hchildren], fun i => ?_⟩
  by_cases heq : i = parentId
  · rw [heq, Function.update_self, hparent]
    rfl
  · rw [Function.update_of_ne heq]
    cases hi : t.blocks i with
    | none => rfl
    | some b =>
      have hnot : id ∉ b.childIds := fun hmem => heq (h.parent_unique ⟨b, hi, hmem⟩ hlists)
      rw [Option.map_some, Block.without, List.erase_of_not_mem hnot]

/-- Deleting a block that nothing refers to succeeds and keeps a tree well formed. -/
theorem deleteBlock_wellFormed (h : t.WellFormed) {id : BlockId} {b : Block C F}
    (hb : t.blocks id = some b) (hid : id ≠ t.rootId) (href : Unreferenced t id) :
    ∃ enough, ∀ fuel ≥ enough, ∃ blocks, deleteBlock fuel t.blocks id = some blocks ∧
      StrategyTree.WellFormed ⟨t.rootId, blocks⟩ := by
  obtain ⟨parentId, hparentId, hlists⟩ := h.parent id b hb hid
  obtain ⟨blocks₀, hremove, hblocks₀⟩ := removeChildFromParent_eq h hlists
  set t₀ : StrategyTree C F := ⟨t.rootId, blocks₀⟩ with ht₀
  have hsource : ∀ {i b}, t₀.blocks i = some b → ∃ b₀, t.blocks i = some b₀ ∧ b = b₀.without id := by
    intro i b hb
    obtain ⟨b₀, hb₀, rfl⟩ := Option.map_eq_some_iff.mp ((hblocks₀ i).symm.trans hb)
    exact ⟨b₀, hb₀, rfl⟩
  have hlists₀ : ∀ {p c}, t₀.Lists p c ↔ t.Lists p c ∧ c ≠ id := by
    intro p c
    constructor
    · rintro ⟨b, hb, hc⟩
      obtain ⟨b₀, hb₀, rfl⟩ := hsource hb
      obtain ⟨hne, hc⟩ := (h.nodup p b₀ hb₀).mem_erase_iff.mp hc
      exact ⟨⟨b₀, hb₀, hc⟩, hne⟩
    · rintro ⟨⟨b₀, hb₀, hc⟩, hne⟩
      refine ⟨b₀.without id, (hblocks₀ p).trans (by rw [hb₀]; rfl), ?_⟩
      exact (h.nodup p b₀ hb₀).mem_erase_iff.mpr ⟨hne, hc⟩
  obtain ⟨height, -, -, hheight⟩ := h.heights
  refine ⟨height id + 1, fun fuel hfuel => ?_⟩
  have hid₀ : t₀.blocks id = some (b.without id) := (hblocks₀ id).trans (by rw [hb]; rfl)
  obtain ⟨blocks, hdelete, hcut⟩ := deleteBlockRecursive_cut
    (fun p c hpc => hheight p c (hlists₀.mp hpc).1)
    (fun p c hpc => by
      obtain ⟨cb, hcb, -⟩ := h.child p c (hlists₀.mp hpc).1
      exact ⟨_, (hblocks₀ c).trans (by rw [hcb]; rfl)⟩)
    hid₀ (Nat.lt_of_succ_le hfuel)
    (⟨fun i hi => absurd hi (Set.notMem_empty i), fun i _ => rfl⟩ : Cut t₀ ∅ blocks₀)
    (fun p c hp => absurd hp (Set.notMem_empty p))
  rw [Set.empty_union] at hcut
  refine ⟨blocks, ?_, wellFormed_removed h (.refl : id ∈ subtree t₀ id) ?_ ?_ ?_ hcut.1
    (fun i hi => (hcut.2 i hi).trans (hblocks₀ i)) href⟩
  · rw [deleteBlock, hb, Option.bind_some, hparentId]
    simp only [hremove, Option.bind_eq_bind, Option.bind_some]
    exact hdelete
  · intro hroot
    obtain heq | ⟨p, -, hlists⟩ := Relation.ReflTransGen.cases_tail hroot
    · exact hid heq.symm
    · exact h.not_lists_root p (hlists₀.mp hlists).1
  · intro p c hp hlists
    by_cases heq : c = id
    · exact heq ▸ .refl
    · exact Relation.ReflTransGen.tail hp (hlists₀.mpr ⟨hlists, heq⟩)
  · intro p c hc hne hlists
    obtain heq | ⟨q, hq, hqc⟩ := Relation.ReflTransGen.cases_tail hc
    · exact absurd heq hne
    · rwa [h.parent_unique hlists (hlists₀.mp hqc).1]

/-- What a fold makes of a list it makes too with a function that makes more. -/
theorem foldlM_more {α β : Type} {f g : β → α → Option β}
    (h : ∀ b a b', f b a = some b' → g b a = some b') {l : List α} {b b' : β}
    (hfold : l.foldlM f b = some b') : l.foldlM g b = some b' := by
  induction l generalizing b with
  | nil => exact hfold
  | cons a l ih =>
    obtain ⟨c, hc, hrest⟩ := Option.bind_eq_some_iff.mp hfold
    rw [List.foldlM_cons, h b a c hc]
    exact ih hrest

theorem deleteBlockRecursive_succ {fuel : ℕ} {blocks blocks' : Blocks C F} {id : BlockId}
    (h : deleteBlockRecursive fuel blocks id = some blocks') :
    deleteBlockRecursive (fuel + 1) blocks id = some blocks' := by
  induction fuel generalizing blocks blocks' id with
  | zero => cases h
  | succ fuel ih =>
    rw [deleteBlockRecursive] at h ⊢
    cases hb : blocks id with
    | none => simpa only [hb] using h
    | some b =>
      simp only [hb] at h ⊢
      obtain ⟨blocks₁, hchildren, rfl⟩ := Option.map_eq_some_iff.mp h
      rw [foldlM_more (fun _ _ _ hdelete => ih hdelete) hchildren]
      rfl

/-- The record after the block was taken from its parent, if it has one. -/
def detached (blocks : Blocks C F) (id : BlockId) (b : Block C F) : Option (Blocks C F) :=
  match b.parentId with
  | some parentId => removeChildFromParent blocks parentId id
  | none => some blocks

theorem deleteBlock_eq_some {fuel : ℕ} {blocks blocks' : Blocks C F} {id : BlockId} :
    deleteBlock fuel blocks id = some blocks' ↔
      ∃ b, blocks id = some b ∧ ∃ blocks₁, detached blocks id b = some blocks₁ ∧
        deleteBlockRecursive fuel blocks₁ id = some blocks' := by
  rw [deleteBlock, Option.bind_eq_some_iff]
  refine exists_congr fun b => and_congr_right fun _ => ?_
  rw [← Option.bind_eq_some_iff, detached]
  cases b.parentId <;> rfl

theorem deleteBlock_more {fuel fuel' : ℕ} (hfuel : fuel ≤ fuel') {blocks blocks' : Blocks C F}
    {id : BlockId} (h : deleteBlock fuel blocks id = some blocks') :
    deleteBlock fuel' blocks id = some blocks' := by
  induction hfuel with
  | refl => exact h
  | step _ ih =>
    obtain ⟨b, hb, blocks₁, hremove, hdelete⟩ := deleteBlock_eq_some.mp ih
    exact deleteBlock_eq_some.mpr ⟨b, hb, blocks₁, hremove, deleteBlockRecursive_succ hdelete⟩

/-- Whatever the stack, what is deleted in full leaves a well-formed tree. -/
theorem deleteBlock_some_wellFormed (h : t.WellFormed) {fuel : ℕ} {id : BlockId}
    {blocks : Blocks C F} (hid : id ≠ t.rootId) (href : Unreferenced t id)
    (hdelete : deleteBlock fuel t.blocks id = some blocks) :
    StrategyTree.WellFormed ⟨t.rootId, blocks⟩ := by
  obtain ⟨b, hb, -⟩ := Option.bind_eq_some_iff.mp hdelete
  obtain ⟨enough, hall⟩ := deleteBlock_wellFormed h hb hid href
  obtain ⟨blocks', hblocks', hwf⟩ := hall (max fuel enough) (le_max_right _ _)
  cases (deleteBlock_more (le_max_left _ _) hdelete).symm.trans hblocks'
  exact hwf

theorem deleteBlockRecursive_subset {fuel : ℕ} {blocks blocks' : Blocks C F} {id i : BlockId}
    (h : deleteBlockRecursive fuel blocks id = some blocks') (hi : (blocks' i).isSome) :
    (blocks i).isSome := by
  induction fuel generalizing blocks blocks' id with
  | zero => cases h
  | succ fuel ih =>
    rw [deleteBlockRecursive] at h
    cases hb : blocks id with
    | none =>
      simp only [hb, Option.some.injEq] at h
      rwa [h]
    | some b =>
      simp only [hb] at h
      obtain ⟨blocks₁, hchildren, rfl⟩ := Option.map_eq_some_iff.mp h
      have hfold : ∀ (l : List BlockId) (blocks : Blocks C F),
          l.foldlM (deleteBlockRecursive fuel) blocks = some blocks₁ → (blocks₁ i).isSome →
            (blocks i).isSome := by
        intro l
        induction l with
        | nil =>
          intro blocks hnil hi
          cases hnil
          exact hi
        | cons c l ihl =>
          intro blocks hcons hi
          obtain ⟨blocks₂, hc, hrest⟩ := Option.bind_eq_some_iff.mp hcons
          exact ih hc (ihl blocks₂ hrest hi)
      refine hfold _ _ hchildren ?_
      rw [Function.update_apply] at hi
      split at hi
      · cases hi
      · exact hi

/-- Deleting adds no block. -/
theorem deleteBlock_subset {fuel : ℕ} {blocks blocks' : Blocks C F} {id i : BlockId}
    (h : deleteBlock fuel blocks id = some blocks') (hi : (blocks' i).isSome) :
    (blocks i).isSome := by
  obtain ⟨b, hb, blocks₁, hremove, hdelete⟩ := deleteBlock_eq_some.mp h
  have hi₁ := deleteBlockRecursive_subset hdelete hi
  unfold detached at hremove
  cases hparent : b.parentId with
  | none =>
    simp only [hparent, Option.some.injEq] at hremove
    rwa [hremove]
  | some parentId =>
    simp only [hparent] at hremove
    obtain ⟨parent, hp, rfl⟩ := Option.map_eq_some_iff.mp hremove
    split at hi₁
    · rw [Function.update_apply] at hi₁
      split at hi₁
      · next heq => rw [heq, hp]; rfl
      · exact hi₁
    · exact hi₁

end Deleting

end Edits

end LlamaTrade.Builder
