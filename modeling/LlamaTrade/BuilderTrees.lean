import Mathlib.Algebra.Order.Ring.Rat
import Mathlib.Data.List.Nodup
import Mathlib.Logic.Function.Basic

/-!
# The trees of the strategy builder

The block tree of the builder (`strategy/types.ts`): a record of blocks by id, in which a block
names its parent and lists its children, an else block names its if block and a weight block keeps
an allocation by child. `C` and `F` are the conditions and the filter configurations, which the
builder passes on as they are.
-/

namespace LlamaTrade.Builder

/-- An id: a draw of `uuidv4`, or `block_<now>_<counter>` of `generateBlockId`. -/
inductive BlockId where
  | uuid (draw : ℕ)
  | block (now counter : ℕ)
  deriving DecidableEq

inductive BlockType where
  | root | asset | group | weight | ifType | elseType | filter
  deriving DecidableEq

/-- The fields of a block beside its id, its parent and its children. -/
inductive BlockKind (C F : Type) where
  | root (name : String)
  | asset (symbol exchange displayName : String)
  | group (name : String)
  | weight (method : String) (lookbackDays top : Option ℚ) (allocations : BlockId → Option ℚ)
  | ifBlock (condition : C) (conditionText : String)
  | elseBlock (ifBlockId : BlockId)
  | filter (config : F) (displayText : String)

structure Block (C F : Type) where
  id : BlockId
  parentId : Option BlockId
  childIds : List BlockId
  kind : BlockKind C F

structure StrategyTree (C F : Type) where
  rootId : BlockId
  blocks : BlockId → Option (Block C F)

section Trees

variable {C F : Type}

def BlockKind.type : BlockKind C F → BlockType
  | .root _ => .root
  | .asset _ _ _ => .asset
  | .group _ => .group
  | .weight _ _ _ _ => .weight
  | .ifBlock _ _ => .ifType
  | .elseBlock _ => .elseType
  | .filter _ _ => .filter

def Block.type (b : Block C F) : BlockType := b.kind.type

/-- `hasChildren`. -/
def Block.hasChildren (b : Block C F) : Bool := b.type ≠ .asset

namespace StrategyTree

/-- The block is in the tree and lists the child. -/
def Lists (t : StrategyTree C F) (parent child : BlockId) : Prop :=
  ∃ b, t.blocks parent = some b ∧ child ∈ b.childIds

/-- Every block but the root is listed once, by its parent, which is higher; an else block
names a sibling that is an if block, and the allocations are to children. -/
structure WellFormed (t : StrategyTree C F) : Prop where
  root : ∃ b, t.blocks t.rootId = some b ∧ b.type = .root ∧ b.parentId = none
  ids : ∀ i b, t.blocks i = some b → b.id = i
  parent : ∀ i b, t.blocks i = some b → i ≠ t.rootId →
    ∃ p, b.parentId = some p ∧ t.Lists p i
  child : ∀ p c, t.Lists p c → ∃ b, t.blocks c = some b ∧ b.parentId = some p
  nodup : ∀ i b, t.blocks i = some b → b.childIds.Nodup
  leaf : ∀ i b, t.blocks i = some b → b.type = .asset → b.childIds = []
  elseBlock : ∀ i b ifBlockId, t.blocks i = some b → b.kind = .elseBlock ifBlockId →
    ∃ sibling, t.blocks ifBlockId = some sibling ∧ sibling.type = .ifType ∧
      sibling.parentId = b.parentId
  allocations : ∀ i b method lookbackDays top allocations, t.blocks i = some b →
    b.kind = .weight method lookbackDays top allocations →
      ∀ key, (allocations key).isSome → key ∈ b.childIds
  heights : ∃ (height : BlockId → ℕ) (bound : ℕ),
    (∀ i b, t.blocks i = some b → height i ≤ bound) ∧ ∀ p c, t.Lists p c → height c < height p

namespace WellFormed

variable {t : StrategyTree C F}

/-- A child has one parent. -/
theorem parent_unique (h : t.WellFormed) {p q c : BlockId} (hp : t.Lists p c) (hq : t.Lists q c) :
    p = q := by
  obtain ⟨b, hb, hparent⟩ := h.child p c hp
  obtain ⟨b', hb', hparent'⟩ := h.child q c hq
  cases hb.symm.trans hb'
  exact Option.some.inj (hparent.symm.trans hparent')

theorem not_lists_root (h : t.WellFormed) (p : BlockId) : ¬t.Lists p t.rootId := by
  intro hlists
  obtain ⟨b, hb, -, hnone⟩ := h.root
  obtain ⟨b', hb', hsome⟩ := h.child p _ hlists
  cases hb.symm.trans hb'
  exact nomatch hnone.symm.trans hsome

/-- What holds of the root and of the children of every block it holds of, holds of every block. -/
theorem induction (h : t.WellFormed) {P : BlockId → Prop} (hroot : P t.rootId)
    (hchild : ∀ p c, P p → t.Lists p c → P c) : ∀ i b, t.blocks i = some b → P i := by
  obtain ⟨height, bound, hbound, hheight⟩ := h.heights
  intro i
  induction hd : bound - height i using Nat.strong_induction_on generalizing i with
  | _ d ih =>
    intro b hb
    by_cases heq : i = t.rootId
    · rwa [heq]
    · obtain ⟨p, -, hlists⟩ := h.parent i b hb heq
      have hhigher := hheight p i hlists
      obtain ⟨pb, hpb, -⟩ := id hlists
      have hle := hbound p pb hpb
      exact hchild p i (ih (bound - height p) (by omega) p rfl pb hpb) hlists

end WellFormed

end StrategyTree

/-- A tree that is a root only. -/
def rootTree (rootId : BlockId) (name : String) : StrategyTree C F :=
  ⟨rootId, fun i => if i = rootId then some ⟨rootId, none, [], .root name⟩ else none⟩

theorem rootTree_blocks {rootId i : BlockId} {name : String} {b : Block C F}
    (h : (rootTree rootId name).blocks i = some b) :
    i = rootId ∧ b = ⟨rootId, none, [], .root name⟩ := by
  simp only [rootTree] at h
  split at h
  · next heq => exact ⟨heq, (Option.some.inj h).symm⟩
  · cases h

theorem rootTree_wellFormed (rootId : BlockId) (name : String) :
    (rootTree rootId name : StrategyTree C F).WellFormed where
  root := ⟨_, if_pos rfl, rfl, rfl⟩
  ids i b hb := by
    obtain ⟨rfl, rfl⟩ := rootTree_blocks hb
    rfl
  parent i b hb hi := absurd (rootTree_blocks hb).1 hi
  child p c hlists := by
    obtain ⟨b, hb, hc⟩ := hlists
    rw [(rootTree_blocks hb).2] at hc
    exact absurd hc List.not_mem_nil
  nodup i b hb := by
    rw [(rootTree_blocks hb).2]
    exact List.nodup_nil
  leaf i b hb _ := by rw [(rootTree_blocks hb).2]
  elseBlock i b j hb hkind := by
    rw [(rootTree_blocks hb).2] at hkind
    cases hkind
  allocations i b method lookbackDays top allocations hb hkind := by
    rw [(rootTree_blocks hb).2] at hkind
    cases hkind
  heights := by
    refine ⟨fun _ => 0, 0, fun _ _ _ => le_rfl, fun p c hlists => ?_⟩
    obtain ⟨b, hb, hc⟩ := hlists
    rw [(rootTree_blocks hb).2] at hc
    exact absurd hc List.not_mem_nil

end Trees

end LlamaTrade.Builder
