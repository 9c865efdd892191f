import LlamaTrade.BuilderEdits
import Mathlib.Data.Set.Function

/-!
# Reconciled trees

`reconcileIds` (`store/strategy-builder.ts`) walks the old and the new tree of the builder side by
side and gives a block of the new tree the id of the old block that it faces, if the two have one
type. The walk is a renaming of the new tree: `outId`. The number is the depth of the stack.
-/

namespace LlamaTrade.Builder

section Reconciling

variable {C F : Type}

/-- What the walk writes: the blocks by their final ids, and the final ids by the new ones. -/
structure Reconciled (C F : Type) where
  outBlocks : BlockId → Option (Block C F)
  newToOut : BlockId → Option BlockId

/-- `newToOut.set`. -/
def Reconciled.setOut (s : Reconciled C F) (newId outId : BlockId) : Reconciled C F :=
  { s with newToOut := Function.update s.newToOut newId (some outId) }

/-- `outBlocks[clone.id] = clone`. -/
def Reconciled.setBlock (s : Reconciled C F) (clone : Block C F) : Reconciled C F :=
  { s with outBlocks := Function.update s.outBlocks clone.id (some clone) }

theorem setOut_newToOut (s : Reconciled C F) (i x j : BlockId) :
    (s.setOut i x).newToOut j = if j = i then some x else s.newToOut j :=
  Function.update_apply ..

theorem setBlock_outBlocks (s : Reconciled C F) (b : Block C F) (x : BlockId) :
    (s.setBlock b).outBlocks x = if x = b.id then some b else s.outBlocks x :=
  Function.update_apply ..

/-- The loop over the children, with the old child of the same index. -/
def walkChildren (visit : Option BlockId → BlockId → Reconciled C F →
    Option (BlockId × Reconciled C F)) :
    List BlockId → List BlockId → Reconciled C F → Option (List BlockId × Reconciled C F)
  | _, [], s => some ([], s)
  | olds, c :: news, s => do
    let (outId, s) ← visit olds.head? c s
    let (outIds, s) ← walkChildren visit olds.tail news s
    return (outId :: outIds, s)

/-- `remapped`: the allocations of the new children under their final ids; an absent one is zero. -/
def remapped (allocations : BlockId → Option ℚ) (newIds outIds : List BlockId) :
    BlockId → Option ℚ :=
  (newIds.zip outIds).foldl
    (fun acc ids => Function.update acc ids.2 (some ((allocations ids.1).getD 0))) fun _ => none

def remapKind (newIds outIds : List BlockId) : BlockKind C F → BlockKind C F
  | .weight method lookbackDays top allocations =>
    .weight method lookbackDays top (remapped allocations newIds outIds)
  | kind => kind

/-- The old block that a block of the new tree faces, if it has the same type. -/
def reused (old : StrategyTree C F) (oldId : Option BlockId) (nb : Block C F) :
    Option (BlockId × Block C F) :=
  oldId.bind fun o => (old.blocks o).bind fun ob => if ob.type = nb.type then some (o, ob) else none

def walk (old new : StrategyTree C F) :
    ℕ → Option BlockId → Option BlockId → BlockId → Reconciled C F →
      Option (BlockId × Reconciled C F)
  | 0, _, _, _, _ => none
  | fuel + 1, parentId, oldId, newId, s =>
    (new.blocks newId).bind fun nb => do
      let reuse := reused old oldId nb
      let outId := (reuse.map (·.1)).getD newId
      let oldChildIds := (reuse.map (·.2.childIds)).getD []
      let (outChildIds, s) ←
        walkChildren (walk old new fuel (some outId)) oldChildIds nb.childIds (s.setOut newId outId)
      return (outId,
        s.setBlock ⟨outId, parentId, outChildIds, remapKind nb.childIds outChildIds nb.kind⟩)

/-- The link of an else block onto the final ids. -/
def remapElse (newToOut : BlockId → Option BlockId) (b : Block C F) : Block C F :=
  match b.kind with
  | .elseBlock ifBlockId => { b with kind := .elseBlock ((newToOut ifBlockId).getD ifBlockId) }
  | _ => b

/-- `reconcileIds`. -/
def reconcileIds (fuel : ℕ) (old new : StrategyTree C F) : Option (StrategyTree C F) :=
  (walk old new fuel none (some old.rootId) new.rootId ⟨fun _ => none, fun _ => none⟩).map fun r =>
    ⟨r.1, fun i => (r.2.outBlocks i).map (remapElse r.2.newToOut)⟩

/-! ## The renaming -/

/-- The old tree has a block at the path of the new one, with the same types along the path. -/
inductive Matched (old new : StrategyTree C F) : BlockId → BlockId → Prop
  | root {ob nb : Block C F} : old.blocks old.rootId = some ob → new.blocks new.rootId = some nb →
      ob.type = nb.type → Matched old new old.rootId new.rootId
  | child {o i oc ic : BlockId} {ob nb oldChild newChild : Block C F} {k : ℕ} :
      Matched old new o i → old.blocks o = some ob → new.blocks i = some nb →
      ob.childIds[k]? = some oc → nb.childIds[k]? = some ic →
      old.blocks oc = some oldChild → new.blocks ic = some newChild →
      oldChild.type = newChild.type → Matched old new oc ic

theorem Matched.symm {old new : StrategyTree C F} {o i : BlockId} (h : Matched old new o i) :
    Matched new old i o := by
  induction h with
  | root hold hnew htype => exact .root hnew hold htype.symm
  | child _ hold hnew holdChild hnewChild hoc hic htype ih =>
    exact .child ih hnew hold hnewChild holdChild hic hoc htype.symm

/-- What a matched child says about the match of its parent. -/
theorem Matched.parent {old new : StrategyTree C F} (hnew : new.WellFormed) {o p c : BlockId}
    {nb : Block C F} {k : ℕ} (h : Matched old new o c) (hp : new.blocks p = some nb)
    (hc : nb.childIds[k]? = some c) :
    ∃ op ob, Matched old new op p ∧ old.blocks op = some ob ∧ ob.childIds[k]? = some o := by
  have hlists : new.Lists p c := ⟨nb, hp, List.mem_of_getElem? hc⟩
  cases h with
  | root => exact absurd hlists (hnew.not_lists_root p)
  | @child op i _ _ ob nb' _ _ k' hmatch hold hnb holdChild hnewChild =>
    obtain rfl := hnew.parent_unique hlists ⟨nb', hnb, List.mem_of_getElem? hnewChild⟩
    cases hp.symm.trans hnb
    have hnodup := hnew.nodup p nb hp
    obtain ⟨hk, hck⟩ := List.getElem?_eq_some_iff.mp hc
    obtain ⟨hk', hck'⟩ := List.getElem?_eq_some_iff.mp hnewChild
    have hsame : k = k' := (hnodup.getElem_inj_iff).mp (hck.trans hck'.symm)
    exact ⟨op, ob, hmatch, hold, hsame ▸ holdChild⟩

theorem Matched.unique {old new : StrategyTree C F} (hnew : new.WellFormed) {o o' i : BlockId}
    (h : Matched old new o i) (h' : Matched old new o' i) : o = o' := by
  induction h generalizing o' with
  | root hold hroot htype =>
    generalize hi : new.rootId = i at h'
    cases h' with
    | root => rfl
    | child _ _ hnb _ hnewChild =>
      exact absurd ⟨_, hnb, List.mem_of_getElem? hnewChild⟩ (hi ▸ hnew.not_lists_root _)
  | child _ hold hnb holdChild hnewChild _ _ _ ih =>
    obtain ⟨op, ob, hmatch, hop, hoc⟩ := h'.parent hnew hnb hnewChild
    obtain rfl := ih hmatch
    cases hold.symm.trans hop
    exact Option.some.inj (holdChild.symm.trans hoc)

section Walk

variable (old new : StrategyTree C F)

open Classical in
/-- The final id of a block of the new tree. -/
noncomputable def outId (i : BlockId) : BlockId :=
  if h : ∃ o, Matched old new o i then h.choose else i

variable {old new}

theorem outId_of_matched (hnew : new.WellFormed) {o i : BlockId} (h : Matched old new o i) :
    outId old new i = o := by
  have hex : ∃ o, Matched old new o i := ⟨o, h⟩
  rw [outId, dif_pos hex]
  exact hex.choose_spec.unique hnew h

theorem outId_of_not_matched {i : BlockId} (h : ¬∃ o, Matched old new o i) :
    outId old new i = i := by
  rw [outId, dif_neg h]

theorem Matched.exists_old {o i : BlockId} (h : Matched old new o i) :
    ∃ ob, old.blocks o = some ob := by
  cases h with
  | root hold => exact ⟨_, hold⟩
  | child _ _ _ _ _ hold => exact ⟨_, hold⟩

/-- Different blocks of the new tree get different ids. -/
theorem outId_injOn (hold : old.WellFormed) (hnew : new.WellFormed)
    (hdisjoint : ∀ i, (old.blocks i).isSome → new.blocks i = none) :
    Set.InjOn (outId old new) {i | (new.blocks i).isSome} := by
  have hfresh : ∀ {o i j}, Matched old new o i → (new.blocks j).isSome → o ≠ j := by
    rintro o i j hmatch hj rfl
    obtain ⟨ob, hob⟩ := hmatch.exists_old
    rw [hdisjoint o (by simp [hob])] at hj
    cases hj
  intro i hi j hj hsame
  by_cases hmi : ∃ o, Matched old new o i
  · obtain ⟨o, hmi⟩ := hmi
    rw [outId_of_matched hnew hmi] at hsame
    by_cases hmj : ∃ o, Matched old new o j
    · obtain ⟨o', hmj⟩ := hmj
      rw [outId_of_matched hnew hmj] at hsame
      exact hmi.symm.unique hold (hsame ▸ hmj.symm)
    · rw [outId_of_not_matched hmj] at hsame
      exact absurd hsame (hfresh hmi hj)
  · rw [outId_of_not_matched hmi] at hsame
    by_cases hmj : ∃ o, Matched old new o j
    · obtain ⟨o', hmj⟩ := hmj
      rw [outId_of_matched hnew hmj] at hsame
      exact absurd hsame.symm (hfresh hmj hi)
    · rwa [outId_of_not_matched hmj] at hsame

/-! ## The walk -/

variable (old new) in
/-- A block of the new tree as the walk leaves it. -/
noncomputable def cloneOf (nb : Block C F) : Block C F :=
  ⟨outId old new nb.id, nb.parentId.map (outId old new), nb.childIds.map (outId old new),
    remapKind nb.childIds (nb.childIds.map (outId old new)) nb.kind⟩

variable (old new) in
/-- Everything that is written is as it has to be. -/
structure Good (s : Reconciled C F) : Prop where
  blocks : ∀ x b, s.outBlocks x = some b →
    ∃ i nb, new.blocks i = some nb ∧ x = outId old new i ∧ b = cloneOf old new nb
  ids : ∀ i x, s.newToOut i = some x → x = outId old new i

/-- What is written stays written. -/
structure Grows (s s' : Reconciled C F) : Prop where
  blocks : ∀ x, (s.outBlocks x).isSome → (s'.outBlocks x).isSome
  ids : ∀ i, (s.newToOut i).isSome → (s'.newToOut i).isSome

theorem Grows.trans {s s' s'' : Reconciled C F} (h : Grows s s') (h' : Grows s' s'') :
    Grows s s'' :=
  ⟨fun x hx => h'.blocks x (h.blocks x hx), fun i hi => h'.ids i (h.ids i hi)⟩

variable (old new) in
def Visited (s : Reconciled C F) (i : BlockId) : Prop :=
  (s.outBlocks (outId old new i)).isSome ∧ (s.newToOut i).isSome

theorem Visited.grows {s s' : Reconciled C F} {i : BlockId} (h : Visited old new s i)
    (hgrows : Grows s s') : Visited old new s' i :=
  ⟨hgrows.blocks _ h.1, hgrows.ids _ h.2⟩

variable (old new) in
/-- The walk below a block: it writes what has to be written there. -/
def Covers (s s' : Reconciled C F) (i : BlockId) : Prop :=
  Good old new s' ∧ Grows s s' ∧ ∀ j, Relation.ReflTransGen new.Lists i j → Visited old new s' j

variable (old new) in
/-- The old id is the one that the new block faces. -/
def Faces (oldId : Option BlockId) (newId : BlockId) (nb : Block C F) : Prop :=
  ∀ o, Matched old new o newId ↔
    ∃ ob, oldId = some o ∧ old.blocks o = some ob ∧ ob.type = nb.type

theorem reused_eq_some {oldId : Option BlockId} {nb ob : Block C F} {o : BlockId} :
    reused old oldId nb = some (o, ob) ↔
      oldId = some o ∧ old.blocks o = some ob ∧ ob.type = nb.type := by
  cases oldId with
  | none => simp [reused]
  | some o' =>
    rw [reused, Option.bind_some]
    cases hob : old.blocks o' with
    | none =>
      simp only [Option.bind_none, reduceCtorEq, false_iff, not_and]
      rintro ⟨⟩ hsome
      exact nomatch hob.symm.trans hsome
    | some ob' =>
      rw [Option.bind_some]
      by_cases htype : ob'.type = nb.type
      · rw [if_pos htype]
        constructor
        · rintro ⟨⟩
          exact ⟨rfl, hob, htype⟩
        · rintro ⟨⟨⟩, hsome, -⟩
          cases hob.symm.trans hsome
          rfl
      · rw [if_neg htype]
        simp only [reduceCtorEq, false_iff, not_and]
        rintro ⟨⟩ hsome htype'
        cases hob.symm.trans hsome
        exact htype htype'

theorem Faces.outId_eq (hnew : new.WellFormed) {oldId : Option BlockId} {newId : BlockId}
    {nb : Block C F} (h : Faces old new oldId newId nb) :
    ((reused old oldId nb).map (·.1)).getD newId = outId old new newId := by
  cases hreuse : reused old oldId nb with
  | none =>
    refine (outId_of_not_matched ?_).symm
    rintro ⟨o, hmatch⟩
    obtain ⟨ob, hface⟩ := (h o).mp hmatch
    exact nomatch hreuse.symm.trans (reused_eq_some.mpr hface)
  | some pair =>
    obtain ⟨o, ob⟩ := pair
    exact (outId_of_matched hnew ((h o).mpr ⟨ob, reused_eq_some.mp hreuse⟩)).symm

/-- The children face the old children of the same index. -/
theorem Faces.child (hnew : new.WellFormed) {oldId : Option BlockId} {newId c : BlockId}
    {nb cb : Block C F} {k : ℕ} (h : Faces old new oldId newId nb)
    (hnb : new.blocks newId = some nb) (hc : nb.childIds[k]? = some c)
    (hcb : new.blocks c = some cb) (hold : ∀ o ob oc, old.blocks o = some ob →
      ob.childIds[k]? = some oc → ∃ b, old.blocks oc = some b) :
    Faces old new (((reused old oldId nb).map (·.2.childIds)).getD [])[k]? c cb := by
  intro o
  constructor
  · intro hmatch
    obtain ⟨op, ob, hparent, hob, hoc⟩ := hmatch.parent hnew hnb hc
    obtain ⟨ob', hface⟩ := (h op).mp hparent
    cases hob.symm.trans hface.2.1
    obtain ⟨oldChild, holdChild⟩ := hold op ob o hob hoc
    refine ⟨oldChild, ?_, holdChild, ?_⟩
    · rw [reused_eq_some.mpr hface]
      exact hoc
    · cases hmatch with
      | root hroot hroot' htype =>
        cases holdChild.symm.trans hroot
        cases hcb.symm.trans hroot'
        exact htype
      | child _ _ _ _ _ hoc' hic' htype =>
        cases holdChild.symm.trans hoc'
        cases hcb.symm.trans hic'
        exact htype
  · rintro ⟨oldChild, hoc, holdChild, htype⟩
    cases hreuse : reused old oldId nb with
    | none => simp [hreuse] at hoc
    | some pair =>
      obtain ⟨op, ob⟩ := pair
      have hface := reused_eq_some.mp hreuse
      rw [hreuse] at hoc
      exact .child ((h op).mpr ⟨ob, hface⟩) hface.2.1 hnb hoc hc holdChild hcb htype

theorem Good.setOut {s : Reconciled C F} (h : Good old new s) (i : BlockId) :
    Good old new (s.setOut i (outId old new i)) := by
  refine ⟨h.blocks, fun j x hx => ?_⟩
  rw [setOut_newToOut] at hx
  split at hx
  · next heq => rw [heq, Option.some.inj hx]
  · exact h.ids j x hx

theorem Good.setBlock {s : Reconciled C F} (h : Good old new s) (hnew : new.WellFormed)
    {i : BlockId} {nb : Block C F} (hnb : new.blocks i = some nb) :
    Good old new (s.setBlock (cloneOf old new nb)) := by
  refine ⟨fun x b hb => ?_, h.ids⟩
  rw [setBlock_outBlocks] at hb
  split at hb
  · next heq =>
    refine ⟨i, nb, hnb, ?_, (Option.some.inj hb).symm⟩
    rw [heq, cloneOf, hnew.ids i nb hnb]
  · exact h.blocks x b hb

theorem grows_setOut (s : Reconciled C F) (i x : BlockId) : Grows s (s.setOut i x) := by
  refine ⟨fun _ h => h, fun j hj => ?_⟩
  rw [setOut_newToOut]
  split
  · rfl
  · exact hj

theorem grows_setBlock (s : Reconciled C F) (b : Block C F) : Grows s (s.setBlock b) := by
  refine ⟨fun x hx => ?_, fun _ h => h⟩
  rw [setBlock_outBlocks]
  split
  · rfl
  · exact hx

theorem walkChildren_spec {visit : Option BlockId → BlockId → Reconciled C F →
      Option (BlockId × Reconciled C F)} {olds news : List BlockId} {s : Reconciled C F}
    (hvisit : ∀ (k : ℕ) (c : BlockId), news[k]? = some c → ∀ s, Good old new s →
      ∃ s', visit olds[k]? c s = some (outId old new c, s') ∧ Covers old new s s' c)
    (hs : Good old new s) :
    ∃ s', walkChildren visit olds news s = some (news.map (outId old new), s') ∧
      Good old new s' ∧ Grows s s' ∧
      ∀ c ∈ news, ∀ j, Relation.ReflTransGen new.Lists c j → Visited old new s' j := by
  induction news generalizing olds s with
  | nil => exact ⟨s, rfl, hs, ⟨fun _ h => h, fun _ h => h⟩, fun c hc => absurd hc List.not_mem_nil⟩
  | cons c news ih =>
    obtain ⟨s₁, hfirst, hgood₁, hgrows₁, hvisited₁⟩ := hvisit 0 c rfl s hs
    have hnext : ∀ (k : ℕ) (c : BlockId), news[k]? = some c → ∀ s, Good old new s →
        ∃ s', visit olds.tail[k]? c s = some (outId old new c, s') ∧ Covers old new s s' c := by
      intro k c hc s hs
      obtain ⟨s', hvisit'⟩ := hvisit (k + 1) c hc s hs
      rw [List.getElem?_tail]
      exact ⟨s', hvisit'⟩
    obtain ⟨s₂, hrest, hgood₂, hgrows₂, hvisited₂⟩ := ih hnext hgood₁
    refine ⟨s₂, ?_, hgood₂, hgrows₁.trans hgrows₂, fun c' hc' j hj => ?_⟩
    · rw [← List.head?_eq_getElem?] at hfirst
      simp [walkChildren, hfirst, hrest]
    · obtain rfl | hc' := List.mem_cons.mp hc'
      · exact (hvisited₁ j hj).grows hgrows₂
      · exact hvisited₂ c' hc' j hj

/-- With enough stack the walk reaches every block below, and renames it. -/
theorem walk_spec (hold : old.WellFormed) (hnew : new.WellFormed) {height : BlockId → ℕ}
    (hheight : ∀ p c, new.Lists p c → height c < height p) {fuel : ℕ}
    {oldId : Option BlockId} {newId : BlockId} {nb : Block C F} {s : Reconciled C F}
    (hnb : new.blocks newId = some nb) (hface : Faces old new oldId newId nb)
    (hfuel : height newId < fuel) (hs : Good old new s) :
    ∃ s', walk old new fuel (nb.parentId.map (outId old new)) oldId newId s =
      some (outId old new newId, s') ∧ Covers old new s s' newId := by
  induction fuel generalizing oldId newId nb s with
  | zero => exact absurd hfuel (Nat.not_lt_zero _)
  | succ fuel ih =>
    have hid := hnew.ids newId nb hnb
    have holdChild : ∀ o ob oc (k : ℕ), old.blocks o = some ob → ob.childIds[k]? = some oc →
        ∃ b, old.blocks oc = some b := by
      intro o ob oc k hob hoc
      obtain ⟨b, hb, -⟩ := hold.child o oc ⟨ob, hob, List.mem_of_getElem? hoc⟩
      exact ⟨b, hb⟩
    have hvisit : ∀ (k : ℕ) (c : BlockId), nb.childIds[k]? = some c → ∀ s, Good old new s →
        ∃ s', walk old new fuel (some (outId old new newId))
          (((reused old oldId nb).map (·.2.childIds)).getD [])[k]? c s =
            some (outId old new c, s') ∧ Covers old new s s' c := by
      intro k c hc s hs
      have hlists : new.Lists newId c := ⟨nb, hnb, List.mem_of_getElem? hc⟩
      obtain ⟨cb, hcb, hparent⟩ := hnew.child newId c hlists
      have hlower := hheight newId c hlists
      have hwalk := ih hcb (hface.child hnew hnb hc hcb fun o ob oc => holdChild o ob oc k)
        (by omega) hs
      rw [hparent] at hwalk
      exact hwalk
    obtain ⟨s₂, hchildren, hgood₂, hgrows₂, hvisited₂⟩ :=
      walkChildren_spec hvisit (hs.setOut newId)
    refine ⟨s₂.setBlock (cloneOf old new nb), ?_, hgood₂.setBlock hnew hnb, ?_, fun j hj => ?_⟩
    · rw [walk, hnb, Option.bind_some]
      simp only [hface.outId_eq hnew, hchildren, Option.bind_eq_bind, Option.bind_some, cloneOf, hid]
      rfl
    · exact ((grows_setOut s _ _).trans hgrows₂).trans (grows_setBlock _ _)
    · obtain rfl | ⟨c, ⟨b, hb, hc⟩, hj⟩ := hj.cases_head
      · refine ⟨?_, (grows_setBlock _ _).ids _ (hgrows₂.ids _ ?_)⟩
        · rw [setBlock_outBlocks, cloneOf, hid, if_pos rfl]
          rfl
        · rw [setOut_newToOut, if_pos rfl]
          rfl
      · cases hnb.symm.trans hb
        exact (hvisited₂ c hc j hj).grows (grows_setBlock _ _)

end Walk

/-! ## Renamed trees -/

/-- The fields of a block under new ids. Allocations are compared with an absent one read as zero. -/
inductive RenamedKind (f : BlockId → BlockId) (childIds : List BlockId) :
    BlockKind C F → BlockKind C F → Prop
  | root (name : String) : RenamedKind f childIds (.root name) (.root name)
  | asset (symbol exchange displayName : String) :
      RenamedKind f childIds (.asset symbol exchange displayName) (.asset symbol exchange displayName)
  | group (name : String) : RenamedKind f childIds (.group name) (.group name)
  | weight (method : String) (lookbackDays top : Option ℚ) {allocations out : BlockId → Option ℚ} :
      (∀ c ∈ childIds, (out (f c)).getD 0 = (allocations c).getD 0) →
      (∀ key, (out key).isSome → key ∈ childIds.map f) →
        RenamedKind f childIds (.weight method lookbackDays top allocations)
          (.weight method lookbackDays top out)
  | ifBlock (condition : C) (conditionText : String) :
      RenamedKind f childIds (.ifBlock condition conditionText) (.ifBlock condition conditionText)
  | elseBlock (ifBlockId : BlockId) :
      RenamedKind f childIds (.elseBlock ifBlockId) (.elseBlock (f ifBlockId))
  | filter (config : F) (displayText : String) :
      RenamedKind f childIds (.filter config displayText) (.filter config displayText)

structure Renamed (f : BlockId → BlockId) (nb b : Block C F) : Prop where
  id : b.id = f nb.id
  parentId : b.parentId = nb.parentId.map f
  childIds : b.childIds = nb.childIds.map f
  kind : RenamedKind f nb.childIds nb.kind b.kind

/-- One tree is the other one under new ids, which are pairwise distinct. -/
structure Renaming (f : BlockId → BlockId) (new out : StrategyTree C F) : Prop where
  injOn : Set.InjOn f {i | (new.blocks i).isSome}
  rootId : out.rootId = f new.rootId
  blocks : ∀ i nb, new.blocks i = some nb → ∃ b, out.blocks (f i) = some b ∧ Renamed f nb b
  only : ∀ x b, out.blocks x = some b → ∃ i, (new.blocks i).isSome ∧ f i = x

section Renamed

variable {f : BlockId → BlockId} {new out : StrategyTree C F} {nb b : Block C F}

theorem Renamed.type_eq (h : Renamed f nb b) : b.type = nb.type := by
  obtain ⟨-, -, -, hkind⟩ := h
  unfold Block.type
  generalize nb.kind = kind at hkind
  generalize b.kind = kind' at hkind
  cases hkind <;> rfl

/-- Every block of the renamed tree comes from one of the other tree. -/
theorem Renaming.source (h : Renaming f new out) {x : BlockId} (hb : out.blocks x = some b) :
    ∃ i nb, x = f i ∧ new.blocks i = some nb ∧ Renamed f nb b := by
  obtain ⟨i, hi, rfl⟩ := h.only x b hb
  obtain ⟨nb, hnb⟩ := Option.isSome_iff_exists.mp hi
  obtain ⟨b', hb', hrenamed⟩ := h.blocks i nb hnb
  cases hb.symm.trans hb'
  exact ⟨i, nb, rfl, hnb, hrenamed⟩

theorem Renaming.lists (h : Renaming f new out) {p c : BlockId} (hlists : new.Lists p c) :
    out.Lists (f p) (f c) := by
  obtain ⟨pb, hpb, hc⟩ := hlists
  obtain ⟨pb', hpb', hrenamed⟩ := h.blocks p pb hpb
  exact ⟨pb', hpb', hrenamed.childIds ▸ List.mem_map_of_mem hc⟩

theorem Renaming.lists_source (h : Renaming f new out) {p x : BlockId} (hlists : out.Lists p x) :
    ∃ i c, p = f i ∧ x = f c ∧ new.Lists i c := by
  obtain ⟨pb, hpb, hx⟩ := hlists
  obtain ⟨i, nb, rfl, hnb, hrenamed⟩ := h.source hpb
  rw [hrenamed.childIds] at hx
  obtain ⟨c, hc, rfl⟩ := List.mem_map.mp hx
  exact ⟨i, c, rfl, rfl, nb, hnb, hc⟩

theorem Renaming.heights (h : Renaming f new out) (hnew : new.WellFormed) :
    ∃ (height : BlockId → ℕ) (bound : ℕ), (∀ x b, out.blocks x = some b → height x ≤ bound) ∧
      ∀ p c, out.Lists p c → height c < height p := by
  obtain ⟨height, bound, hbound, hheight⟩ := hnew.heights
  have : Nonempty BlockId := ⟨new.rootId⟩
  have hinverse : ∀ i nb, new.blocks i = some nb →
      Function.invFunOn f {i | (new.blocks i).isSome} (f i) = i := fun i nb hnb =>
    h.injOn.leftInvOn_invFunOn (show (new.blocks i).isSome by simp [hnb])
  refine ⟨height ∘ Function.invFunOn f {i | (new.blocks i).isSome}, bound, fun x b hb => ?_,
    fun p x hlists => ?_⟩
  · obtain ⟨i, nb, rfl, hnb, -⟩ := h.source hb
    rw [Function.comp_apply, hinverse i nb hnb]
    exact hbound i nb hnb
  · obtain ⟨i, c, rfl, rfl, hsource⟩ := h.lists_source hlists
    obtain ⟨nb, hnb, -⟩ := id hsource
    obtain ⟨cb, hcb, -⟩ := hnew.child i c hsource
    rw [Function.comp_apply, Function.comp_apply, hinverse i nb hnb, hinverse c cb hcb]
    exact hheight i c hsource

/-- A renamed tree is as well formed as the other one. -/
theorem Renaming.wellFormed (h : Renaming f new out) (hnew : new.WellFormed) : out.WellFormed where
  root := by
    obtain ⟨nb, hnb, htype, hparent⟩ := hnew.root
    obtain ⟨b, hb, hrenamed⟩ := h.blocks _ nb hnb
    refine ⟨b, h.rootId ▸ hb, hrenamed.type_eq.trans htype, ?_⟩
    rw [hrenamed.parentId, hparent]
    rfl
  ids x b hb := by
    obtain ⟨i, nb, rfl, hnb, hrenamed⟩ := h.source hb
    rw [hrenamed.id, hnew.ids i nb hnb]
  parent x b hb hx := by
    obtain ⟨i, nb, rfl, hnb, hrenamed⟩ := h.source hb
    have hi : i ≠ new.rootId := by
      rintro rfl
      exact hx h.rootId.symm
    obtain ⟨p, hp, hlists⟩ := hnew.parent i nb hnb hi
    refine ⟨f p, ?_, h.lists hlists⟩
    rw [hrenamed.parentId, hp]
    rfl
  child p x hlists := by
    obtain ⟨i, c, rfl, rfl, hsource⟩ := h.lists_source hlists
    obtain ⟨cb, hcb, hparent⟩ := hnew.child i c hsource
    obtain ⟨b, hb, hrenamed⟩ := h.blocks c cb hcb
    refine ⟨b, hb, ?_⟩
    rw [hrenamed.parentId, hparent]
    rfl
  nodup x b hb := by
    obtain ⟨i, nb, rfl, hnb, hrenamed⟩ := h.source hb
    rw [hrenamed.childIds]
    refine (hnew.nodup i nb hnb).map_on fun c hc c' hc' hsame => h.injOn ?_ ?_ hsame
    · obtain ⟨cb, hcb, -⟩ := hnew.child i c ⟨nb, hnb, hc⟩
      simp [hcb]
    · obtain ⟨cb, hcb, -⟩ := hnew.child i c' ⟨nb, hnb, hc'⟩
      simp [hcb]
  leaf x b hb htype := by
    obtain ⟨i, nb, rfl, hnb, hrenamed⟩ := h.source hb
    rw [hrenamed.childIds, hnew.leaf i nb hnb (hrenamed.type_eq.symm.trans htype)]
    rfl
  elseBlock x b ifBlockId hb hkind := by
    obtain ⟨i, nb, rfl, hnb, hrenamed⟩ := h.source hb
    have hrenamedKind := hrenamed.kind
    rw [hkind] at hrenamedKind
    generalize hnbKind : nb.kind = kind at hrenamedKind
    cases hrenamedKind with
    | elseBlock j =>
      obtain ⟨sibling, hsibling, htype, hparent⟩ := hnew.elseBlock i nb j hnb hnbKind
      obtain ⟨sb, hsb, hsrenamed⟩ := h.blocks j sibling hsibling
      refine ⟨sb, hsb, hsrenamed.type_eq.trans htype, ?_⟩
      rw [hsrenamed.parentId, hparent, hrenamed.parentId]
  allocations x b method lookbackDays top allocations hb hkind key hkey := by
    obtain ⟨i, nb, rfl, hnb, hrenamed⟩ := h.source hb
    have hrenamedKind := hrenamed.kind
    rw [hkind] at hrenamedKind
    generalize nb.kind = kind at hrenamedKind
    cases hrenamedKind with
    | weight _ _ _ _ hkeys =>
      rw [hrenamed.childIds]
      exact hkeys key hkey
  heights := h.heights hnew

end Renamed

/-! ## The result -/

theorem foldl_update_of_not_mem {f : BlockId → BlockId} {g : BlockId → ℚ} {ids : List BlockId}
    {key : BlockId} (h : key ∉ ids.map f) (acc : BlockId → Option ℚ) :
    ids.foldl (fun acc c => Function.update acc (f c) (some (g c))) acc key = acc key := by
  induction ids generalizing acc with
  | nil => rfl
  | cons c ids ih =>
    rw [List.map_cons, List.mem_cons, not_or] at h
    rw [List.foldl_cons, ih h.2, Function.update_of_ne h.1]

theorem foldl_update_of_mem {f : BlockId → BlockId} {g : BlockId → ℚ} {ids : List BlockId}
    {c : BlockId} (hc : c ∈ ids) (hf : ∀ d ∈ ids, f d = f c → d = c) (acc : BlockId → Option ℚ) :
    ids.foldl (fun acc c => Function.update acc (f c) (some (g c))) acc (f c) = some (g c) := by
  induction ids generalizing acc with
  | nil => exact absurd hc List.not_mem_nil
  | cons d ids ih =>
    obtain ⟨-, hids⟩ := List.forall_mem_cons.mp hf
    rw [List.foldl_cons]
    by_cases hmem : c ∈ ids
    · exact ih hmem hids _
    · obtain rfl | hmem' := List.mem_cons.mp hc
      · rw [foldl_update_of_not_mem, Function.update_self]
        intro hsame
        obtain ⟨d, hd, hdc⟩ := List.mem_map.mp hsame
        exact hmem (hids d hd hdc ▸ hd)
      · exact absurd hmem' hmem

theorem remapped_eq (allocations : BlockId → Option ℚ) (f : BlockId → BlockId)
    (ids : List BlockId) : remapped allocations ids (ids.map f) =
      ids.foldl (fun acc c => Function.update acc (f c) (some ((allocations c).getD 0)))
        fun _ => none := by
  have hzip : ids.zip (ids.map f) = ids.map fun c => (c, f c) := by
    simpa using List.zip_map' (f := id) (g := f) (l := ids)
  rw [remapped, hzip, List.foldl_map]

/-- A block of the new tree after the walk and the pass over the else blocks is renamed. -/
theorem renamed_cloneOf {old new : StrategyTree C F} (hnew : new.WellFormed)
    (hinj : Set.InjOn (outId old new) {i | (new.blocks i).isSome}) {newToOut : BlockId → Option BlockId}
    (hids : ∀ i nb, new.blocks i = some nb → newToOut i = some (outId old new i))
    {i : BlockId} {nb : Block C F} (hnb : new.blocks i = some nb) :
    Renamed (outId old new) nb (remapElse newToOut (cloneOf old new nb)) := by
  have hexists : ∀ c ∈ nb.childIds, (new.blocks c).isSome := fun c hc => by
    obtain ⟨cb, hcb, -⟩ := hnew.child i c ⟨nb, hnb, hc⟩
    simp [hcb]
  cases hkind : nb.kind with
  | elseBlock j =>
    obtain ⟨sibling, hsibling, -⟩ := hnew.elseBlock i nb j hnb hkind
    have hlink : (newToOut j).getD j = outId old new j := by rw [hids j sibling hsibling]; rfl
    refine ⟨?_, ?_, ?_, ?_⟩ <;> simp only [remapElse, cloneOf, remapKind, hkind, hlink]
    exact .elseBlock j
  | weight method lookbackDays top allocations =>
    refine ⟨?_, ?_, ?_, ?_⟩ <;> simp only [remapElse, cloneOf, remapKind, hkind]
    refine .weight method lookbackDays top (fun c hc => ?_) fun key hkey => ?_
    · rw [remapped_eq, foldl_update_of_mem hc fun d hd hsame =>
        hinj (hexists d hd) (hexists c hc) hsame]
      rfl
    · by_contra hnot
      rw [remapped_eq, foldl_update_of_not_mem hnot] at hkey
      cases hkey
  | root name =>
    refine ⟨?_, ?_, ?_, ?_⟩ <;> simp only [remapElse, cloneOf, remapKind, hkind]
    exact .root name
  | asset symbol exchange displayName =>
    refine ⟨?_, ?_, ?_, ?_⟩ <;> simp only [remapElse, cloneOf, remapKind, hkind]
    exact .asset symbol exchange displayName
  | group name =>
    refine ⟨?_, ?_, ?_, ?_⟩ <;> simp only [remapElse, cloneOf, remapKind, hkind]
    exact .group name
  | ifBlock condition conditionText =>
    refine ⟨?_, ?_, ?_, ?_⟩ <;> simp only [remapElse, cloneOf, remapKind, hkind]
    exact .ifBlock condition conditionText
  | filter config displayText =>
    refine ⟨?_, ?_, ?_, ?_⟩ <;> simp only [remapElse, cloneOf, remapKind, hkind]
    exact .filter config displayText

/-- With enough stack the reconciled tree is the new one under the ids of the walk. -/
theorem reconcileIds_renaming {old new : StrategyTree C F} (hold : old.WellFormed)
    (hnew : new.WellFormed) (hdisjoint : ∀ i, (old.blocks i).isSome → new.blocks i = none) :
    ∃ enough, ∀ fuel ≥ enough, ∃ out, reconcileIds fuel old new = some out ∧
      Renaming (outId old new) new out := by
  obtain ⟨height, -, -, hheight⟩ := hnew.heights
  have hinj := outId_injOn hold hnew hdisjoint
  obtain ⟨nb, hnb, htype, hparent⟩ := hnew.root
  obtain ⟨ob, hob, hobtype, -⟩ := hold.root
  have hface : Faces old new (some old.rootId) new.rootId nb := by
    intro o
    constructor
    · intro hmatch
      generalize hi : new.rootId = i at hmatch
      cases hmatch with
      | root => exact ⟨ob, rfl, hob, hobtype.trans htype.symm⟩
      | child _ _ hpb _ hchild =>
        exact absurd ⟨_, hpb, List.mem_of_getElem? hchild⟩ (hi ▸ hnew.not_lists_root _)
    · rintro ⟨ob', ho, hob', htype'⟩
      cases ho
      exact .root hob' hnb htype'
  refine ⟨height new.rootId + 1, fun fuel hfuel => ?_⟩
  have hempty : Good old new ⟨fun _ => none, fun _ => none⟩ :=
    ⟨fun _ _ h => (nomatch h), fun _ _ h => (nomatch h)⟩
  obtain ⟨s, hwalk, hgood, -, hvisited⟩ :=
    walk_spec hold hnew hheight hnb hface (Nat.lt_of_succ_le hfuel) hempty
  rw [hparent, Option.map_none] at hwalk
  refine ⟨⟨outId old new new.rootId, fun i => (s.outBlocks i).map (remapElse s.newToOut)⟩,
    by rw [reconcileIds, hwalk]; rfl, ?_⟩
  have hall : ∀ i nb, new.blocks i = some nb → Visited old new s i := fun i nb hnb =>
    hvisited i (hnew.induction (P := Relation.ReflTransGen new.Lists new.rootId) .refl
      (fun _ _ hp hlists => hp.tail hlists) i nb hnb)
  have hids : ∀ i nb, new.blocks i = some nb → s.newToOut i = some (outId old new i) := by
    intro i nb hnb
    obtain ⟨x, hx⟩ := Option.isSome_iff_exists.mp (hall i nb hnb).2
    rw [hx, hgood.ids i x hx]
  refine ⟨hinj, rfl, fun i nb hnb => ?_, fun x b hb => ?_⟩
  · obtain ⟨b, hb⟩ := Option.isSome_iff_exists.mp (hall i nb hnb).1
    obtain ⟨j, nb', hnb', hsame, rfl⟩ := hgood.blocks _ b hb
    obtain rfl : i = j := hinj (by simp [hnb]) (by simp [hnb']) hsame
    cases hnb.symm.trans hnb'
    exact ⟨_, by simp only [hb, Option.map_some], renamed_cloneOf hnew hinj hids hnb⟩
  · obtain ⟨b', hb', -⟩ := Option.map_eq_some_iff.mp hb
    obtain ⟨i, nb, hnb, rfl, -⟩ := hgood.blocks x b' hb'
    exact ⟨i, by simp [hnb], rfl⟩

theorem walkChildren_more {visit visit' : Option BlockId → BlockId → Reconciled C F →
      Option (BlockId × Reconciled C F)}
    (h : ∀ o c s r, visit o c s = some r → visit' o c s = some r) {olds news : List BlockId}
    {s : Reconciled C F} {r : List BlockId × Reconciled C F}
    (hwalk : walkChildren visit olds news s = some r) : walkChildren visit' olds news s = some r := by
  induction news generalizing olds s r with
  | nil => exact hwalk
  | cons c news ih =>
    obtain ⟨r₁, hfirst, hrest⟩ := Option.bind_eq_some_iff.mp hwalk
    obtain ⟨r₂, hnext, hend⟩ := Option.bind_eq_some_iff.mp hrest
    exact Option.bind_eq_some_iff.mpr ⟨r₁, h _ _ _ _ hfirst,
      Option.bind_eq_some_iff.mpr ⟨r₂, ih hnext, hend⟩⟩

theorem walk_succ {old new : StrategyTree C F} {fuel : ℕ} {parentId oldId : Option BlockId}
    {newId : BlockId} {s : Reconciled C F} {r : BlockId × Reconciled C F}
    (h : walk old new fuel parentId oldId newId s = some r) :
    walk old new (fuel + 1) parentId oldId newId s = some r := by
  induction fuel generalizing parentId oldId newId s r with
  | zero => cases h
  | succ fuel ih =>
    rw [walk] at h ⊢
    obtain ⟨nb, hnb, hrest⟩ := Option.bind_eq_some_iff.mp h
    obtain ⟨r₁, hchildren, hend⟩ := Option.bind_eq_some_iff.mp hrest
    exact Option.bind_eq_some_iff.mpr ⟨nb, hnb, Option.bind_eq_some_iff.mpr
      ⟨r₁, walkChildren_more (fun _ _ _ _ hvisit => ih hvisit) hchildren, hend⟩⟩

/-- Whatever the stack, a tree that is reconciled in full is the new one under the final ids. -/
theorem reconcileIds_some_renaming {old new out : StrategyTree C F} (hold : old.WellFormed)
    (hnew : new.WellFormed) (hdisjoint : ∀ i, (old.blocks i).isSome → new.blocks i = none)
    {fuel : ℕ} (h : reconcileIds fuel old new = some out) : Renaming (outId old new) new out := by
  obtain ⟨enough, hall⟩ := reconcileIds_renaming hold hnew hdisjoint
  obtain ⟨out', hout', hrenaming⟩ := hall (max fuel enough) (le_max_right _ _)
  have hmore : ∀ fuel', fuel ≤ fuel' → reconcileIds fuel' old new = some out := by
    intro fuel' hfuel
    obtain ⟨r, hwalk, hout⟩ := Option.map_eq_some_iff.mp h
    have hwalk' : walk old new fuel' none (some old.rootId) new.rootId
        ⟨fun _ => none, fun _ => none⟩ = some r := by
      induction hfuel with
      | refl => exact hwalk
      | step _ ih => exact walk_succ ih
    rw [reconcileIds, hwalk', Option.map_some, hout]
  cases (hmore _ (le_max_left _ _)).symm.trans hout'
  exact hrenaming

/-- `reconcileIds` only renames: a block has an id of the old tree exactly when the old tree has a
block of its type at its path, with the same types along the path. -/
theorem reconcileIds_only_renames {old new : StrategyTree C F} (hold : old.WellFormed)
    (hnew : new.WellFormed) (hdisjoint : ∀ i, (old.blocks i).isSome → new.blocks i = none) :
    ∃ enough, ∀ fuel ≥ enough, ∃ out f, reconcileIds fuel old new = some out ∧ out.WellFormed ∧
      Renaming f new out ∧ (∀ o i, Matched old new o i → f i = o) ∧
      ∀ i nb, new.blocks i = some nb →
        ((old.blocks (f i)).isSome ↔ ∃ o, Matched old new o i) := by
  obtain ⟨enough, hreconciled⟩ := reconcileIds_renaming hold hnew hdisjoint
  refine ⟨enough, fun fuel hfuel => ?_⟩
  obtain ⟨out, hout, hrenaming⟩ := hreconciled fuel hfuel
  refine ⟨out, outId old new, hout, hrenaming.wellFormed hnew, hrenaming,
    fun o i => outId_of_matched hnew, fun i nb hnb => ⟨fun hsome => ?_, ?_⟩⟩
  · by_contra hnot
    rw [outId_of_not_matched hnot] at hsome
    exact nomatch hnb.symm.trans (hdisjoint i hsome)
  · rintro ⟨o, hmatch⟩
    obtain ⟨ob, hob⟩ := hmatch.exists_old
    rw [outId_of_matched hnew hmatch, hob]
    rfl

end Reconciling

namespace Sample

/-- A root with one asset. -/
def assetTree (rootId assetId : BlockId) (symbol : String) : StrategyTree Unit Unit :=
  ⟨rootId, added (rootTree rootId "Pair").blocks assetId rootId ⟨rootId, none, [], .root "Pair"⟩
    (.asset symbol "NASDAQ" symbol)⟩

theorem assetTree_wellFormed {rootId assetId : BlockId} (hne : assetId ≠ rootId) (symbol : String) :
    (assetTree rootId assetId symbol).WellFormed :=
  wellFormed_added (rootTree_wellFormed rootId "Pair") (if_pos rfl) rfl (if_neg hne) trivial

theorem assetTree_blocks {rootId assetId i : BlockId} {symbol : String}
    (h : ((assetTree rootId assetId symbol).blocks i).isSome) : i = rootId ∨ i = assetId := by
  obtain ⟨b, hb⟩ := Option.isSome_iff_exists.mp h
  obtain ⟨hi, -⟩ | ⟨hi, -⟩ | ⟨-, -, hb⟩ := added_cases hb
  · exact .inl hi
  · exact .inr hi
  · exact .inl (rootTree_blocks hb).1

end Sample

/-- The asset at the same place keeps its id, whatever its symbol. -/
theorem reconcileIds_only_renames_asset :
    ∃ enough, ∀ fuel ≥ enough, ∃ out f,
      reconcileIds fuel (Sample.assetTree (.uuid 0) (.uuid 1) "SPY")
        (Sample.assetTree (.block 5 1) (.block 5 2) "QQQ") = some out ∧ out.WellFormed ∧
      Renaming f (Sample.assetTree (.block 5 1) (.block 5 2) "QQQ") out ∧
      f (.block 5 2) = .uuid 1 := by
  have hold : (Sample.assetTree (.uuid 0) (.uuid 1) "SPY").WellFormed :=
    Sample.assetTree_wellFormed (by decide) "SPY"
  have hnew : (Sample.assetTree (.block 5 1) (.block 5 2) "QQQ").WellFormed :=
    Sample.assetTree_wellFormed (by decide) "QQQ"
  obtain ⟨enough, h⟩ := reconcileIds_only_renames hold hnew
    (fun i hi => by obtain rfl | rfl := Sample.assetTree_blocks hi <;> rfl)
  refine ⟨enough, fun fuel hfuel => ?_⟩
  obtain ⟨out, f, hout, hwf, hrenaming, hmatched, -⟩ := h fuel hfuel
  refine ⟨out, f, hout, hwf, hrenaming, hmatched _ _ ?_⟩
  have hroot : Matched (Sample.assetTree (.uuid 0) (.uuid 1) "SPY")
      (Sample.assetTree (.block 5 1) (.block 5 2) "QQQ") (.uuid 0) (.block 5 1) :=
    .root rfl rfl rfl
  exact .child (k := 0) hroot rfl rfl rfl rfl rfl rfl rfl

end LlamaTrade.Builder
