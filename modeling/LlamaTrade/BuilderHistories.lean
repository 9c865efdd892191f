import LlamaTrade.BuilderStore

/-!
# Well-formed histories of the builder

What the operations of the builder store do to the trees: the one that is shown and those of the
history. They stay well formed where a block is added below one that takes children, an allocation
is given to a child, and a block is deleted that no other block refers to.
-/

namespace LlamaTrade.Builder

section Histories

variable {C F : Type} {drawn drawn' clock clock' : ℕ} {t : StrategyTree C F}
  {s : BuilderStore C F}

theorem knownId_mono (hdrawn : drawn ≤ drawn') (hclock : clock ≤ clock') {i : BlockId}
    (h : knownId drawn clock i) : knownId drawn' clock' i := by
  cases i with
  | uuid n =>
    simp only [knownId, decide_eq_true_eq] at h ⊢
    omega
  | block now n =>
    simp only [knownId, decide_eq_true_eq] at h ⊢
    omega

/-- A well-formed tree of blocks whose ids were given out before. -/
structure SoundTree (drawn clock : ℕ) (t : StrategyTree C F) : Prop where
  wellFormed : t.WellFormed
  known : ∀ i, (t.blocks i).isSome → knownId drawn clock i

theorem SoundTree.mono (h : SoundTree drawn clock t) (hdrawn : drawn ≤ drawn')
    (hclock : clock ≤ clock') : SoundTree drawn' clock' t :=
  ⟨h.wellFormed, fun i hi => knownId_mono hdrawn hclock (h.known i hi)⟩

theorem SoundTree.fresh (h : SoundTree drawn clock t) {n : ℕ} (hn : drawn ≤ n) :
    t.blocks (.uuid n) = none := by
  by_contra hsome
  have hknown := h.known (.uuid n) (Option.isSome_iff_ne_none.mpr hsome)
  simp only [knownId, decide_eq_true_eq] at hknown
  omega

/-! ## Other fields of a block -/

/-- A block gets other fields, of the same type and with the same references. -/
theorem wellFormed_setKind (h : t.WellFormed) {id : BlockId} {b : Block C F} {kind : BlockKind C F}
    (hb : t.blocks id = some b) (htype : kind.type = b.type)
    (helse : ∀ j, kind = .elseBlock j → b.kind = .elseBlock j)
    (halloc : ∀ method lookbackDays top allocations,
      kind = .weight method lookbackDays top allocations →
        ∀ key, (allocations key).isSome → key ∈ b.childIds) :
    StrategyTree.WellFormed
      ⟨t.rootId, Function.update t.blocks id (some { b with kind := kind })⟩ := by
  set blocks := Function.update t.blocks id (some { b with kind := kind }) with hblocks
  have hsource : ∀ {i b'}, blocks i = some b' →
      (i = id ∧ b' = { b with kind := kind }) ∨ t.blocks i = some b' := by
    intro i b' hb'
    rw [hblocks, Function.update_apply] at hb'
    split at hb'
    · next heq => exact .inl ⟨heq, (Option.some.inj hb').symm⟩
    · exact .inr hb'
  have hkept : ∀ {i b₀}, t.blocks i = some b₀ → ∃ b', blocks i = some b' ∧
      b'.parentId = b₀.parentId ∧ b'.childIds = b₀.childIds ∧ b'.type = b₀.type := by
    intro i b₀ hb₀
    by_cases hi : i = id
    · subst hi
      cases hb.symm.trans hb₀
      exact ⟨_, Function.update_self .., rfl, rfl, htype⟩
    · exact ⟨b₀, (Function.update_of_ne hi _ _).trans hb₀, rfl, rfl, rfl⟩
  have hlists : ∀ {p c}, StrategyTree.Lists ⟨t.rootId, blocks⟩ p c ↔ t.Lists p c := by
    intro p c
    constructor
    · rintro ⟨b', hb', hc⟩
      obtain ⟨rfl, rfl⟩ | hold := hsource hb'
      · exact ⟨b, hb, hc⟩
      · exact ⟨b', hold, hc⟩
    · rintro ⟨b₀, hb₀, hc⟩
      obtain ⟨b', hb', -, hchildren, -⟩ := hkept hb₀
      exact ⟨b', hb', hchildren ▸ hc⟩
  have hsibling : ∀ {j sibling} {parentId : Option BlockId}, t.blocks j = some sibling →
      sibling.type = .ifType → sibling.parentId = parentId → ∃ sibling', blocks j = some sibling' ∧
        sibling'.type = .ifType ∧ sibling'.parentId = parentId := by
    intro j sibling parentId hs hif hparent
    obtain ⟨sibling', hs', hparent', -, htype'⟩ := hkept hs
    exact ⟨sibling', hs', htype'.trans hif, hparent'.trans hparent⟩
  refine ⟨?_, fun i b' hb' => ?_, fun i b' hb' hi => ?_, fun p c hpc => ?_, fun i b' hb' => ?_,
    fun i b' hb' hasset => ?_, fun i b' j hb' hj => ?_,
    fun i b' method lookbackDays top a hb' ha key hkey => ?_, ?_⟩
  · obtain ⟨rb, hrb, hroot, hnone⟩ := h.root
    obtain ⟨b', hb', hparent, -, htype'⟩ := hkept hrb
    exact ⟨b', hb', htype'.trans hroot, hparent.trans hnone⟩
  · obtain ⟨rfl, rfl⟩ | hold := hsource hb'
    · exact h.ids i b hb
    · exact h.ids i b' hold
  · obtain ⟨rfl, rfl⟩ | hold := hsource hb'
    · obtain ⟨p, hp, hpi⟩ := h.parent i b hb hi
      exact ⟨p, hp, hlists.mpr hpi⟩
    · obtain ⟨p, hp, hpi⟩ := h.parent i b' hold hi
      exact ⟨p, hp, hlists.mpr hpi⟩
  · obtain ⟨b₀, hb₀, hp⟩ := h.child p c (hlists.mp hpc)
    obtain ⟨b', hb', hparent, -⟩ := hkept hb₀
    exact ⟨b', hb', hparent.trans hp⟩
  · obtain ⟨rfl, rfl⟩ | hold := hsource hb'
    · exact h.nodup i b hb
    · exact h.nodup i b' hold
  · obtain ⟨rfl, rfl⟩ | hold := hsource hb'
    · exact h.leaf i b hb (htype.symm.trans hasset)
    · exact h.leaf i b' hold hasset
  · obtain ⟨rfl, rfl⟩ | hold := hsource hb'
    · obtain ⟨sibling, hs, hif, hparent⟩ := h.elseBlock i b j hb (helse j hj)
      exact hsibling hs hif hparent
    · obtain ⟨sibling, hs, hif, hparent⟩ := h.elseBlock i b' j hold hj
      exact hsibling hs hif hparent
  · obtain ⟨rfl, rfl⟩ | hold := hsource hb'
    · exact halloc method lookbackDays top a ha key hkey
    · exact h.allocations i b' method lookbackDays top a hold ha key hkey
  · obtain ⟨height, bound, hbound, hheight⟩ := h.heights
    refine ⟨height, bound, fun i b' hb' => ?_, fun p c hpc => hheight p c (hlists.mp hpc)⟩
    obtain ⟨rfl, -⟩ | hold := hsource hb'
    · exact hbound i b hb
    · exact hbound i b' hold

theorem SoundTree.setKind (h : SoundTree drawn clock t) {id : BlockId} {b : Block C F}
    {kind : BlockKind C F} (hb : t.blocks id = some b) (htype : kind.type = b.type)
    (helse : ∀ j, kind = .elseBlock j → b.kind = .elseBlock j)
    (halloc : ∀ method lookbackDays top allocations,
      kind = .weight method lookbackDays top allocations →
        ∀ key, (allocations key).isSome → key ∈ b.childIds) :
    SoundTree drawn clock
      ⟨t.rootId, Function.update t.blocks id (some { b with kind := kind })⟩ := by
  refine ⟨wellFormed_setKind h.wellFormed hb htype helse halloc, fun i hi => h.known i ?_⟩
  by_cases heq : i = id
  · rw [heq, hb]
    rfl
  · dsimp only at hi
    rwa [Function.update_of_ne heq] at hi

/-- The fields that `updateBlock` writes do not change the type or the references. -/
theorem BlockKind.assign_type (updates : BlockUpdates C F) (kind : BlockKind C F) :
    (kind.assign updates).type = kind.type := by
  cases kind <;> rfl

/-! ## The trees of the store -/

structure Sound (s : BuilderStore C F) : Prop where
  tree : SoundTree s.drawn s.clock s.tree
  past : ∀ t ∈ s.past, SoundTree s.drawn s.clock t
  future : ∀ t ∈ s.future, SoundTree s.drawn s.clock t

theorem mem_pushToHistory (h : t ∈ (pushToHistory s).past) : t ∈ s.past ∨ t = s.tree := by
  unfold pushToHistory at h
  dsimp only at h
  split at h
  · have hmem := List.mem_append.mp (List.mem_of_mem_tail h)
    exact hmem.imp_right List.mem_singleton.mp
  · exact (List.mem_append.mp h).imp_right List.mem_singleton.mp

namespace Sound

theorem draw (h : Sound s) : Sound (draw s).2 :=
  ⟨h.tree.mono (Nat.le_succ _) le_rfl, fun t ht => (h.past t ht).mono (Nat.le_succ _) le_rfl,
    fun t ht => (h.future t ht).mono (Nat.le_succ _) le_rfl⟩

theorem tick (h : Sound s) (times : ParseTimes) : Sound (tick s times) := by
  have hclock : s.clock ≤ s.clock + 1 + times.duration := by omega
  exact ⟨h.tree.mono le_rfl hclock, fun t ht => (h.past t ht).mono le_rfl hclock,
    fun t ht => (h.future t ht).mono le_rfl hclock⟩

theorem pushed (h : Sound s) (ht : SoundTree s.drawn s.clock t) :
    Sound { pushToHistory s with tree := t } := by
  refine ⟨ht, fun t' ht' => ?_, fun t' ht' => absurd ht' List.not_mem_nil⟩
  obtain hold | rfl := mem_pushToHistory ht'
  · exact h.past t' hold
  · exact h.tree

theorem edit (h : Sound s) {blocks : Option (Blocks C F)}
    (hblocks : ∀ blocks', blocks = some blocks' →
      SoundTree s.drawn s.clock ⟨s.tree.rootId, blocks'⟩) : Sound (edit s blocks) := by
  cases blocks with
  | none => exact h
  | some blocks => exact h.pushed (hblocks blocks rfl)

theorem undo (h : Sound s) : Sound (undo s) := by
  unfold Builder.undo
  split
  · exact h
  · next previous hlast =>
    refine ⟨h.past previous (List.mem_of_getLast? hlast),
      fun t ht => h.past t ((List.dropLast_sublist _).subset ht), fun t ht => ?_⟩
    obtain ht | ht := List.mem_append.mp ht
    · exact h.future t ht
    · rw [List.mem_singleton.mp ht]
      exact h.tree

theorem redo (h : Sound s) : Sound (redo s) := by
  unfold Builder.redo
  split
  · exact h
  · next later hlast =>
    refine ⟨h.future later (List.mem_of_getLast? hlast), fun t ht => ?_,
      fun t ht => h.future t ((List.dropLast_sublist _).subset ht)⟩
    obtain ht | ht := List.mem_append.mp ht
    · exact h.past t ht
    · rw [List.mem_singleton.mp ht]
      exact h.tree

end Sound

/-! ## What the operations do -/

/-- Where a block is added, the parent takes children. -/
def TakesChildren (t : StrategyTree C F) (parentId : BlockId) : Prop :=
  ∀ parent, t.blocks parentId = some parent → parent.hasChildren

/-- A block is added below one that takes children, an allocation is given to a child, and a block
is deleted that no other block refers to. -/
def Careful (s : BuilderStore C F) : BuilderAction C F → Prop
  | .addAsset parentId _ _ _ | .addGroup parentId _ | .addWeight parentId _
  | .addCondition parentId _ | .addFilter parentId _ => TakesChildren s.tree parentId
  | .setWeightAllocation weightId childId _ =>
    ∀ b, s.tree.blocks weightId = some b → b.type = .weight → childId ∈ b.childIds
  | .deleteBlock id =>
    ∀ b, s.tree.blocks id = some b → b.type ≠ .root → Unreferenced s.tree id
  | _ => True

/-- Adding a block below a known parent. -/
theorem SoundTree.added (h : SoundTree drawn clock t) {parentId : BlockId}
    (hparentId : knownId drawn clock parentId) (hparent : TakesChildren t parentId)
    {kind : BlockKind C F} (hkind : kind.FitsBelow t parentId) {blocks : Blocks C F}
    (hadd : addBlock t.blocks (.uuid drawn) parentId kind = some blocks) :
    ∃ parent, t.blocks parentId = some parent ∧ parent.hasChildren ∧
      blocks = Builder.added t.blocks (.uuid drawn) parentId parent kind ∧
      SoundTree (drawn + 1) clock ⟨t.rootId, blocks⟩ := by
  have hfresh := h.fresh (le_refl drawn)
  have hne : parentId ≠ .uuid drawn := by
    rintro rfl
    simp [knownId] at hparentId
  obtain ⟨parent, hp, -⟩ := Option.map_eq_some_iff.mp hadd
  rw [Function.update_of_ne hne] at hp
  have hchildren := hparent parent hp
  cases (addBlock_eq hp hchildren hfresh).symm.trans hadd
  refine ⟨parent, hp, hchildren, rfl,
    wellFormed_added h.wellFormed hp hchildren hfresh hkind, fun i hi => ?_⟩
  obtain ⟨b, hb⟩ := Option.isSome_iff_exists.mp hi
  obtain ⟨rfl, -⟩ | ⟨rfl, -⟩ | ⟨-, -, hold⟩ := added_cases hb
  · exact knownId_mono (Nat.le_succ _) le_rfl hparentId
  · simp [knownId]
  · exact knownId_mono (Nat.le_succ _) le_rfl (h.known i (by rw [hold]; rfl))

namespace Sound

theorem addKind (h : Sound s) {parentId : BlockId} {kind : BlockKind C F}
    (hparentId : knownId s.drawn s.clock parentId) (hparent : TakesChildren s.tree parentId)
    (hkind : kind.FitsBelow s.tree parentId) : Sound (addKind s parentId kind) := by
  refine h.draw.edit fun blocks hadd => ?_
  obtain ⟨-, -, -, -, hsound⟩ := h.tree.added hparentId hparent hkind hadd
  exact hsound

/-- The else block is added below the parent that the if block was added below. -/
theorem addCondition (h : Sound s) (w : BuilderWorld C F) {parentId : BlockId} (condition : C)
    (hparentId : knownId s.drawn s.clock parentId) (hparent : TakesChildren s.tree parentId) :
    Sound (addCondition w s parentId condition) := by
  refine h.draw.draw.edit fun blocks hadd => ?_
  obtain ⟨blocks₁, hif, helse⟩ := Option.bind_eq_some_iff.mp hadd
  have hfits : (BlockKind.ifBlock condition (w.conditionText condition) : BlockKind C F).FitsBelow
      s.tree parentId := trivial
  obtain ⟨parent, hp, hchildren, rfl, hsound⟩ := h.tree.added hparentId hparent hfits hif
  have hne : .uuid s.drawn ≠ parentId := by
    rintro rfl
    simp [knownId] at hparentId
  have hparent' : TakesChildren ⟨s.tree.rootId, added s.tree.blocks (.uuid s.drawn) parentId parent
      (.ifBlock condition (w.conditionText condition))⟩ parentId := by
    intro grown hgrown
    cases (if_pos rfl : added _ _ parentId parent _ parentId = _).symm.trans hgrown
    exact hchildren
  have hsibling : (BlockKind.elseBlock (.uuid s.drawn) : BlockKind C F).FitsBelow
      ⟨s.tree.rootId, added s.tree.blocks (.uuid s.drawn) parentId parent
        (.ifBlock condition (w.conditionText condition))⟩ parentId :=
    ⟨_, (if_neg hne).trans (if_pos rfl), rfl, rfl⟩
  obtain ⟨-, -, -, -, hboth⟩ :=
    hsound.added (knownId_mono (Nat.le_succ _) le_rfl hparentId) hparent' hsibling helse
  exact hboth

/-- Operations that write the fields of one block. -/
theorem setKind (h : Sound s) {id : BlockId} {f : BlockKind C F → Option (BlockKind C F)}
    (htype : ∀ kind kind', f kind = some kind' → kind'.type = kind.type)
    (helse : ∀ kind j, f kind = some (.elseBlock j) → kind = .elseBlock j)
    (halloc : ∀ b method lookbackDays top allocations, s.tree.blocks id = some b →
      f b.kind = some (.weight method lookbackDays top allocations) →
        ∀ key, (allocations key).isSome → key ∈ b.childIds) : Sound (setKind s id f) := by
  refine h.edit fun blocks hblocks => ?_
  obtain ⟨b, hb, hmap⟩ := Option.bind_eq_some_iff.mp hblocks
  obtain ⟨kind, hkind, rfl⟩ := Option.map_eq_some_iff.mp hmap
  refine h.tree.setKind hb (htype b.kind kind hkind) (fun j hj => ?_)
    fun method lookbackDays top allocations ha => ?_
  · exact helse b.kind j (hj ▸ hkind)
  · exact halloc b method lookbackDays top allocations hb (ha ▸ hkind)

theorem updateBlock (h : Sound s) (id : BlockId) (updates : BlockUpdates C F) :
    Sound (updateBlock s id updates) := by
  refine h.setKind (fun kind kind' hkind => ?_) (fun kind j hkind => ?_)
    fun b method lookbackDays top allocations hb hkind => ?_
  · cases hkind
    exact kind.assign_type updates
  · cases kind <;> cases hkind
    rfl
  · obtain ⟨bid, parentId, childIds, kind⟩ := b
    cases kind <;> cases hkind
    exact h.tree.wellFormed.allocations id _ _ _ _ _ hb rfl

theorem setWeightAllocation (h : Sound s) (weightId childId : BlockId) (percent : ℚ)
    (hchild : ∀ b, s.tree.blocks weightId = some b → b.type = .weight → childId ∈ b.childIds) :
    Sound (setWeightAllocation s weightId childId percent) := by
  refine h.setKind (fun kind kind' hkind => ?_) (fun kind j hkind => ?_)
    fun b method lookbackDays top allocations hb hkind key hkey => ?_
  · cases kind <;> cases hkind
    rfl
  · cases kind <;> cases hkind
  · obtain ⟨bid, parentId, childIds, kind⟩ := b
    cases kind <;> cases hkind
    next allocations =>
      by_cases hself : key = childId
      · exact hself ▸ hchild _ hb rfl
      · rw [Function.update_of_ne hself] at hkey
        exact h.tree.wellFormed.allocations weightId _ _ _ _ _ hb rfl key hkey

theorem updateCondition (h : Sound s) (w : BuilderWorld C F) (id : BlockId) (condition : C) :
    Sound (updateCondition w s id condition) := by
  refine h.setKind (fun kind kind' hkind => ?_) (fun kind j hkind => ?_)
    fun b method lookbackDays top allocations _ hkind => ?_
  · cases kind <;> cases hkind
    rfl
  · cases kind <;> cases hkind
  · obtain ⟨bid, parentId, childIds, kind⟩ := b
    cases kind <;> cases hkind

theorem updateFilter (h : Sound s) (w : BuilderWorld C F) (id : BlockId) (config : F) :
    Sound (updateFilter w s id config) := by
  refine h.setKind (fun kind kind' hkind => ?_) (fun kind j hkind => ?_)
    fun b method lookbackDays top allocations _ hkind => ?_
  · cases kind <;> cases hkind
    rfl
  · cases kind <;> cases hkind
  · obtain ⟨bid, parentId, childIds, kind⟩ := b
    cases kind <;> cases hkind

theorem deleteFromTree (h : Sound s) (w : BuilderWorld C F) {id : BlockId}
    (href : ∀ b, s.tree.blocks id = some b → b.type ≠ .root → Unreferenced s.tree id) :
    Sound (deleteFromTree w s id) := by
  unfold Builder.deleteFromTree
  split
  · exact h
  · next b hb =>
    split
    · exact h
    · next hroot =>
      refine h.edit fun blocks hdelete => ⟨?_, fun i hi => ?_⟩
      · refine deleteBlock_some_wellFormed h.tree.wellFormed (fun heq => hroot ?_) (href b hb hroot)
          hdelete
        obtain ⟨rb, hrb, htype, -⟩ := h.tree.wellFormed.root
        cases (heq ▸ hrb).symm.trans hb
        exact htype
      · exact h.tree.known i (deleteBlock_subset hdelete hi)

/-- What the code says is well formed, with ids that are later than those of every tree. -/
theorem acceptedTree {w : BuilderWorld C F} {dslCode : Option SExpr} {times : ParseTimes}
    (haccepted : acceptedTree w s dslCode times = some t) :
    SoundTree s.drawn (s.clock + 1 + times.duration) t ∧
      ∀ i, (t.blocks i).isSome → ∃ now n, i = .block now n ∧ s.clock < now := by
  obtain ⟨hparsed, -⟩ := Option.filter_eq_some_iff.mp haccepted
  obtain ⟨parsed, -, hparsed⟩ := Option.bind_eq_some_iff.mp hparsed
  obtain ⟨hwf, hids⟩ := fromDSL_wellFormed hparsed
  refine ⟨⟨hwf, fun i hi => ?_⟩, fun i hi => ?_⟩
  · obtain ⟨n, rfl⟩ := hids i hi
    refine decide_eq_true ?_
    simp only [ParseTimes.readings]
    omega
  · obtain ⟨n, rfl⟩ := hids i hi
    refine ⟨_, n, rfl, ?_⟩
    simp only [ParseTimes.readings]
    omega

theorem commitCodeToTree (h : Sound s) (w : BuilderWorld C F) (dslCode : Option SExpr)
    (times : ParseTimes) : Sound (commitCodeToTree w s dslCode times) := by
  unfold Builder.commitCodeToTree
  split
  · exact h
  · split
    · exact h.tick times
    · next reconciled hreconciled =>
      obtain ⟨parsed, haccepted, hreconcile⟩ := Option.bind_eq_some_iff.mp hreconciled
      obtain ⟨hparsed, hlater⟩ := acceptedTree haccepted
      have hdisjoint : ∀ i, (s.tree.blocks i).isSome → parsed.blocks i = none := by
        intro i hi
        by_contra hsome
        obtain ⟨now, n, rfl, hnow⟩ := hlater i (Option.isSome_iff_ne_none.mpr hsome)
        have hknown := h.tree.known _ hi
        simp only [knownId, decide_eq_true_eq] at hknown
        omega
      have hrenaming :=
        reconcileIds_some_renaming h.tree.wellFormed hparsed.wellFormed hdisjoint hreconcile
      refine ⟨⟨hrenaming.wellFormed hparsed.wellFormed, fun x hx => ?_⟩, (h.tick times).past,
        (h.tick times).future⟩
      obtain ⟨b, hb⟩ := Option.isSome_iff_exists.mp hx
      obtain ⟨i, hi, rfl⟩ := hrenaming.only x b hb
      by_cases hmatch : ∃ o, Matched s.tree parsed o i
      · obtain ⟨o, hmatch⟩ := hmatch
        obtain ⟨ob, hob⟩ := hmatch.exists_old
        rw [outId_of_matched hparsed.wellFormed hmatch]
        exact (h.tick times).tree.known o (Option.isSome_iff_exists.mpr ⟨ob, hob⟩)
      · rw [outId_of_not_matched hmatch]
        exact hparsed.known i hi

theorem syncTreeFromCode (h : Sound s) (w : BuilderWorld C F) (dslCode : Option SExpr)
    (times : ParseTimes) : Sound (syncTreeFromCode w s dslCode times) := by
  unfold Builder.syncTreeFromCode
  split
  · exact h.tick times
  · next tree haccepted => exact (h.tick times).pushed (acceptedTree haccepted).1

theorem setStrategyName (h : Sound s) (name : String) : Sound (setStrategyName s name) := by
  unfold Builder.setStrategyName
  split
  · next id parentId childIds old hroot =>
    have hnamed : SoundTree s.drawn s.clock ⟨s.tree.rootId, Function.update s.tree.blocks
        s.tree.rootId (some ⟨id, parentId, childIds, .root name⟩)⟩ :=
      h.tree.setKind hroot rfl (fun _ hkind => nomatch hkind) fun _ _ _ _ hkind => nomatch hkind
    exact ⟨hnamed, h.past, h.future⟩
  · exact h

end Sound

theorem act_sound {w : BuilderWorld C F} {a : BuilderAction C F} (h : Sound s)
    (hids : a.ids.all (knownId s.drawn s.clock)) (hcareful : Careful s a) : Sound (act w s a) := by
  have hknown := List.all_eq_true.mp hids
  cases a with
  | addAsset | addGroup | addFilter =>
    exact h.addKind (hknown _ (List.mem_singleton_self _)) hcareful trivial
  | addWeight =>
    exact h.addKind (hknown _ (List.mem_singleton_self _)) hcareful fun _ => rfl
  | addCondition parentId condition =>
    exact h.addCondition w condition (hknown _ (List.mem_singleton_self _)) hcareful
  | updateBlock id updates => exact h.updateBlock id updates
  | deleteBlock id => exact h.deleteFromTree w hcareful
  | setWeightAllocation weightId childId percent =>
    exact h.setWeightAllocation weightId childId percent hcareful
  | updateCondition id condition => exact h.updateCondition w id condition
  | updateFilter id config => exact h.updateFilter w id config
  | undo => exact h.undo
  | redo => exact h.redo
  | setViewMode mode => exact ⟨h.tree, h.past, h.future⟩
  | commitCodeToTree dslCode times => exact h.commitCodeToTree w dslCode times
  | syncTreeFromCode dslCode times => exact h.syncTreeFromCode w dslCode times
  | setStrategyName name => exact h.setStrategyName name

theorem initialStore_sound : Sound (initialStore C F) := by
  refine ⟨⟨rootTree_wellFormed _ _, fun i hi => ?_⟩, fun t ht => absurd ht List.not_mem_nil,
    fun t ht => absurd ht List.not_mem_nil⟩
  obtain ⟨b, hb⟩ := Option.isSome_iff_exists.mp hi
  rw [(rootTree_blocks hb).1]
  rfl

/-- In every run of careful operations the tree and those of the history are well formed. -/
theorem trees_stay_wellFormed {w : BuilderWorld C F} {actions : List (BuilderAction C F)}
    {s : BuilderStore C F} (hmeets : Transition.Meets (step w) Careful (initialStore C F) actions)
    (hrun : Transition.run (step w) (initialStore C F) actions = some s) :
    s.tree.WellFormed ∧ (∀ t ∈ s.past, t.WellFormed) ∧ ∀ t ∈ s.future, t.WellFormed := by
  have hsound : Sound s := by
    refine Transition.run_invariant (fun s a s' h hcareful hstep => ?_) initialStore_sound hmeets
      hrun
    unfold step at hstep
    split at hstep
    · next hids =>
      cases hstep
      exact act_sound h hids hcareful
    · cases hstep
  exact ⟨hsound.tree.wellFormed, fun t ht => (hsound.past t ht).wellFormed,
    fun t ht => (hsound.future t ht).wellFormed⟩

end Histories

namespace Sample

/-- An asset is added and deleted, and the deletion undone. -/
theorem trees_stay_wellFormed_asset :
    ∃ s, Transition.run (step builderWorld) (initialStore Unit Unit)
        [.addAsset (.uuid 0) "SPY" "NYSE" "SPY", .deleteBlock (.uuid 1), .undo] = some s ∧
      s.tree.WellFormed ∧ (∀ t ∈ s.past, t.WellFormed) ∧ ∀ t ∈ s.future, t.WellFormed := by
  refine ⟨_, rfl, @trees_stay_wellFormed Unit Unit builderWorld
    [.addAsset (.uuid 0) "SPY" "NYSE" "SPY", .deleteBlock (.uuid 1), .undo] _ ?_ rfl⟩
  refine Transition.meets_cons rfl (fun parent hparent => ?_) (Transition.meets_cons rfl
    (fun _ _ _ => ?_) (Transition.meets_cons rfl trivial trivial))
  · cases hparent
    rfl
  · have hplain : ∀ i (b : Block Unit Unit), Function.update (Function.update
        (rootTree (.uuid 0) "New Strategy").blocks (.uuid 1)
        (some ⟨.uuid 1, some (.uuid 0), [], .asset "SPY" "NYSE" "SPY"⟩)) (.uuid 0)
        (some ⟨.uuid 0, none, [.uuid 1], .root "New Strategy"⟩) i = some b →
          b.type = .root ∨ b.type = .asset := by
      intro i b hb
      rw [Function.update_apply, Function.update_apply] at hb
      split at hb
      · cases hb
        exact .inl rfl
      · split at hb
        · cases hb
          exact .inr rfl
        · rw [(rootTree_blocks hb).2]
          exact .inl rfl
    refine ⟨fun i b hb hkind => ?_, fun i b method lookbackDays top allocations hb hkind => ?_⟩
    · obtain htype | htype := hplain i b hb <;> rw [Block.type, hkind] at htype <;> cases htype
    · obtain htype | htype := hplain i b hb <;> rw [Block.type, hkind] at htype <;> cases htype

/-- Deleting the if block of a condition leaves its else block behind, which names a block that is
not there. -/
theorem deleteBlock_leaves_else :
    ∃ s, Transition.run (step builderWorld) (initialStore Unit Unit)
        [.addCondition (.uuid 0) (), .deleteBlock (.uuid 1)] = some s ∧ ¬s.tree.WellFormed := by
  refine ⟨_, rfl, fun h => ?_⟩
  obtain ⟨sibling, hs, -⟩ := h.elseBlock (.uuid 2) _ (.uuid 1) rfl rfl
  cases hs

end Sample

end LlamaTrade.Builder
