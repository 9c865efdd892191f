import LlamaTrade.TransitionRuns
import Mathlib.Data.List.Nodup
import Mathlib.Data.Nat.Notation
import Mathlib.Logic.Function.Basic

/-!
# Approvals of tool calls

The tool calls that an agent proposes in a session and what their approvals execute
(`stream_message` and `resume_with_tool` of `services/agent_service.py`, `confirm_tool_call` of
`grpc/servicer.py`, `lock_message_with_proposal` of `services/conversation_service.py`, `_call_id` of
`llm/gemini.py`). A turn proposes one call at most, which is shown to the user and then stored with
the message of the turn. Arguments are the JSON text that is shown.
-/

namespace LlamaTrade

/-- `_call_id`: the id of a call that has none is made up from its name and its place in the
response. -/
def callId (id : Option String) (name : String) (index : ℕ) : String :=
  match id with
  | some id => if id = "" then "call_" ++ name ++ "_" ++ toString index else id
  | none => "call_" ++ name ++ "_" ++ toString index

structure ToolProposal where
  id : String
  name : String
  arguments : String
  deriving DecidableEq

/-- An entry of `tool_calls_json`: which of the proposals it is, and its status. -/
structure StoredProposal where
  index : ℕ
  consumed : Bool
  deriving DecidableEq

/-- Where a request to confirm is: it has found an entry, or it has consumed one. -/
inductive ApprovalPhase where
  | found (index : ℕ) (toolName : String) (approved : Bool) (answered : ℕ)
  | consumed (index : ℕ) (answered : ℕ)

structure ApprovalWorld where
  /-- The proposals in the order in which they were shown. -/
  shown : List ToolProposal
  /-- The messages of the session that hold one, oldest first. -/
  stored : List StoredProposal
  requests : ℕ → Option ApprovalPhase
  /-- The proposals that were executed, each with the one that its approval answered. -/
  executed : List (ℕ × ℕ)

inductive ApprovalAction where
  | propose (id : Option String) (name arguments : String) (index : ℕ)
  | store (index : ℕ)
  | confirm (t answered : ℕ) (toolName : String) (approved : Bool)
  | consume (t : ℕ)
  | execute (t : ℕ)

namespace ApprovalWorld

def fresh : ApprovalWorld := ⟨[], [], fun _ => none, []⟩

variable (w : ApprovalWorld)

def idOf (index : ℕ) : Option String := w.shown[index]?.map (·.id)

/-- `lock_message_with_proposal`: the newest message with the id. -/
def lookup (id : String) : Option StoredProposal :=
  w.stored.reverse.find? fun entry => w.idOf entry.index = some id

def setRequest (t : ℕ) (phase : Option ApprovalPhase) : ApprovalWorld :=
  { w with requests := Function.update w.requests t phase }

/-- The status of a stored proposal is set. -/
def markConsumed (index : ℕ) : List StoredProposal :=
  w.stored.map fun entry => if entry.index = index then ⟨index, true⟩ else entry

def step : ApprovalAction → Option ApprovalWorld
  | .propose id name arguments index =>
    some { w with shown := w.shown ++ [⟨callId id name index, name, arguments⟩] }
  | .store index =>
    if index < w.shown.length ∧ index ∉ w.stored.map (·.index) then
      some { w with stored := w.stored ++ [⟨index, false⟩] }
    else none
  | .confirm t answered toolName approved =>
    match w.requests t, w.shown[answered]? with
    | none, some proposal =>
      if proposal.id = "" then some w
      else some (w.setRequest t ((w.lookup proposal.id).map fun entry =>
        .found entry.index toolName approved answered))
    | _, _ => none
  | .consume t =>
    match w.requests t with
    | some (.found index toolName approved answered) =>
      if ⟨index, true⟩ ∈ w.stored then some (w.setRequest t none)
      else if toolName ≠ "" ∧ some toolName ≠ w.shown[index]?.map (·.name) then
        some (w.setRequest t none)
      else some { w.setRequest t (if approved then some (.consumed index answered) else none) with
        stored := w.markConsumed index }
    | _ => none
  | .execute t =>
    match w.requests t with
    | some (.consumed index answered) =>
      some { w.setRequest t none with executed := w.executed ++ [(index, answered)] }
    | _ => none

/-- The newest message with the id of the answered proposal, if there is any, holds this proposal. -/
def Unambiguous : ApprovalAction → Prop
  | .confirm _ answered _ _ => ∀ id, w.idOf answered = some id →
      (∀ entry ∈ w.stored, w.idOf entry.index ≠ some id) ∨
      ∃ before entry after, w.stored = before ++ entry :: after ∧ entry.index = answered ∧
        ∀ later ∈ after, w.idOf later.index ≠ some id
  | _ => True

/-- No proposal is executed twice, and each is the one that its approval answered. -/
structure Faithful : Prop where
  once : (w.executed.map (·.1)).Nodup
  answered : ∀ run ∈ w.executed, run.1 < w.shown.length ∧ w.shown[run.1]? = w.shown[run.2]?

/-! ## No proposal is executed twice -/

variable {w w' : ApprovalWorld}

/-- The stored entries are one for a proposal, and what is consumed by a request or executed is so
once. -/
structure Kept (w : ApprovalWorld) : Prop where
  nodup : (w.stored.map (·.index)).Nodup
  found : ∀ t index toolName approved answered,
    w.requests t = some (.found index toolName approved answered) → index ∈ w.stored.map (·.index)
  consumed : ∀ t index answered, w.requests t = some (.consumed index answered) →
    ⟨index, true⟩ ∈ w.stored ∧ index ∉ w.executed.map (·.1)
  own : ∀ t t' index answered answered', w.requests t = some (.consumed index answered) →
    w.requests t' = some (.consumed index answered') → t = t'
  executed : ∀ index ∈ w.executed.map (·.1), ⟨index, true⟩ ∈ w.stored
  once : (w.executed.map (·.1)).Nodup

theorem kept_fresh : fresh.Kept where
  nodup := List.nodup_nil
  found _ _ _ _ _ h := by cases h
  consumed _ _ _ h := by cases h
  own _ _ _ _ _ h := by cases h
  executed _ h := by cases h
  once := List.nodup_nil

/-- A request that ends, or has only found an entry, consumes nothing. -/
theorem Kept.setRequest (h : w.Kept) (t : ℕ) {phase : Option ApprovalPhase}
    (hfound : ∀ index toolName approved answered,
      phase = some (.found index toolName approved answered) → index ∈ w.stored.map (·.index))
    (hconsumed : ∀ index answered, phase ≠ some (.consumed index answered)) :
    (w.setRequest t phase).Kept := by
  have hold : ∀ t' index answered,
      (w.setRequest t phase).requests t' = some (.consumed index answered) →
      w.requests t' = some (.consumed index answered) := by
    intro t' index answered hsome
    dsimp only [ApprovalWorld.setRequest] at hsome
    rw [Function.update_apply] at hsome
    split_ifs at hsome with heq
    · exact absurd hsome (hconsumed index answered)
    · exact hsome
  refine ⟨h.nodup, fun t' index toolName approved answered hsome => ?_,
    fun t' index answered hsome => h.consumed t' index answered (hold t' index answered hsome),
    fun t₁ t₂ index a₁ a₂ h₁ h₂ => h.own t₁ t₂ index a₁ a₂ (hold _ _ _ h₁) (hold _ _ _ h₂),
    h.executed, h.once⟩
  dsimp only [ApprovalWorld.setRequest] at hsome
  rw [Function.update_apply] at hsome
  split_ifs at hsome with heq
  · exact hfound index toolName approved answered hsome
  · exact h.found t' index toolName approved answered hsome

theorem markConsumed_index (index : ℕ) :
    (w.markConsumed index).map (·.index) = w.stored.map (·.index) := by
  rw [markConsumed, List.map_map]
  refine List.map_congr_left fun entry _ => ?_
  dsimp only [Function.comp]
  split_ifs with heq
  · exact heq.symm
  · rfl

theorem mem_markConsumed {index : ℕ} (hmem : index ∈ w.stored.map (·.index)) :
    ⟨index, true⟩ ∈ w.markConsumed index := by
  obtain ⟨entry, hentry, rfl⟩ := List.mem_map.mp hmem
  exact List.mem_map.mpr ⟨entry, hentry, if_pos rfl⟩

theorem consumed_mem_markConsumed {index other : ℕ} (hmem : ⟨other, true⟩ ∈ w.stored) :
    ⟨other, true⟩ ∈ w.markConsumed index := by
  refine List.mem_map.mpr ⟨⟨other, true⟩, hmem, ?_⟩
  split_ifs with heq
  · rw [← heq]
  · rfl

theorem Kept.consume (h : w.Kept) {t index answered : ℕ} {approved : Bool}
    (hmem : index ∈ w.stored.map (·.index)) (hnew : ⟨index, true⟩ ∉ w.stored) :
    Kept { w.setRequest t (if approved then some (.consumed index answered) else none) with
      stored := w.markConsumed index } := by
  have hunexecuted : index ∉ w.executed.map (·.1) := fun hexecuted => hnew (h.executed _ hexecuted)
  have hfree : ∀ t' answered', w.requests t' ≠ some (.consumed index answered') :=
    fun t' answered' hsome => hnew (h.consumed t' index answered' hsome).1
  have hcase : ∀ {t' other answered'},
      Function.update w.requests t (if approved then some (.consumed index answered) else none) t' =
        some (.consumed other answered') →
      (t' = t ∧ other = index) ∨ w.requests t' = some (.consumed other answered') := by
    intro t' other answered' hsome
    rw [Function.update_apply] at hsome
    by_cases heq : t' = t
    · rw [if_pos heq] at hsome
      split_ifs at hsome
      cases hsome
      exact .inl ⟨heq, rfl⟩
    · rw [if_neg heq] at hsome
      exact .inr hsome
  refine ⟨?_, ?_, ?_, ?_, fun other hother => consumed_mem_markConsumed (h.executed other hother),
    h.once⟩
  · rw [markConsumed_index]
    exact h.nodup
  · intro t' other toolName approved' answered' hsome
    dsimp only [ApprovalWorld.setRequest] at hsome ⊢
    rw [markConsumed_index]
    rw [Function.update_apply] at hsome
    by_cases heq : t' = t
    · rw [if_pos heq] at hsome
      split_ifs at hsome
      cases hsome
    · rw [if_neg heq] at hsome
      exact h.found t' other toolName approved' answered' hsome
  · intro t' other answered' hsome
    obtain ⟨-, rfl⟩ | hold := hcase hsome
    · exact ⟨mem_markConsumed hmem, hunexecuted⟩
    · exact ⟨consumed_mem_markConsumed (h.consumed t' other answered' hold).1,
        (h.consumed t' other answered' hold).2⟩
  · intro t₁ t₂ other a₁ a₂ h₁ h₂
    obtain ⟨rfl, hother⟩ | hold₁ := hcase h₁
    · obtain ⟨rfl, -⟩ | hold₂ := hcase h₂
      · rfl
      · exact absurd (hother ▸ hold₂) (hfree t₂ a₂)
    · obtain ⟨rfl, hother⟩ | hold₂ := hcase h₂
      · exact absurd (hother ▸ hold₁) (hfree t₁ a₁)
      · exact h.own t₁ t₂ other a₁ a₂ hold₁ hold₂

theorem Kept.execute (h : w.Kept) {t index answered : ℕ}
    (hconsumed : w.requests t = some (.consumed index answered)) :
    Kept { w.setRequest t none with executed := w.executed ++ [(index, answered)] } := by
  obtain ⟨hstored, hnew⟩ := h.consumed t index answered hconsumed
  have hold : ∀ {t' phase}, Function.update w.requests t none t' = some phase →
      t' ≠ t ∧ w.requests t' = some phase := by
    intro t' phase hsome
    rw [Function.update_apply] at hsome
    split_ifs at hsome with heq
    exact ⟨heq, hsome⟩
  refine ⟨h.nodup, fun t' other toolName approved answered' hsome =>
      h.found t' other toolName approved answered' (hold hsome).2, fun t' other answered' hsome => ?_,
    fun t₁ t₂ other a₁ a₂ h₁ h₂ => h.own t₁ t₂ other a₁ a₂ (hold h₁).2 (hold h₂).2,
    fun other hother => ?_, ?_⟩
  · obtain ⟨hne, hbefore⟩ := hold hsome
    refine ⟨(h.consumed t' other answered' hbefore).1, fun hmem => ?_⟩
    rw [List.map_append, List.mem_append] at hmem
    obtain hmem | hmem := hmem
    · exact (h.consumed t' other answered' hbefore).2 hmem
    · obtain rfl : other = index := by simpa using hmem
      exact hne (h.own t' t other answered' answered hbefore hconsumed)
  · rw [List.map_append, List.mem_append] at hother
    obtain hother | hother := hother
    · exact h.executed other hother
    · obtain rfl : other = index := by simpa using hother
      exact hstored
  · rw [List.map_append, List.nodup_append]
    refine ⟨h.once, by simp, fun a ha b hb hab => hnew ?_⟩
    obtain rfl : b = index := by simpa using hb
    exact hab ▸ ha

theorem lookup_mem {id : String} {entry : StoredProposal} (h : w.lookup id = some entry) :
    entry ∈ w.stored ∧ w.idOf entry.index = some id :=
  ⟨List.mem_reverse.mp (List.mem_of_find?_eq_some h), by simpa using List.find?_some h⟩

theorem Kept.step {action : ApprovalAction} (h : w.Kept) (hstep : w.step action = some w') :
    w'.Kept := by
  cases action with
  | propose id name arguments index =>
    cases hstep
    exact ⟨h.nodup, h.found, h.consumed, h.own, h.executed, h.once⟩
  | store index =>
    by_cases hnew : index < w.shown.length ∧ index ∉ w.stored.map (·.index)
    · simp only [ApprovalWorld.step, if_pos hnew, Option.some.injEq] at hstep
      subst hstep
      refine ⟨?_, fun t other toolName approved answered hsome => ?_, fun t other answered hsome => ?_,
        h.own, fun other hother => List.mem_append_left _ (h.executed other hother), h.once⟩
      · rw [List.map_append, List.nodup_append]
        refine ⟨h.nodup, by simp, fun a ha b hb hab => hnew.2 ?_⟩
        obtain rfl : b = index := by simpa using hb
        exact hab ▸ ha
      · rw [List.map_append]
        exact List.mem_append_left _ (h.found t other toolName approved answered hsome)
      · exact ⟨List.mem_append_left _ (h.consumed t other answered hsome).1,
          (h.consumed t other answered hsome).2⟩
    · rw [ApprovalWorld.step, if_neg hnew] at hstep
      cases hstep
  | confirm t answered toolName approved =>
    cases hfree : w.requests t with
    | some phase => simp [ApprovalWorld.step, hfree] at hstep
    | none =>
      cases hshown : w.shown[answered]? with
      | none => simp [ApprovalWorld.step, hfree, hshown] at hstep
      | some proposal =>
        simp only [ApprovalWorld.step, hfree, hshown] at hstep
        split_ifs at hstep
        · cases hstep
          exact h
        · cases hstep
          refine h.setRequest t (fun index toolName' approved' answered' hsome => ?_)
            fun index answered' hsome => ?_
          · obtain ⟨entry, hentry, heq⟩ := Option.map_eq_some_iff.mp hsome
            injection heq with hindex
            exact List.mem_map.mpr ⟨entry, (lookup_mem hentry).1, hindex⟩
          · obtain ⟨entry, -, heq⟩ := Option.map_eq_some_iff.mp hsome
            cases heq
  | consume t =>
    cases hphase : w.requests t with
    | none => simp [ApprovalWorld.step, hphase] at hstep
    | some phase =>
      cases phase with
      | consumed => simp [ApprovalWorld.step, hphase] at hstep
      | found index toolName approved answered =>
        simp only [ApprovalWorld.step, hphase] at hstep
        have hended : (w.setRequest t none).Kept := h.setRequest t (by simp) (by simp)
        by_cases hconsumed : ⟨index, true⟩ ∈ w.stored
        · rw [if_pos hconsumed] at hstep
          cases hstep
          exact hended
        · rw [if_neg hconsumed] at hstep
          by_cases hname : toolName ≠ "" ∧ some toolName ≠ w.shown[index]?.map (·.name)
          · rw [if_pos hname] at hstep
            cases hstep
            exact hended
          · rw [if_neg hname] at hstep
            cases hstep
            exact h.consume (h.found t index toolName approved answered hphase) hconsumed
  | execute t =>
    cases hphase : w.requests t with
    | none => simp [ApprovalWorld.step, hphase] at hstep
    | some phase =>
      cases phase with
      | found => simp [ApprovalWorld.step, hphase] at hstep
      | consumed index answered =>
        simp only [ApprovalWorld.step, hphase, Option.some.injEq] at hstep
        subst hstep
        exact h.execute hphase

/-! ## What an approval executes -/

/-- The two proposals are the same, and both were shown. -/
def Same (w : ApprovalWorld) (index answered : ℕ) : Prop :=
  index < w.shown.length ∧ w.shown[index]? = w.shown[answered]?

/-- What requests have found, consumed and executed is what they answer. -/
structure Matched (w : ApprovalWorld) : Prop where
  found : ∀ t index toolName approved answered,
    w.requests t = some (.found index toolName approved answered) → w.Same index answered
  consumed : ∀ t index answered, w.requests t = some (.consumed index answered) →
    w.Same index answered
  executed : ∀ run ∈ w.executed, w.Same run.1 run.2

theorem Same.append {index answered : ℕ} (h : w.Same index answered) (proposal : ToolProposal) :
    Same { w with shown := w.shown ++ [proposal] } index answered := by
  obtain ⟨hlt, heq⟩ := h
  have hanswered : answered < w.shown.length := by
    rw [List.getElem?_eq_getElem hlt] at heq
    exact (List.getElem?_eq_some_iff.mp heq.symm).1
  refine ⟨by simp; omega, ?_⟩
  rw [List.getElem?_append_left hlt, List.getElem?_append_left hanswered]
  exact heq

theorem lookup_answered {answered : ℕ} {id : String} {entry : StoredProposal}
    (hid : w.idOf answered = some id) (hunambiguous : w.Unambiguous (.confirm 0 answered "" true))
    (h : w.lookup id = some entry) : entry.index = answered := by
  obtain hnone | ⟨before, stored, after, hstored, rfl, hafter⟩ := hunambiguous id hid
  · exact absurd (lookup_mem h).2 (hnone entry (lookup_mem h).1)
  · have hskip : after.reverse.find? (fun entry => w.idOf entry.index = some id) = none := by
      refine List.find?_eq_none.mpr fun later hlater => ?_
      simpa using hafter later (List.mem_reverse.mp hlater)
    rw [lookup, hstored, List.reverse_append, List.reverse_cons, List.append_assoc,
      List.find?_append, hskip, Option.none_or, List.singleton_append,
      List.find?_cons_of_pos (by simpa using hid)] at h
    rw [Option.some.inj h]

theorem Matched.step {action : ApprovalAction} (h : w.Matched) (hok : w.Unambiguous action)
    (hstep : w.step action = some w') : w'.Matched := by
  cases action with
  | propose id name arguments index =>
    cases hstep
    exact ⟨fun t index' toolName approved answered hsome =>
        (h.found t index' toolName approved answered hsome).append _,
      fun t index' answered hsome => (h.consumed t index' answered hsome).append _,
      fun run hrun => (h.executed run hrun).append _⟩
  | store index =>
    by_cases hnew : index < w.shown.length ∧ index ∉ w.stored.map (·.index)
    · simp only [ApprovalWorld.step, if_pos hnew, Option.some.injEq] at hstep
      subst hstep
      exact ⟨h.found, h.consumed, h.executed⟩
    · rw [ApprovalWorld.step, if_neg hnew] at hstep
      cases hstep
  | confirm t answered toolName approved =>
    cases hfree : w.requests t with
    | some phase => simp [ApprovalWorld.step, hfree] at hstep
    | none =>
      cases hshown : w.shown[answered]? with
      | none => simp [ApprovalWorld.step, hfree, hshown] at hstep
      | some proposal =>
        simp only [ApprovalWorld.step, hfree, hshown] at hstep
        split_ifs at hstep
        · cases hstep
          exact h
        · cases hstep
          have hid : w.idOf answered = some proposal.id := by rw [idOf, hshown, Option.map_some]
          have hlt : answered < w.shown.length := (List.getElem?_eq_some_iff.mp hshown).1
          refine ⟨fun t' index toolName' approved' answered' hsome => ?_,
            fun t' index answered' hsome => ?_, h.executed⟩
          · dsimp only [ApprovalWorld.setRequest] at hsome
            rw [Function.update_apply] at hsome
            split_ifs at hsome with heq
            · obtain ⟨entry, hentry, hphase⟩ := Option.map_eq_some_iff.mp hsome
              cases hphase
              have hindex := lookup_answered hid hok hentry
              rw [hindex]
              exact ⟨hlt, rfl⟩
            · exact h.found t' index toolName' approved' answered' hsome
          · dsimp only [ApprovalWorld.setRequest] at hsome
            rw [Function.update_apply] at hsome
            split_ifs at hsome with heq
            · obtain ⟨entry, -, hphase⟩ := Option.map_eq_some_iff.mp hsome
              cases hphase
            · exact h.consumed t' index answered' hsome
  | consume t =>
    cases hphase : w.requests t with
    | none => simp [ApprovalWorld.step, hphase] at hstep
    | some phase =>
      cases phase with
      | consumed => simp [ApprovalWorld.step, hphase] at hstep
      | found index toolName approved answered =>
        have hsame := h.found t index toolName approved answered hphase
        have hset : ∀ {phase : Option ApprovalPhase},
            (phase = none ∨ phase = some (.consumed index answered)) →
            (w.setRequest t phase).Matched := by
          intro phase hcase
          refine ⟨fun t' other toolName' approved' answered' hsome => ?_,
            fun t' other answered' hsome => ?_, h.executed⟩
          · dsimp only [ApprovalWorld.setRequest] at hsome
            rw [Function.update_apply] at hsome
            split_ifs at hsome with heq
            · obtain rfl | rfl := hcase <;> cases hsome
            · exact h.found t' other toolName' approved' answered' hsome
          · dsimp only [ApprovalWorld.setRequest] at hsome
            rw [Function.update_apply] at hsome
            split_ifs at hsome with heq
            · obtain rfl | rfl := hcase
              · cases hsome
              · cases hsome
                exact hsame
            · exact h.consumed t' other answered' hsome
        simp only [ApprovalWorld.step, hphase] at hstep
        split_ifs at hstep with hconsumed hname happroved
        · cases hstep
          exact hset (.inl rfl)
        · cases hstep
          exact hset (.inl rfl)
        · cases hstep
          have hmatched := hset (.inr rfl)
          exact ⟨hmatched.found, hmatched.consumed, hmatched.executed⟩
        · cases hstep
          have hmatched := hset (.inl rfl)
          exact ⟨hmatched.found, hmatched.consumed, hmatched.executed⟩
  | execute t =>
    cases hphase : w.requests t with
    | none => simp [ApprovalWorld.step, hphase] at hstep
    | some phase =>
      cases phase with
      | found => simp [ApprovalWorld.step, hphase] at hstep
      | consumed index answered =>
        simp only [ApprovalWorld.step, hphase, Option.some.injEq] at hstep
        subst hstep
        have hold : ∀ {t' phase}, Function.update w.requests t none t' = some phase →
            w.requests t' = some phase := by
          intro t' phase hsome
          rw [Function.update_apply] at hsome
          split_ifs at hsome
          exact hsome
        refine ⟨fun t' other toolName approved answered' hsome =>
            h.found t' other toolName approved answered' (hold hsome),
          fun t' other answered' hsome => h.consumed t' other answered' (hold hsome),
          fun run hrun => ?_⟩
        obtain hrun | hrun := List.mem_append.mp hrun
        · exact h.executed run hrun
        · rw [List.mem_singleton.mp hrun]
          exact h.consumed t index answered hphase

/-- Where no later message of the session reuses the id of a proposal that is answered, each
proposal is executed once at most, and each approval executes the one that it answers. -/
theorem approvals_faithful {actions : List ApprovalAction}
    (hunambiguous : Transition.Meets step Unambiguous fresh actions)
    (hrun : Transition.run step fresh actions = some w) : w.Faithful := by
  have hinvariant : w.Kept ∧ w.Matched := Transition.run_invariant (I := fun w => w.Kept ∧ w.Matched)
    (fun _ _ _ h hok hstep => ⟨h.1.step hstep, h.2.step hok hstep⟩)
    ⟨kept_fresh, fun _ _ _ _ _ h => (by cases h), fun _ _ _ h => (by cases h),
      fun _ h => (by cases h)⟩ hunambiguous hrun
  exact ⟨hinvariant.1.once, hinvariant.2.executed⟩

end ApprovalWorld

namespace Sample

/-- A backtest is proposed, approved and run. -/
def singleApproval : List ApprovalAction :=
  [.propose none "run_backtest" "1Y" 0, .store 0, .confirm 1 0 "run_backtest" true, .consume 1,
    .execute 1]

/-- Two turns propose a backtest each, and the first one is approved. -/
def reusedId : List ApprovalAction :=
  [.propose none "run_backtest" "1Y" 0, .store 0, .propose none "run_backtest" "10Y" 0, .store 1,
    .confirm 1 0 "run_backtest" true, .consume 1, .execute 1]

end Sample

namespace ApprovalWorld

open Sample

theorem approvals_faithful_single : ∃ w, Transition.run step fresh singleApproval = some w ∧
    w.executed = [(0, 0)] ∧ w.Faithful := by
  refine ⟨_, rfl, rfl, @approvals_faithful _ singleApproval ?_ rfl⟩
  refine Transition.meets_cons rfl trivial (Transition.meets_cons rfl trivial
    (Transition.meets_cons rfl (fun id hid => ?_) (Transition.meets_cons rfl trivial
      (Transition.meets_cons rfl trivial trivial))))
  exact .inr ⟨[], ⟨0, false⟩, [], rfl, rfl, fun _ h => absurd h List.not_mem_nil⟩

theorem approval_of_reused_id : ¬ ∀ (actions : List ApprovalAction) (w : ApprovalWorld),
    Transition.run step fresh actions = some w → w.Faithful := by
  intro hall
  have hsame := ((hall reusedId _ rfl).answered (1, 0) (List.mem_singleton_self _)).2
  exact absurd hsame (by decide)

end ApprovalWorld

end LlamaTrade
