import LlamaTrade.ExecutorFacts
import LlamaTrade.TransitionRuns

/-!
# Brackets of filled parents

A sync that finds a parent filled commits the row and then places its brackets. Between the
two the task owes the legs: it has them in its list, or is placing them. The alert about legs
that were rolled back is part of the system here.

Only a sync makes a task owe legs. A parent that is found filled when it is adopted, or when
its POST is answered, becomes FILLED without any; and what a task owes is gone when it crashes.
-/

namespace LlamaTrade

/-! ## Alerts -/

/-- The executor, and the parents whose failed brackets were reported. -/
structure AlertedWorld where
  executor : ExecutorWorld
  reported : List UUID

/-- The alert that `_submit_bracket_orders` sends after it has committed the rejected legs. It
may not be sent. -/
def reportedBy (w : ExecutorWorld) : ExecutorAction × Bool → List UUID
  | (.rejectLegs t, true) =>
    match w.tasks t with
    | .rollingBack job [] => [job.parent.id]
    | _ => []
  | _ => []

def alertedStep (hexdigest : String → String) (w : AlertedWorld) (action : ExecutorAction × Bool) :
    Option AlertedWorld :=
  (executorStep hexdigest w.executor action.1).map fun executor =>
    ⟨executor, w.reported ++ reportedBy w.executor action⟩

def AlertedWorld.empty : AlertedWorld := ⟨.empty, []⟩

/-- A leg of the parent that was submitted, or is closed with its failure reported. -/
def LegPlaced (w : ExecutorWorld) (reported : List UUID) (parent : UUID) (type : BracketType) :
    Prop :=
  ∃ row ∈ w.rows, row.parentOrderId = some parent ∧ row.bracketType = some type ∧
    (row.alpacaOrderId ≠ none ∨
      (row.status = .rejected ∨ row.status = .cancelled) ∧ parent ∈ reported)

/-- The task owes the legs of a parent. -/
def ExecutorPhase.Owes (parent : UUID) : ExecutorPhase → Prop
  | .handlingFills tail | .cancellingSiblings _ _ tail => ∃ row ∈ tail.parents, row.id = parent
  | .sendingLeg job _ _ | .waitingLeg job _ _ _ | .recordingLegs job | .rollingBack job _ =>
    job.parent.id = parent ∨ ∃ row ∈ job.tail.parents, row.id = parent
  | _ => False

/-- The task has nothing left to do. -/
def ExecutorPhase.AtRest : ExecutorPhase → Prop
  | .idle => True
  | .handlingFills tail => tail.parents = [] ∧ tail.brackets = []
  | _ => False

/-- The row asks for no legs. -/
def NoLegs (w : ExecutorWorld) (id : UUID) : Prop := ∀ row ∈ w.rows, row.id = id → legTypes row = []

/-- What a step has to meet. An order that is adopted, or whose POST is answered, is not filled
yet if its row asks for legs; no task crashes while it owes legs; their rows can be inserted;
and the failure of legs that are rolled back is reported. -/
def BracketsKept (w : AlertedWorld) : ExecutorAction × Bool → Prop
  | (.adopt t, _) => ∀ row order, w.executor.tasks t = .adopting row order →
      order.status = .filled → NoLegs w.executor row.id
  | (.recoverCommit t, _) => ∀ seen, w.executor.tasks t = .recovering [] seen →
      ∀ row order, (row, some order) ∈ seen → order.status = .filled → NoLegs w.executor row.id
  | (.record t _, _) => ∀ a row order, w.executor.tasks t = .recording a row order →
      order.status = .filled → NoLegs w.executor row
  | (.createLegs t ok id clientOrderId, _) => ok = true ∧
      ∀ parent parents brackets, w.executor.tasks t = .handlingFills ⟨parent :: parents, brackets⟩ →
        w.executor.insertable ((legTypes parent).map fun type =>
          newLeg parent type (id type) (clientOrderId type)) = true
  | (.rejectLegs _, alerted) => alerted = true
  | (.crash t, _) => ∀ parent, ¬ (w.executor.tasks t).Owes parent
  | _ => True

/-! ## Rows over a commit -/

section Rows

/-- A row after the writes of a commit. -/
def writeRow (writes : List (UUID × RowWrite)) (row : OrderRow) : OrderRow :=
  writes.foldl (fun row e => if row.id = e.1 then row.write e.2 else row) row

theorem writeRows_eq_map (rows : List OrderRow) (writes : List (UUID × RowWrite)) :
    writeRows rows writes = rows.map (writeRow writes) := by
  induction writes generalizing rows with
  | nil => exact (List.map_id rows).symm
  | cons e writes ih =>
    rw [writeRows, List.foldl_cons, ← writeRows, ih, List.map_map]
    rfl

/-- The columns that say whose leg a row is and which legs it asks for. -/
def OrderRow.plan (row : OrderRow) : UUID × Option UUID × Option BracketType × List BracketType :=
  (row.id, row.parentOrderId, row.bracketType, legTypes row)

theorem plan_writeRow (writes : List (UUID × RowWrite)) (row : OrderRow) :
    (writeRow writes row).plan = row.plan := by
  induction writes generalizing row with
  | nil => rfl
  | cons e writes ih =>
    rw [writeRow, List.foldl_cons, ← writeRow, ih]
    split_ifs <;> rfl

/-- A broker id stays, and is there after a commit that writes one. -/
theorem alpacaOrderId_writeRow {writes : List (UUID × RowWrite)} {row : OrderRow}
    (h : row.alpacaOrderId ≠ none ∨
      ∃ e ∈ writes, e.1 = row.id ∧ e.2.alpacaOrderId ≠ none) :
    (writeRow writes row).alpacaOrderId ≠ none := by
  induction writes generalizing row with
  | nil =>
    obtain h | ⟨e, he, -⟩ := h
    · exact h
    · cases he
  | cons e writes ih =>
    rw [writeRow, List.foldl_cons, ← writeRow]
    apply ih
    split_ifs with hid
    · obtain h | ⟨e', he', hid', hsome⟩ := h
      · left
        cases hw : e.2.alpacaOrderId with
        | none => simpa [OrderRow.write, hw] using h
        | some id => simp [OrderRow.write, hw]
      · obtain rfl | he' := List.mem_cons.mp he'
        · left
          obtain ⟨id, hw⟩ := Option.ne_none_iff_exists'.mp hsome
          simp [OrderRow.write, hw]
        · exact .inr ⟨e', he', hid', hsome⟩
    · refine h.imp_right fun hlater => ?_
      obtain ⟨e', he', hid', hsome⟩ := hlater
      obtain rfl | he' := List.mem_cons.mp he'
      · exact absurd hid'.symm hid
      · exact ⟨e', he', hid', hsome⟩

/-- A status that every write of the row keeps. -/
theorem status_writeRow {writes : List (UUID × RowWrite)} {row : OrderRow} {P : OrderStatus → Prop}
    (hrow : P row.status ∨ ∃ e ∈ writes, e.1 = row.id ∧ e.2.status ≠ none)
    (hwrites : ∀ e ∈ writes, e.1 = row.id → ∀ status, e.2.status = some status → P status) :
    P (writeRow writes row).status := by
  induction writes generalizing row with
  | nil =>
    obtain h | ⟨e, he, -⟩ := hrow
    · exact h
    · cases he
  | cons e writes ih =>
    rw [writeRow, List.foldl_cons, ← writeRow]
    have htail : ∀ e' ∈ writes, e'.1 = row.id → ∀ status, e'.2.status = some status → P status :=
      fun e' he' => hwrites e' (List.mem_cons_of_mem _ he')
    split_ifs with hid
    · refine ih ?_ htail
      cases hw : e.2.status with
      | some status =>
        left
        simpa [OrderRow.write, hw] using hwrites e (by simp) hid.symm status hw
      | none =>
        obtain h | ⟨e', he', hid', hsome⟩ := hrow
        · left
          simpa [OrderRow.write, hw] using h
        · obtain rfl | he' := List.mem_cons.mp he'
          · exact absurd hw hsome
          · exact .inr ⟨e', he', hid', hsome⟩
    · refine ih (hrow.imp_right fun hlater => ?_) htail
      obtain ⟨e', he', hid', hsome⟩ := hlater
      obtain rfl | he' := List.mem_cons.mp he'
      · exact absurd hid'.symm hid
      · exact ⟨e', he', hid', hsome⟩

end Rows

/-! ## What the tasks have loaded -/

/-- A row as a task has loaded it: the table has it, with the broker id if it had one. -/
def StoredRow (w : ExecutorWorld) (row : OrderRow) : Prop :=
  ∃ stored ∈ w.rows, stored.plan = row.plan ∧
    (row.alpacaOrderId ≠ none → stored.alpacaOrderId ≠ none)

def LegStored (w : ExecutorWorld) (parent : UUID) (type : BracketType) (id : UUID) : Prop :=
  ∃ row ∈ w.rows, row.id = id ∧ row.parentOrderId = some parent ∧ row.bracketType = some type

/-- The legs of a job are those its parent asks for, and their rows are in the table. -/
structure JobStored (w : ExecutorWorld) (job : LegJob) : Prop where
  parent : StoredRow w job.parent
  types : job.legs.map (·.1) = legTypes job.parent
  legs : ∀ leg ∈ job.legs, LegStored w job.parent.id leg.1 leg.2
  tail : ∀ row ∈ job.tail.parents, StoredRow w row

/-- A write that does not reopen a row without a broker id. -/
def WriteKeeps (w : ExecutorWorld) (e : UUID × RowWrite) : Prop :=
  e.2.alpacaOrderId ≠ none ∨
    (∀ status, e.2.status = some status → status = .rejected ∨ status = .cancelled) ∨
    ∃ row ∈ w.rows, row.id = e.1 ∧ row.alpacaOrderId ≠ none

def TaskStored (w : ExecutorWorld) : ExecutorPhase → Prop
  | .syncing todo seen => (∀ row ∈ todo, StoredRow w row) ∧
      ∀ e ∈ seen, StoredRow w e.1 ∧ e.1.alpacaOrderId ≠ none
  | .handlingFills tail => ∀ row ∈ tail.parents, StoredRow w row
  | .sendingLeg job legs _ | .waitingLeg job legs _ _ =>
    JobStored w job ∧ job.answers.map (·.1) ++ legs.map (·.2) = job.legs.map (·.2)
  | .recordingLegs job => JobStored w job ∧ job.answers.map (·.1) = job.legs.map (·.2)
  | .rollingBack job _ => JobStored w job
  | .cancellingSiblings todo writes tail => (∀ row ∈ todo, StoredRow w row) ∧
      (∀ e ∈ writes, WriteKeeps w e) ∧ ∀ row ∈ tail.parents, StoredRow w row
  | _ => True

/-- Rows stay, with their plan, and keep a broker id. -/
def RowsKept (w w' : ExecutorWorld) : Prop :=
  ∀ row ∈ w.rows, ∃ row' ∈ w'.rows, row'.plan = row.plan ∧
    (row.alpacaOrderId ≠ none → row'.alpacaOrderId ≠ none)

section Kept

variable {hexdigest : String → String} {w w' : ExecutorWorld} {action : ExecutorAction}

theorem rowsKept_of_subset (h : w.rows ⊆ w'.rows) : RowsKept w w' :=
  fun row hrow => ⟨row, h hrow, rfl, id⟩

theorem rowsKept_commit (t : ℕ) (writes : List (UUID × RowWrite)) (phase : ExecutorPhase) :
    RowsKept w (w.commit t writes phase) := by
  intro row hrow
  refine ⟨writeRow writes row, ?_, plan_writeRow writes row,
    fun h => alpacaOrderId_writeRow (.inl h)⟩
  rw [show (w.commit t writes phase).rows = writeRows w.rows writes from rfl, writeRows_eq_map]
  exact List.mem_map_of_mem hrow

theorem StoredRow.mono (hkept : RowsKept w w') {row : OrderRow} (h : StoredRow w row) :
    StoredRow w' row := by
  obtain ⟨stored, hmem, hplan, hid⟩ := h
  obtain ⟨stored', hmem', hplan', hid'⟩ := hkept stored hmem
  exact ⟨stored', hmem', hplan'.trans hplan, fun h => hid' (hid h)⟩

theorem plan_eq {row row' : OrderRow} (h : row'.plan = row.plan) : row'.id = row.id ∧
    row'.parentOrderId = row.parentOrderId ∧ row'.bracketType = row.bracketType ∧
    legTypes row' = legTypes row := by
  simpa [OrderRow.plan] using h

theorem LegStored.mono (hkept : RowsKept w w') {parent id : UUID} {type : BracketType}
    (h : LegStored w parent type id) : LegStored w' parent type id := by
  obtain ⟨row, hrow, rfl, hparent, htype⟩ := h
  obtain ⟨row', hrow', hplan, -⟩ := hkept row hrow
  obtain ⟨hid, hparent', htype', -⟩ := plan_eq hplan
  exact ⟨row', hrow', hid, hparent'.trans hparent, htype'.trans htype⟩

theorem JobStored.mono (hkept : RowsKept w w') {job : LegJob} (h : JobStored w job) :
    JobStored w' job :=
  ⟨h.parent.mono hkept, h.types, fun leg hleg => (h.legs leg hleg).mono hkept,
    fun row hrow => (h.tail row hrow).mono hkept⟩

theorem WriteKeeps.mono (hkept : RowsKept w w') {e : UUID × RowWrite} (h : WriteKeeps w e) :
    WriteKeeps w' e := by
  refine h.imp_right (Or.imp_right fun ⟨row, hrow, hid, hsome⟩ => ?_)
  obtain ⟨row', hrow', hplan, hkeeps⟩ := hkept row hrow
  exact ⟨row', hrow', (plan_eq hplan).1.trans hid, hkeeps hsome⟩

theorem TaskStored.mono (hkept : RowsKept w w') {phase : ExecutorPhase} (h : TaskStored w phase) :
    TaskStored w' phase := by
  cases phase with
  | syncing todo seen =>
    exact ⟨fun row hrow => (h.1 row hrow).mono hkept,
      fun e he => ⟨(h.2 e he).1.mono hkept, (h.2 e he).2⟩⟩
  | handlingFills tail => exact fun row hrow => (h row hrow).mono hkept
  | sendingLeg job legs tries => exact ⟨h.1.mono hkept, h.2⟩
  | waitingLeg job legs tries token => exact ⟨h.1.mono hkept, h.2⟩
  | recordingLegs job => exact ⟨h.1.mono hkept, h.2⟩
  | rollingBack job ids => exact JobStored.mono hkept h
  | cancellingSiblings todo writes tail =>
    exact ⟨fun row hrow => (h.1 row hrow).mono hkept, fun e he => (h.2.1 e he).mono hkept,
      fun row hrow => (h.2.2 row hrow).mono hkept⟩
  | _ => trivial

/-- A write of what a sync found for a row with a broker id. -/
theorem writeKeeps_synced {row : OrderRow} (h : StoredRow w row) (hid : row.alpacaOrderId ≠ none)
    (write : RowWrite) : WriteKeeps w (row.id, write) := by
  obtain ⟨stored, hmem, hplan, hkeeps⟩ := h
  exact .inr (.inr ⟨stored, hmem, (plan_eq hplan).1, hkeeps hid⟩)

theorem writeKeeps_sibling {sibling : OrderRow} {outcome : SiblingCancel} (h : StoredRow w sibling)
    {e : UUID × RowWrite} (he : e ∈ siblingWrites w sibling outcome) : WriteKeeps w e := by
  unfold siblingWrites at he
  split_ifs at he
  · split at he
    · rename_i answered id hsome
      split at he
      · rw [List.mem_singleton.mp he]
        exact writeKeeps_synced h (by simp [hsome]) _
      · cases he
    · rw [List.mem_singleton.mp he]
      exact .inr (.inl fun status hstatus => by simp [statusWrite] at hstatus; simp [← hstatus])
  · cases he

/-- The writes of a move reopen no row without a broker id. -/
theorem writeKeeps_local {t : ℕ} {old new : ExecutorPhase} {writes : List (UUID × RowWrite)}
    (hstored : TaskStored w old) (h : LocalStep hexdigest w action t old new writes) :
    ∀ e ∈ writes, WriteKeeps w e := by
  intro e he
  cases h with
  | adopt =>
    rw [List.mem_singleton.mp he]
    exact .inl (by simp [adoptOrder])
  | record =>
    rw [List.mem_singleton.mp he]
    exact .inl (by simp [answerWrite])
  | reject =>
    rw [List.mem_singleton.mp he]
    exact .inr (.inl fun status hstatus => by simp [statusWrite] at hstatus; simp [← hstatus])
  | recoverCommit =>
    obtain ⟨⟨row, _ | order⟩, -, rfl⟩ := List.mem_map.mp he
    · exact .inr (.inl fun status hstatus => by
        simp [recoveryWrite, statusWrite] at hstatus; simp [← hstatus])
    · exact .inl (by simp [recoveryWrite, adoptOrder])
  | syncCommit =>
    obtain ⟨e', he', rfl⟩ := List.mem_map.mp he
    exact writeKeeps_synced (hstored.2 e' he').1 (hstored.2 e' he').2 _
  | recordLegs =>
    obtain ⟨e', -, rfl⟩ := List.mem_map.mp he
    exact .inl (by simp [answerWrite])
  | rejectLegs =>
    obtain ⟨leg, -, rfl⟩ := List.mem_map.mp he
    exact .inr (.inl fun status hstatus => by
      simp [statusWrite] at hstatus; simp [← hstatus])
  | siblingsCommit => exact hstored.2.1 e he
  | _ => cases he

end Kept

/-! ## Filled parents are covered -/

/-- Every leg of a filled parent was placed, or a task owes it. -/
def ParentsCovered (w : ExecutorWorld) (reported : List UUID) : Prop :=
  ∀ row ∈ w.rows, row.status = .filled → row.parentOrderId = none → ∀ type ∈ legTypes row,
    LegPlaced w reported row.id type ∨ ∃ t, (w.tasks t).Owes row.id

section Covering

variable {hexdigest : String → String} {w w' : ExecutorWorld} {action : ExecutorAction}
  {reported reported' : List UUID}

theorem ExecutorKnown.row_eq (hknown : ExecutorKnown hexdigest w) {row row' : OrderRow}
    (hrow : row ∈ w.rows) (hrow' : row' ∈ w.rows) (h : row.id = row'.id) : row = row' := by
  have hids : (w.rows.map (·.id)).Nodup := by
    have hkeys := hknown.ids
    rw [ExecutorWorld.keys, List.map_map] at hkeys
    exact hkeys
  exact List.inj_on_of_nodup_map hids hrow hrow' h

theorem LegPlaced.mono (hrows : w.rows ⊆ w'.rows) (hreported : reported ⊆ reported') {parent : UUID}
    {type : BracketType} (h : LegPlaced w reported parent type) :
    LegPlaced w' reported' parent type := by
  obtain ⟨row, hrow, hparent, htype, hplaced⟩ := h
  exact ⟨row, hrows hrow, hparent, htype, hplaced.imp_right fun h => ⟨h.1, hreported h.2⟩⟩

theorem LegPlaced.commit (hknown : ExecutorKnown hexdigest w) {writes : List (UUID × RowWrite)}
    (hkeeps : ∀ e ∈ writes, WriteKeeps w e) (hreported : reported ⊆ reported') (t : ℕ)
    (phase : ExecutorPhase) {parent : UUID} {type : BracketType}
    (h : LegPlaced w reported parent type) :
    LegPlaced (w.commit t writes phase) reported' parent type := by
  obtain ⟨row, hrow, hparent, htype, hplaced⟩ := h
  obtain ⟨-, hparent', htype', -⟩ := plan_eq (plan_writeRow writes row)
  refine ⟨writeRow writes row, ?_, hparent'.trans hparent, htype'.trans htype, ?_⟩
  · rw [show (w.commit t writes phase).rows = writeRows w.rows writes from rfl, writeRows_eq_map]
    exact List.mem_map_of_mem hrow
  by_cases hsome : row.alpacaOrderId ≠ none ∨ ∃ e ∈ writes, e.1 = row.id ∧ e.2.alpacaOrderId ≠ none
  · exact .inl (alpacaOrderId_writeRow hsome)
  -- The row has no broker id and gets none, so it is closed and stays closed.
  · push Not at hsome
    obtain ⟨hnone, hwrites⟩ := hsome
    obtain h | ⟨hclosed, hreport⟩ := hplaced
    · exact absurd hnone h
    · refine .inr ⟨status_writeRow (P := fun status => status = .rejected ∨ status = .cancelled)
        (.inl hclosed) fun e he hid status hstatus => ?_, hreported hreport⟩
      obtain h | h | ⟨row', hrow', hid', h⟩ := hkeeps e he
      · exact absurd (hwrites e he hid) h
      · exact h status hstatus
      · rw [hknown.row_eq hrow' hrow (hid'.trans hid)] at h
        exact absurd hnone h

/-- A step that inserts rows that are not filled, and in which no task gives up what it owes. -/
theorem ParentsCovered.of_rows (h : ParentsCovered w reported) (hrows : w.rows ⊆ w'.rows)
    (hnew : ∀ row ∈ w'.rows, row ∈ w.rows ∨ row.status ≠ .filled)
    (howes : ∀ t parent, (w.tasks t).Owes parent → (w'.tasks t).Owes parent) :
    ParentsCovered w' reported := by
  intro row hrow hfilled hparent type htype
  obtain hold | hopen := hnew row hrow
  · refine (h row hold hfilled hparent type htype).imp (·.mono hrows (List.Subset.refl _)) ?_
    rintro ⟨t, ht⟩
    exact ⟨t, howes t _ ht⟩
  · exact absurd hfilled hopen

theorem owes_update {t : ℕ} {phase : ExecutorPhase}
    (howes : ∀ parent, (w.tasks t).Owes parent → phase.Owes parent) (t' : ℕ) (parent : UUID)
    (h : (w.tasks t').Owes parent) : (Function.update w.tasks t phase t').Owes parent := by
  by_cases ht : t' = t
  · subst ht
    rw [Function.update_self]
    exact howes parent h
  · rwa [Function.update_of_ne ht]

/-- A commit that fills only parents whose legs the task then owes, and after which the task
owes what it did or has placed it. -/
theorem ParentsCovered.commit (hknown : ExecutorKnown hexdigest w) (h : ParentsCovered w reported) {t : ℕ}
    {phase : ExecutorPhase} {writes : List (UUID × RowWrite)}
    (hkeeps : ∀ e ∈ writes, WriteKeeps w e) (hreported : reported ⊆ reported')
    (hfilled : ∀ e ∈ writes, e.2.status = some .filled → ∀ row ∈ w.rows, row.id = e.1 →
      row.parentOrderId = none → legTypes row ≠ [] → phase.Owes row.id)
    (howes : ∀ parent, (w.tasks t).Owes parent → phase.Owes parent ∨
      ∀ row ∈ w.rows, row.id = parent → ∀ type ∈ legTypes row,
        LegPlaced (w.commit t writes phase) reported' parent type) :
    ParentsCovered (w.commit t writes phase) reported' := by
  intro row' hrow' hstatus hparent type htype
  rw [show (w.commit t writes phase).rows = writeRows w.rows writes from rfl,
    writeRows_eq_map] at hrow'
  obtain ⟨row, hrow, rfl⟩ := List.mem_map.mp hrow'
  obtain ⟨hid, hparent', -, htypes⟩ := plan_eq (plan_writeRow writes row)
  rw [hparent'] at hparent
  rw [htypes] at htype
  rw [hid]
  have hself : (w.commit t writes phase).tasks t = phase := Function.update_self ..
  have hfrom : (writeRow writes row).status = row.status ∨
      ∃ e ∈ writes, e.1 = row.id ∧ e.2.status = some (writeRow writes row).status :=
    status_writeRow (P := fun status => status = row.status ∨
      ∃ e ∈ writes, e.1 = row.id ∧ e.2.status = some status) (.inl (.inl rfl))
      fun e he heid status hwrite => .inr ⟨e, he, heid, hwrite⟩
  rw [hstatus] at hfrom
  obtain hsame | ⟨e, he, heid, hwrite⟩ := hfrom
  · obtain hplaced | ⟨t', ht'⟩ := h row hrow hsame.symm hparent type htype
    · exact .inl (hplaced.commit hknown hkeeps hreported t phase)
    · by_cases heq : t' = t
      · subst heq
        obtain howed | hplaced := howes row.id ht'
        · refine .inr ⟨t', ?_⟩
          rw [hself]
          exact howed
        · exact .inl (hplaced row hrow rfl type htype)
      · refine .inr ⟨t', ?_⟩
        rw [commit_tasks, Function.update_of_ne heq]
        exact ht'
  · refine .inr ⟨t, ?_⟩
    rw [hself]
    exact hfilled e he hwrite row hrow heid.symm hparent (List.ne_nil_of_mem htype)

end Covering

/-! ## Steps -/

section Steps

variable {hexdigest : String → String} {w w' : ExecutorWorld} {action : ExecutorAction}

theorem mapAlpacaStatus_filled {status : AlpacaStatus} (h : mapAlpacaStatus status = .filled) :
    status = .filled := by
  cases status with
  | filled => rfl
  | _ => cases h

theorem changed_filled {loaded : OrderStatus} {status : AlpacaStatus}
    (h : changed loaded (mapAlpacaStatus status) = some .filled) :
    loaded ≠ .filled ∧ status = .filled := by
  unfold changed at h
  split_ifs at h with hsame
  have hmap := Option.some.inj h
  exact ⟨fun hloaded => hsame (hmap.trans hloaded.symm), mapAlpacaStatus_filled hmap⟩

theorem storedRow_of_mem {row : OrderRow} (h : row ∈ w.rows) : StoredRow w row := ⟨row, h, rfl, id⟩

/-- The parents of a sync's tail are rows that it has seen. -/
theorem mem_syncTail_parents {seen : List (OrderRow × BrokerOrder)} {row : OrderRow}
    (h : row ∈ (syncTail seen).parents) : ∃ e ∈ seen, e.1 = row := by
  obtain ⟨e, he, rfl⟩ := List.mem_map.mp h
  exact ⟨e, List.mem_of_mem_filter he, rfl⟩

theorem afterFailure_stored {failure : AlpacaFailure} {old new : ExecutorPhase}
    (hold : TaskStored w old) (h : afterFailure failure old = some new) : TaskStored w new := by
  unfold afterFailure at h
  split at h
  · split_ifs at h
    · cases h
      trivial
    · cases h
      trivial
  · split_ifs at h
    · cases h
      exact hold
    · cases h
      exact hold.1
  · cases h

theorem afterFailure_owes {failure : AlpacaFailure} {old new : ExecutorPhase}
    (h : afterFailure failure old = some new) {parent : UUID} (howes : old.Owes parent) :
    new.Owes parent := by
  unfold afterFailure at h
  split at h
  · exact absurd howes id
  · split_ifs at h
    · cases h
      exact howes
    · cases h
      exact howes
  · cases h

theorem afterAnswer_stored {order : BrokerOrder} {old new : ExecutorPhase}
    (hold : TaskStored w old) (h : afterAnswer order old = some new) : TaskStored w new := by
  unfold afterAnswer at h
  split at h
  · cases h
    trivial
  · rename_i job leg legs tries token
    obtain ⟨hjob, hanswers⟩ := hold
    have hjob' : JobStored w { job with answers := job.answers ++ [(leg.2, order)] } :=
      ⟨hjob.parent, hjob.types, hjob.legs, hjob.tail⟩
    have hanswers' : (job.answers ++ [(leg.2, order)]).map (·.1) ++ legs.map (·.2) =
        job.legs.map (·.2) := by
      rw [← hanswers]
      simp
    simp only at h
    split_ifs at h with hlast
    · cases h
      subst hlast
      exact ⟨hjob', by simpa using hanswers'⟩
    · cases h
      exact ⟨hjob', hanswers'⟩
  · cases h

theorem afterAnswer_owes {order : BrokerOrder} {old new : ExecutorPhase}
    (h : afterAnswer order old = some new) {parent : UUID} (howes : old.Owes parent) :
    new.Owes parent := by
  unfold afterAnswer at h
  split at h
  · exact absurd howes id
  · simp only at h
    split_ifs at h
    · cases h
      exact howes
    · cases h
      exact howes
  · cases h

/-- What a task has loaded after a move of its own. The moves of the tail of a sync say too
little about its parents and are left out. -/
theorem local_stored {t : ℕ} {old new : ExecutorPhase} {writes : List (UUID × RowWrite)}
    (hcreate : ∀ t ok id clientOrderId, action ≠ .createLegs t ok id clientOrderId)
    (hselect : ∀ t, action ≠ .selectSiblings t) (hold : TaskStored w old)
    (h : LocalStep hexdigest w action t old new writes) : TaskStored w new := by
  cases h with
  | submit _ hphase =>
    obtain ⟨rfl, -⟩ | rfl := hphase
    · trivial
    · trivial
  | fail hphase => exact afterFailure_stored hold hphase
  | sync todo htodo =>
    exact ⟨fun row hrow => storedRow_of_mem (htodo row hrow), fun _ he => absurd he List.not_mem_nil⟩
  | @fetched _ _ row order todo todo' seen hrow htodo horder =>
    refine ⟨fun row hrow => hold.1 row (htodo row hrow), fun e he => ?_⟩
    obtain he | he := List.mem_append.mp he
    · exact hold.2 e he
    · cases List.mem_singleton.mp he
      obtain ⟨id, hid, -⟩ := Option.bind_eq_some_iff.mp horder
      exact ⟨hold.1 row hrow, by simp [hid]⟩
  | fetchSkip htodo => exact ⟨fun row hrow => hold.1 row (htodo row hrow), hold.2⟩
  | syncCommit =>
    intro row hrow
    obtain ⟨e, he, rfl⟩ := mem_syncTail_parents hrow
    exact (hold.2 e he).1
  | legsFail _ => exact absurd rfl (hcreate _ _ _ _)
  | recordLegs => exact hold.1.tail
  | recordLegsFails => exact hold.1
  | rollback => exact hold
  | rejectLegs => exact hold.tail
  | selectSiblings _ _ _ _ => exact absurd rfl (hselect _)
  | cancelSibling =>
    refine ⟨fun row hrow => hold.1 row (List.mem_cons_of_mem _ hrow), fun e he => ?_, hold.2.2⟩
    obtain he | he := List.mem_append.mp he
    · exact hold.2.1 e he
    · exact writeKeeps_sibling (hold.1 _ (List.mem_cons_self ..)) he
  | siblingsCommit => exact hold.2.2
  | _ => trivial

/-- A move that commits nothing about legs, and is no crash, gives up nothing that is owed. -/
theorem local_owes {t : ℕ} {old new : ExecutorPhase} {writes : List (UUID × RowWrite)}
    (hcreate : ∀ t ok id clientOrderId, action ≠ .createLegs t ok id clientOrderId)
    (hselect : ∀ t, action ≠ .selectSiblings t) (hcrash : ∀ t, action ≠ .crash t)
    (hrecord : action ≠ .recordLegs t true) (hreject : action ≠ .rejectLegs t)
    (h : LocalStep hexdigest w action t old new writes) {parent : UUID} (howes : old.Owes parent) :
    new.Owes parent := by
  cases h with
  | crash => exact absurd rfl (hcrash _)
  | fail hphase => exact afterFailure_owes hphase howes
  | legsFail _ => exact absurd rfl (hcreate _ _ _ _)
  | recordLegs => exact absurd rfl hrecord
  | recordLegsFails => exact howes
  | rollback => exact howes
  | rejectLegs => exact absurd rfl hreject
  | selectSiblings _ _ _ _ => exact absurd rfl (hselect _)
  | cancelSibling => exact howes
  | siblingsCommit => exact howes
  | _ => exact absurd howes id

/-- The row of a leg is no parent. -/
theorem ExecutorKnown.legAt_parent (hknown : ExecutorKnown hexdigest w) {row : OrderRow}
    (hrow : row ∈ w.rows) {id : UUID} (hid : row.id = id) (hleg : w.LegAt id) :
    row.parentOrderId ≠ none := by
  obtain ⟨c, parent, hmem⟩ := hleg
  have hkey := hknown.key_eq (mem_keys hrow) hmem hid
  have hparent : row.parentOrderId = some parent := congrArg (·.2.2) hkey
  simp [hparent]

/-- A commit fills no parent with legs but those whose legs the task then owes. -/
theorem local_fills (hknown : ExecutorKnown hexdigest w) {reported : List UUID} {t : ℕ}
    {new : ExecutorPhase} {writes : List (UUID × RowWrite)} {alerted : Bool}
    (hstored : TaskStored w (w.tasks t)) (hok : BracketsKept ⟨w, reported⟩ (action, alerted))
    (h : LocalStep hexdigest w action t (w.tasks t) new writes) :
    ∀ e ∈ writes, e.2.status = some .filled → ∀ row ∈ w.rows, row.id = e.1 →
      row.parentOrderId = none → legTypes row ≠ [] → new.Owes row.id := by
  intro e he hwrite row hrow hid hparent hlegs
  have hknows := hknown.tasks t
  generalize hold : w.tasks t = old at h hstored hknows
  cases h with
  | adopt =>
    rw [List.mem_singleton.mp he] at hid hwrite
    exact absurd (hok _ _ hold (changed_filled hwrite).2 row hrow hid) hlegs
  | record =>
    rw [List.mem_singleton.mp he] at hid hwrite
    exact absurd (hok _ _ _ hold (changed_filled hwrite).2 row hrow hid) hlegs
  | reject =>
    rw [List.mem_singleton.mp he] at hwrite
    cases hwrite
  | recoverCommit =>
    obtain ⟨⟨loaded, _ | order⟩, hseen, rfl⟩ := List.mem_map.mp he
    · cases hwrite
    · exact absurd (hok _ hold loaded order hseen (changed_filled hwrite).2 row hrow hid) hlegs
  | syncCommit =>
    obtain ⟨⟨loaded, order⟩, hseen, rfl⟩ := List.mem_map.mp he
    obtain ⟨hopen, horder⟩ := changed_filled hwrite
    obtain ⟨stored, hmem, hplan, -⟩ := (hstored.2 _ hseen).1
    obtain ⟨hloadedId, hloadedParent, -, hloadedLegs⟩ := plan_eq hplan
    cases hknown.row_eq hmem hrow (hloadedId.trans hid.symm)
    refine ⟨loaded, List.mem_map.mpr ⟨(loaded, order), List.mem_filter.mpr ⟨hseen, ?_⟩, rfl⟩,
      hloadedId.symm⟩
    have hstatus : order.status = .filled := horder
    have hloaded : loaded.status ≠ .filled := hopen
    have hnoParent : loaded.parentOrderId = none := hloadedParent.symm.trans hparent
    have hasks : legTypes loaded ≠ [] := hloadedLegs ▸ hlegs
    show (justFilled loaded order && loaded.parentOrderId.isNone && !(legTypes loaded).isEmpty) = true
    simp [justFilled, hstatus, hloaded, mapAlpacaStatus, hnoParent, hasks]
  | recordLegs =>
    obtain ⟨⟨id, order⟩, hanswer, rfl⟩ := List.mem_map.mp he
    exact absurd hparent (hknown.legAt_parent hrow hid (hknows.answers _ hanswer))
  | rejectLegs =>
    obtain ⟨leg, -, rfl⟩ := List.mem_map.mp he
    cases hwrite
  | siblingsCommit => exact absurd hparent (hknown.legAt_parent hrow hid (hknows.2.1 e he))
  | _ => cases he

/-- The legs that a parent asks for have rows while they are placed. -/
theorem JobStored.leg (hknown : ExecutorKnown hexdigest w) {job : LegJob} (h : JobStored w job)
    {row : OrderRow} (hrow : row ∈ w.rows) (hid : row.id = job.parent.id) {type : BracketType}
    (htype : type ∈ legTypes row) : ∃ leg ∈ job.legs, leg.1 = type ∧ ∃ legRow ∈ w.rows,
      legRow.id = leg.2 ∧ legRow.parentOrderId = some job.parent.id ∧
        legRow.bracketType = some type := by
  obtain ⟨stored, hmem, hplan, -⟩ := h.parent
  obtain ⟨hstoredId, -, -, hstoredLegs⟩ := plan_eq hplan
  cases hknown.row_eq hmem hrow (hstoredId.trans hid.symm)
  rw [hstoredLegs, ← h.types] at htype
  obtain ⟨leg, hleg, rfl⟩ := List.mem_map.mp htype
  exact ⟨leg, hleg, rfl, h.legs leg hleg⟩

theorem mem_commit {t : ℕ} {writes : List (UUID × RowWrite)} {phase : ExecutorPhase}
    {row : OrderRow} (h : row ∈ w.rows) : writeRow writes row ∈ (w.commit t writes phase).rows := by
  rw [show (w.commit t writes phase).rows = writeRows w.rows writes from rfl, writeRows_eq_map]
  exact List.mem_map_of_mem h

/-- The legs whose answers are recorded are placed. -/
theorem placed_recordLegs (hknown : ExecutorKnown hexdigest w) {job : LegJob}
    (h : TaskStored w (.recordingLegs job)) (reported : List UUID) (t : ℕ) (phase : ExecutorPhase)
    {row : OrderRow} (hrow : row ∈ w.rows) (hid : row.id = job.parent.id) {type : BracketType}
    (htype : type ∈ legTypes row) :
    LegPlaced (w.commit t (job.answers.map fun e => (e.1, answerWrite e.2)) phase) reported
      job.parent.id type := by
  obtain ⟨leg, hleg, rfl, legRow, hlegRow, hlegId, hparent, hbracket⟩ := h.1.leg hknown hrow hid htype
  have hmem : leg.2 ∈ job.answers.map (·.1) := by
    rw [h.2]
    exact List.mem_map_of_mem hleg
  obtain ⟨answer, hanswer, heq⟩ := List.mem_map.mp hmem
  obtain ⟨-, hparent', hbracket', -⟩ :=
    plan_eq (plan_writeRow (job.answers.map fun e => (e.1, answerWrite e.2)) legRow)
  refine ⟨_, mem_commit hlegRow, hparent'.trans hparent, hbracket'.trans hbracket, .inl ?_⟩
  refine alpacaOrderId_writeRow (.inr ⟨_, List.mem_map.mpr ⟨answer, hanswer, rfl⟩, ?_, ?_⟩)
  · exact heq.trans hlegId.symm
  · simp [answerWrite]

/-- The legs that are rolled back are rejected. -/
theorem placed_rejectLegs (hknown : ExecutorKnown hexdigest w) {job : LegJob}
    (h : JobStored w job) {reported : List UUID} (hreported : job.parent.id ∈ reported) (t : ℕ)
    (phase : ExecutorPhase) {row : OrderRow} (hrow : row ∈ w.rows) (hid : row.id = job.parent.id)
    {type : BracketType} (htype : type ∈ legTypes row) :
    LegPlaced (w.commit t (rollbackWrites job) phase) reported job.parent.id type := by
  obtain ⟨leg, hleg, rfl, legRow, hlegRow, hlegId, hparent, hbracket⟩ := h.leg hknown hrow hid htype
  obtain ⟨-, hparent', hbracket', -⟩ := plan_eq (plan_writeRow (rollbackWrites job) legRow)
  refine ⟨_, mem_commit hlegRow, hparent'.trans hparent, hbracket'.trans hbracket,
    .inr ⟨.inl ?_, hreported⟩⟩
  refine status_writeRow (P := (· = .rejected))
    (.inr ⟨_, List.mem_map.mpr ⟨leg, hleg, rfl⟩, hlegId.symm, by simp [statusWrite]⟩) ?_
  intro e he _ status hstatus
  obtain ⟨leg', -, rfl⟩ := List.mem_map.mp he
  exact (Option.some.inj hstatus).symm

end Steps

/-! ## Runs -/

/-- Every filled parent is covered, and the tasks have loaded what the table has. -/
structure BracketsSound (hexdigest : String → String) (w : AlertedWorld) : Prop where
  known : ExecutorKnown hexdigest w.executor
  stored : ∀ t, TaskStored w.executor (w.executor.tasks t)
  covered : ParentsCovered w.executor w.reported

section Runs

variable {hexdigest : String → String} {w w' : ExecutorWorld} {action : ExecutorAction}
  {reported : List UUID} {alerted : Bool}

theorem tasks_stored (hstored : ∀ t, TaskStored w (w.tasks t)) (hkept : RowsKept w w') {t : ℕ}
    {phase : ExecutorPhase} (hphase : TaskStored w' phase)
    (htasks : w'.tasks = Function.update w.tasks t phase) (t' : ℕ) :
    TaskStored w' (w'.tasks t') := by
  rw [htasks]
  by_cases ht : t' = t
  · subst ht
    rwa [Function.update_self]
  · rw [Function.update_of_ne ht]
    exact (hstored t').mono hkept

/-- A step that inserts rows and moves at most one task. -/
theorem BracketsSound.insert (h : BracketsSound hexdigest ⟨w, reported⟩)
    (hknown : ExecutorKnown hexdigest w') {t : ℕ} {phase : ExecutorPhase}
    (htasks : w'.tasks = Function.update w.tasks t phase)
    (hrows : w.rows ⊆ w'.rows) (hnew : ∀ row ∈ w'.rows, row ∈ w.rows ∨ row.status ≠ .filled)
    (hphase : TaskStored w' phase)
    (howes : ∀ parent, (w.tasks t).Owes parent → phase.Owes parent) :
    BracketsSound hexdigest ⟨w', reported⟩ where
  known := hknown
  stored := tasks_stored h.stored (rowsKept_of_subset hrows) hphase htasks
  covered := by
    refine h.covered.of_rows hrows hnew fun t' parent ht' => ?_
    rw [htasks]
    exact owes_update howes t' parent ht'

/-- A step that moves one task and leaves the rows alone. -/
theorem BracketsSound.task (h : BracketsSound hexdigest ⟨w, reported⟩)
    (hknown : ExecutorKnown hexdigest w') {t : ℕ} {phase : ExecutorPhase}
    (htasks : w'.tasks = Function.update w.tasks t phase) (hrows : w'.rows = w.rows)
    (hphase : TaskStored w phase)
    (howes : ∀ parent, (w.tasks t).Owes parent → phase.Owes parent) :
    BracketsSound hexdigest ⟨w', reported⟩ := by
  have hsubset : w.rows ⊆ w'.rows := hrows ▸ List.Subset.refl _
  exact h.insert hknown htasks hsubset (fun row hrow => .inl (hrows ▸ hrow))
    (hphase.mono (rowsKept_of_subset hsubset)) howes

/-- A step that touches neither the rows nor the tasks. -/
theorem BracketsSound.same (h : BracketsSound hexdigest ⟨w, reported⟩)
    (hknown : ExecutorKnown hexdigest w') (hrows : w'.rows = w.rows) (htasks : w'.tasks = w.tasks) :
    BracketsSound hexdigest ⟨w', reported⟩ where
  known := hknown
  stored t := by
    rw [htasks]
    exact (h.stored t).mono (rowsKept_of_subset (hrows ▸ List.Subset.refl _))
  covered := h.covered.of_rows (hrows ▸ List.Subset.refl _) (fun row hrow => .inl (hrows ▸ hrow))
    fun t parent ht => htasks ▸ ht

/-- A move of one task. -/
theorem BracketsSound.moved (h : BracketsSound hexdigest ⟨w, reported⟩) {t : ℕ}
    {phase : ExecutorPhase} {writes : List (UUID × RowWrite)}
    (hcreate : ∀ t ok id clientOrderId, action ≠ .createLegs t ok id clientOrderId)
    (hselect : ∀ t, action ≠ .selectSiblings t)
    (hok : BracketsKept ⟨w, reported⟩ (action, alerted))
    (hstep : LocalStep hexdigest w action t (w.tasks t) phase writes) :
    BracketsSound hexdigest
      ⟨w.commit t writes phase, reported ++ reportedBy w (action, alerted)⟩ := by
  have hreported : reported ⊆ reported ++ reportedBy w (action, alerted) :=
    List.subset_append_left _ _
  have hkept : RowsKept w (w.commit t writes phase) := rowsKept_commit t writes phase
  refine ⟨h.known.moved hstep, tasks_stored h.stored hkept
    ((local_stored hcreate hselect (h.stored t) hstep).mono hkept) rfl, ?_⟩
  refine h.covered.commit h.known (writeKeeps_local (h.stored t) hstep) hreported
    (local_fills h.known (h.stored t) hok hstep) fun parent howes => ?_
  have hstored := h.stored t
  by_cases hrecord : action = .recordLegs t true
  · subst hrecord
    generalize hold : w.tasks t = old at hstep hstored howes
    cases hstep with
    | recordLegs =>
      obtain rfl | howed := howes
      · exact .inr fun row hrow hid type htype =>
          placed_recordLegs h.known hstored _ t _ hrow hid htype
      · exact .inl howed
    | sync _ _ => exact absurd howes id
  by_cases hreject : action = .rejectLegs t
  · subst hreject
    have hold : ∀ job, w.tasks t = .rollingBack job [] →
        job.parent.id ∈ reported ++ reportedBy w (.rejectLegs t, alerted) := by
      intro job hold
      obtain rfl : alerted = true := hok
      simp [reportedBy, hold]
    generalize hphase : w.tasks t = old at hstep hstored howes
    cases hstep with
    | rejectLegs =>
      obtain rfl | howed := howes
      · exact .inr fun row hrow hid type htype =>
          placed_rejectLegs h.known hstored (hold _ hphase) t _ hrow hid htype
      · exact .inl howed
    | sync _ _ => exact absurd howes id
  · by_cases hcrash : ∃ t, action = .crash t
    · obtain ⟨t', rfl⟩ := hcrash
      generalize hold : w.tasks t = old at hstep howes
      cases hstep with
      | crash => exact absurd howes (hold ▸ hok parent)
      | sync _ _ => exact absurd howes id
    · exact .inl (local_owes hcreate hselect (fun t h => hcrash ⟨t, h⟩) hrecord hreject hstep howes)

/-- Rows for the legs of the next parent are inserted. -/
theorem BracketsSound.createLegs (h : BracketsSound hexdigest ⟨w, reported⟩) {t : ℕ} {ok : Bool}
    {id clientOrderId : BracketType → UUID}
    (hok : BracketsKept ⟨w, reported⟩ (.createLegs t ok id clientOrderId, alerted))
    (hstep : executorStep hexdigest w (.createLegs t ok id clientOrderId) = some w') :
    BracketsSound hexdigest ⟨w', reported⟩ := by
  have hknown := h.known.step hstep
  obtain ⟨rfl, hinsertable⟩ := hok
  simp only [executorStep] at hstep
  split at hstep
  · rename_i parent parents brackets htask
    have hold : TaskStored w (.handlingFills ⟨parent :: parents, brackets⟩) := htask ▸ h.stored t
    rw [if_pos ⟨trivial, hinsertable parent parents brackets htask⟩] at hstep
    cases hstep
    have hsubset : w.rows ⊆ w.rows ++ (legTypes parent).map fun type =>
      newLeg parent type (id type) (clientOrderId type) := List.subset_append_left _ _
    refine h.insert hknown rfl hsubset ?_ ?_ ?_
    · intro row hrow
      refine (List.mem_append.mp hrow).imp_right fun hnew => ?_
      obtain ⟨type, -, rfl⟩ := List.mem_map.mp hnew
      simp [newLeg]
    · have hkept : RowsKept w { w.setTask t (.sendingLeg
          ⟨parent, (legTypes parent).map fun type => (type, id type), [], ⟨parents, brackets⟩⟩
          ((legTypes parent).map fun type => (type, id type)) 0) with
          rows := w.rows ++ (legTypes parent).map fun type =>
            newLeg parent type (id type) (clientOrderId type) } := rowsKept_of_subset hsubset
      refine ⟨⟨(hold parent (by simp)).mono hkept, by simp [Function.comp_def], fun leg hleg => ?_,
        fun row hrow => (hold row (by simp [hrow])).mono hkept⟩, rfl⟩
      obtain ⟨type, htype, rfl⟩ := List.mem_map.mp hleg
      exact ⟨newLeg parent type (id type) (clientOrderId type),
        List.mem_append_right _ (List.mem_map.mpr ⟨type, htype, rfl⟩), rfl, rfl, rfl⟩
    · intro p howes
      rw [htask] at howes
      obtain ⟨row, hrow, rfl⟩ := howes
      obtain rfl | hrow := List.mem_cons.mp hrow
      · exact .inl rfl
      · exact .inr ⟨row, hrow, rfl⟩
  · cases hstep

/-- The siblings of the next filled bracket are selected; no parents are left then. -/
theorem BracketsSound.selectSiblings (h : BracketsSound hexdigest ⟨w, reported⟩) {t : ℕ}
    (hstep : executorStep hexdigest w (.selectSiblings t) = some w') :
    BracketsSound hexdigest ⟨w', reported⟩ := by
  have hknown := h.known.step hstep
  simp only [executorStep] at hstep
  split at hstep
  · rename_i bracket brackets htask
    cases hstep
    refine h.task hknown rfl rfl ?_ ?_
    · exact ⟨fun row hrow => storedRow_of_mem (List.mem_of_mem_filter hrow),
        fun _ he => absurd he List.not_mem_nil, fun _ hrow => absurd hrow List.not_mem_nil⟩
    · intro p howes
      rw [htask] at howes
      exact howes
  · cases hstep

theorem BracketsSound.step {w w' : AlertedWorld} (h : BracketsSound hexdigest w)
    {action : ExecutorAction × Bool} (hok : BracketsKept w action)
    (hstep : alertedStep hexdigest w action = some w') : BracketsSound hexdigest w' := by
  obtain ⟨w, reported⟩ := w
  obtain ⟨action, alerted⟩ := action
  obtain ⟨executor, hexecutor, rfl⟩ := Option.map_eq_some_iff.mp hstep
  by_cases hcreate : ∃ t ok id clientOrderId, action = .createLegs t ok id clientOrderId
  · obtain ⟨t, ok, id, clientOrderId, rfl⟩ := hcreate
    have hnone : reportedBy w (.createLegs t ok id clientOrderId, alerted) = [] := rfl
    rw [hnone, List.append_nil]
    exact h.createLegs hok hexecutor
  by_cases hselect : ∃ t, action = .selectSiblings t
  · obtain ⟨t, rfl⟩ := hselect
    have hnone : reportedBy w (.selectSiblings t, alerted) = [] := rfl
    rw [hnone, List.append_nil]
    exact h.selectSiblings hexecutor
  have hknown : ExecutorKnown hexdigest executor := h.known.step hexecutor
  have heffect := executorStep_effect hexecutor
  clear hexecutor hstep
  cases heffect with
  | moved hlocal =>
    exact h.moved (fun t ok id c heq => hcreate ⟨t, ok, id, c, heq⟩)
      (fun t heq => hselect ⟨t, heq⟩) hok hlocal
  | @inserted t id a htask hnew =>
    have hnone : reportedBy w (.check t true id, alerted) = [] := rfl
    rw [hnone, List.append_nil]
    refine h.insert hknown rfl (List.subset_append_left _ _) ?_ trivial ?_
    · intro row hrow
      refine (List.mem_append.mp hrow).imp_right fun hnew => ?_
      rw [List.mem_singleton.mp hnew]
      simp [newOrder]
    · intro parent howes
      rw [htask] at howes
      exact absurd howes (fun h => h)
  | legsCreated _ _ _ => exact absurd ⟨_, _, _, _, rfl⟩ hcreate
  | @posted t a row tries htask =>
    have hnone : reportedBy w (.post t, alerted) = [] := rfl
    rw [hnone, List.append_nil]
    refine h.task hknown rfl rfl trivial ?_
    intro parent howes
    rw [htask] at howes
    exact absurd howes (fun h => h)
  | @legPosted t job leg legs tries htask =>
    have hnone : reportedBy w (.post t, alerted) = [] := rfl
    rw [hnone, List.append_nil]
    have hold : TaskStored w (.sendingLeg job (leg :: legs) tries) := htask ▸ h.stored t
    refine h.task hknown rfl rfl hold ?_
    intro parent howes
    rw [htask] at howes
    exact howes
  | @accepted token answers id status filledQty filledAvgPrice tasks post _ _ _ htasks =>
    have hnone : reportedBy w (.handle token (.accept id status filledQty filledAvgPrice) answers,
      alerted) = [] := rfl
    rw [hnone, List.append_nil]
    obtain rfl | ⟨t, phase, -, -, hphase, rfl⟩ := htasks
    · exact h.same hknown rfl rfl
    · exact h.task hknown rfl rfl (afterAnswer_stored (h.stored t) hphase)
        fun parent howes => afterAnswer_owes hphase howes
  | @refused token failure answers tasks post _ _ htasks =>
    have hnone : reportedBy w (.handle token (.refuse failure) answers, alerted) = [] := rfl
    rw [hnone, List.append_nil]
    obtain rfl | ⟨t, phase, -, -, hphase, rfl⟩ := htasks
    · exact h.same hknown rfl rfl
    · exact h.task hknown rfl rfl (afterFailure_stored (h.stored t) hphase)
        fun parent howes => afterFailure_owes hphase howes
  | @lost token =>
    have hnone : reportedBy w (.lose token, alerted) = [] := rfl
    rw [hnone, List.append_nil]
    exact h.same hknown rfl rfl
  | @changed id status filledQty filledAvgPrice _ =>
    have hnone : reportedBy w (.move id status filledQty filledAvgPrice, alerted) = [] := rfl
    rw [hnone, List.append_nil]
    exact h.same hknown rfl rfl

theorem BracketsSound.empty : BracketsSound hexdigest .empty where
  known := ExecutorKnown.empty
  stored _ := trivial
  covered _ hrow := absurd hrow List.not_mem_nil

end Runs

theorem ExecutorPhase.AtRest.not_owes {phase : ExecutorPhase} (h : phase.AtRest) (parent : UUID) :
    ¬ phase.Owes parent := by
  cases phase with
  | handlingFills tail =>
    rintro ⟨row, hrow, -⟩
    rw [h.1] at hrow
    cases hrow
  | idle => exact id
  | _ => exact absurd h id

/-- **Filled parents get their brackets.** Start with no orders. In every run whose steps meet
the condition, when no task is at work, every leg that a filled parent asks for has a row that
was submitted, or that is closed with the failure reported. -/
theorem filled_parents_bracketed (hexdigest : String → String) {w : AlertedWorld}
    {actions : List (ExecutorAction × Bool)}
    (hmeets : Transition.Meets (alertedStep hexdigest) BracketsKept .empty actions)
    (hrun : Transition.run (alertedStep hexdigest) .empty actions = some w)
    (hrest : ∀ t, (w.executor.tasks t).AtRest) :
    ∀ row ∈ w.executor.rows, row.status = .filled → row.parentOrderId = none →
      ∀ type ∈ legTypes row, LegPlaced w.executor w.reported row.id type := by
  have hsound : BracketsSound hexdigest w :=
    Transition.run_invariant (fun _ _ _ h hok hstep => h.step hok hstep) BracketsSound.empty
      hmeets hrun
  intro row hrow hfilled hparent type htype
  obtain hplaced | ⟨t, howes⟩ := hsound.covered row hrow hfilled hparent type htype
  · exact hplaced
  · exact absurd howes ((hrest t).not_owes _)

namespace Sample

/-- The signal fills at the broker while its answer is lost with the process; the row is
recovered and then synced. -/
def adoptedFilled : List ExecutorAction :=
  [.submit 0 spySignal, .find 0, .check 0 true spyRow, .post 0,
    .handle 0 (.accept "b1" .filled (.finite false 10 0) (some (.finite false 50 0))) none,
    .crash 0, .recover 0 2 21, .recoverLookup 0 true, .recoverCommit 0,
    .syncAll 0 2 21, .syncCommit 0]

end Sample

/-- A signal is filled, and the sync that finds it filled places its stop loss. -/
theorem filled_parents_bracketed_placed :
    ∃ w, Transition.run (alertedStep Sample.spyDigest) .empty
        ((Sample.filledSignal ++ Sample.placedLeg).map (·, true)) = some w ∧
      w.executor.rows.map (·.status) = [.filled, .accepted] ∧
      ∀ row ∈ w.executor.rows, row.status = .filled → row.parentOrderId = none →
        ∀ type ∈ legTypes row, LegPlaced w.executor w.reported row.id type := by
  have hmeets : Transition.Meets (alertedStep Sample.spyDigest) BracketsKept .empty
      ((Sample.filledSignal ++ Sample.placedLeg).map (·, true)) := by
    iterate 5 refine Transition.meets_cons rfl trivial ?_
    refine Transition.meets_cons rfl (fun a row order htask hfilled => ?_) ?_
    · cases htask
      cases hfilled
    iterate 5 refine Transition.meets_cons rfl trivial ?_
    refine Transition.meets_cons rfl ⟨rfl, fun parent parents brackets htask => ?_⟩ ?_
    · cases htask
      decide
    iterate 3 refine Transition.meets_cons rfl trivial ?_
    trivial
  obtain ⟨w, hrun, hrows, hrest⟩ : ∃ w, Transition.run (alertedStep Sample.spyDigest) .empty
      ((Sample.filledSignal ++ Sample.placedLeg).map (·, true)) = some w ∧
        w.executor.rows.map (·.status) = [.filled, .accepted] ∧
        ∀ t, (w.executor.tasks t).AtRest := by
    refine ⟨_, rfl, rfl, fun t => ?_⟩
    by_cases ht : t = 0
    · subst ht
      exact ⟨rfl, rfl⟩
    · simp [ExecutorWorld.setTask, ExecutorWorld.commit, ExecutorWorld.send, ExecutorWorld.empty,
        AlertedWorld.empty, ht, ExecutorPhase.AtRest]
  exact ⟨w, hrun, hrows, filled_parents_bracketed Sample.spyDigest hmeets hrun hrest⟩

/-- A row that is recovered as filled has no stop loss, and no alert was sent. -/
theorem adopted_filled_unprotected :
    ∃ w, Transition.run (alertedStep Sample.spyDigest) .empty
        (Sample.adoptedFilled.map (·, true)) = some w ∧
      (∀ t, (w.executor.tasks t).AtRest) ∧ w.reported = [] ∧
      ¬ ∀ row ∈ w.executor.rows, row.status = .filled → row.parentOrderId = none →
        ∀ type ∈ legTypes row, LegPlaced w.executor w.reported row.id type := by
  refine ⟨_, rfl, fun t => ?_, rfl, fun h => ?_⟩
  · by_cases ht : t = 0
    · subst ht
      exact ⟨rfl, rfl⟩
    · simp [ExecutorWorld.setTask, ExecutorWorld.commit, ExecutorWorld.send, ExecutorWorld.empty,
        AlertedWorld.empty, ht, ExecutorPhase.AtRest]
  · obtain ⟨row, hrow, hparent, -⟩ := h _ (List.mem_singleton_self _) rfl rfl .stopLoss (by decide)
    rw [List.mem_singleton.mp hrow] at hparent
    cases hparent

end LlamaTrade
