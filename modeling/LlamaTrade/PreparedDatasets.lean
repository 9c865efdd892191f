import LlamaTrade.DatasetSnapshots
import LlamaTrade.TransitionRuns

/-!
# Prepared datasets

`prepare_dataset` (`dataset/prepare.py`) on a directory that workers share, with its lock in Redis
and the janitor of stale files (`LocalDatasetStore` of `dataset/store.py`). A call looks for the
snapshot of its spec and then opens it; without one it takes the lock and materializes, or waits for
the worker that holds the lock, or materializes without it. A snapshot is written to a temporary
file and renamed. The janitor looks at the age of a file and then unlinks it, whoever uses it.
-/

namespace LlamaTrade

/-- The market data, and the `hexdigest` of SHA-256. -/
structure DatasetSetup (K : Type) where
  fetch : Fetcher K
  hexdigest : String → String

inductive PrepareError where
  | fileNotFound (path : String)
  | raised (error : PyError)

abbrev PrepareOutcome (K : Type) := Except PrepareError (Dataset K)

/-- Where a call of `prepare_dataset` is. `locked` tells that it holds the lock; `polls` counts how
often it still looks while it waits. -/
inductive PreparePhase (K : Type) where
  | idle
  | checking (spec : DatasetSpec) (redis : Bool) (polls : ℕ)
  | reading (spec : DatasetSpec)
  | locking (spec : DatasetSpec) (polls : ℕ)
  | waiting (spec : DatasetSpec) (polls : ℕ)
  | materializing (spec : DatasetSpec) (locked : Bool)
  | writing (spec : DatasetSpec) (bars : Dataset K) (locked : Bool)
  | replacing (spec : DatasetSpec) (bars : Dataset K) (rows : List (SnapshotRow K)) (temp : ℕ)
      (locked : Bool)
  | returning (spec : DatasetSpec) (outcome : PrepareOutcome K) (locked : Bool)

/-- The steps of a call until it has returned. -/
def PreparePhase.stepsLeft {K : Type} : PreparePhase K → ℕ
  | idle => 0
  | checking _ _ polls => polls + 7
  | reading _ => 2
  | locking _ polls => polls + 6
  | waiting _ polls => polls + 5
  | materializing _ _ => 4
  | writing _ _ _ => 3
  | replacing _ _ _ _ _ => 2
  | returning _ _ _ => 1

structure SnapshotFile (K : Type) where
  rows : List (SnapshotRow K)
  mtime : ℤ

/-- A file that the janitor has found to be stale. -/
inductive StaleFile where
  | snapshot (key : String)
  | temp (n : ℕ)

structure DatasetWorld (K : Type) where
  files : String → Option (SnapshotFile K)
  /-- The temporary files, by number, with their `mtime`. -/
  temps : ℕ → Option ℤ
  nextTemp : ℕ
  locks : String → Bool
  now : ℤ
  tasks : ℕ → PreparePhase K
  janitors : ℕ → Option StaleFile
  /-- The specs of the calls so far, and what the calls have returned. -/
  specs : List DatasetSpec
  results : List (DatasetSpec × PrepareOutcome K)

inductive DatasetAction where
  | begin (t : ℕ) (spec : DatasetSpec) (redis : Bool) (polls : ℕ)
  /-- The first `store.exists`. -/
  | check (t : ℕ)
  | read (t : ℕ)
  /-- The `set` of the lock, which raises when Redis is not reachable. -/
  | lock (t : ℕ) (reachable : Bool)
  | poll (t : ℕ)
  | materialize (t : ℕ)
  /-- The temporary file is written. -/
  | writeTemp (t : ℕ)
  /-- `os.replace`. -/
  | replace (t : ℕ)
  /-- The call returns, and first releases its lock if Redis is reachable. -/
  | finish (t : ℕ) (released : Bool)
  | crash (t : ℕ)
  | expire (lockKey : String)
  | tick
  /-- `evict_stale` compares the `mtime` of a file with its cutoff. -/
  | stat (j : ℕ) (file : StaleFile) (cutoff : ℤ)
  | unlink (j : ℕ)

/-- The call that takes the step. -/
def DatasetAction.caller : DatasetAction → Option ℕ
  | check t | read t | lock t _ | poll t | materialize t | writeTemp t | replace t | finish t _ =>
    some t
  | _ => none

section Step

variable {K : Type}

namespace DatasetWorld

def fresh : DatasetWorld K :=
  ⟨fun _ => none, fun _ => none, 0, fun _ => false, 0, fun _ => .idle, fun _ => none, [], []⟩

variable (w : DatasetWorld K)

def setTask (t : ℕ) (phase : PreparePhase K) : DatasetWorld K :=
  { w with tasks := Function.update w.tasks t phase }

/-- `mtime < cutoff`. -/
def isStale (cutoff : ℤ) : StaleFile → Bool
  | .snapshot key => (w.files key).any fun file => file.mtime < cutoff
  | .temp n => (w.temps n).any fun mtime => mtime < cutoff

/-- `path.unlink(missing_ok=True)`. -/
def unlink : StaleFile → DatasetWorld K
  | .snapshot key => { w with files := Function.update w.files key none }
  | .temp n => { w with temps := Function.update w.temps n none }

end DatasetWorld

/-- The key of the lock. -/
def DatasetSpec.lockKey (spec : DatasetSpec) (hexdigest : String → String) : String :=
  "backtest:dataset:lock:" ++ spec.datasetHash hexdigest

/-- One step of the system; `none` when it is not enabled. -/
def datasetStep (setup : DatasetSetup K) (w : DatasetWorld K) :
    DatasetAction → Option (DatasetWorld K)
  | .begin t spec redis polls =>
    match w.tasks t with
    | .idle => some { w.setTask t (.checking spec redis polls) with specs := spec :: w.specs }
    | _ => none
  | .check t =>
    match w.tasks t with
    | .checking spec redis polls =>
      if (w.files (spec.objectKey setup.hexdigest)).isSome then some (w.setTask t (.reading spec))
      else if redis then some (w.setTask t (.locking spec polls))
      else some (w.setTask t (.materializing spec false))
    | _ => none
  | .read t =>
    match w.tasks t with
    | .reading spec =>
      match w.files (spec.objectKey setup.hexdigest) with
      | some file => some (w.setTask t (.returning spec (.ok (tableToBars file.rows)) false))
      | none =>
        some (w.setTask t
          (.returning spec (.error (.fileNotFound (spec.objectKey setup.hexdigest))) false))
    | _ => none
  | .lock t reachable =>
    match w.tasks t with
    | .locking spec polls =>
      let lockKey := spec.lockKey setup.hexdigest
      if !reachable then some (w.setTask t (.materializing spec false))
      else if w.locks lockKey then some (w.setTask t (.waiting spec polls))
      else
        some { w.setTask t (.materializing spec true) with
          locks := Function.update w.locks lockKey true }
    | _ => none
  | .poll t =>
    match w.tasks t with
    | .waiting spec (polls + 1) =>
      if (w.files (spec.objectKey setup.hexdigest)).isSome then some (w.setTask t (.reading spec))
      else some (w.setTask t (.waiting spec polls))
    | .waiting spec 0 => some (w.setTask t (.materializing spec false))
    | _ => none
  | .materialize t =>
    match w.tasks t with
    | .materializing spec locked =>
      match materialize setup.fetch spec with
      | .ok bars => some (w.setTask t (.writing spec bars locked))
      | .error e => some (w.setTask t (.returning spec (.error (.raised e)) locked))
    | _ => none
  | .writeTemp t =>
    match w.tasks t with
    | .writing spec bars locked =>
      match barsToTable bars with
      | .ok rows =>
        some { w.setTask t (.replacing spec bars rows w.nextTemp locked) with
          temps := Function.update w.temps w.nextTemp (some w.now), nextTemp := w.nextTemp + 1 }
      | .error e => some (w.setTask t (.returning spec (.error (.raised e)) locked))
    | _ => none
  | .replace t =>
    match w.tasks t with
    | .replacing spec bars rows temp locked =>
      let key := spec.objectKey setup.hexdigest
      match w.temps temp with
      | some mtime =>
        some { w.setTask t (.returning spec (.ok bars) locked) with
          files := Function.update w.files key (some ⟨rows, mtime⟩)
          temps := Function.update w.temps temp none }
      | none => some (w.setTask t (.returning spec (.error (.fileNotFound key)) locked))
    | _ => none
  | .finish t released =>
    match w.tasks t with
    | .returning spec outcome locked =>
      let w := { w.setTask t .idle with results := w.results ++ [(spec, outcome)] }
      if locked && released then
        some { w with locks := Function.update w.locks (spec.lockKey setup.hexdigest) false }
      else some w
    | _ => none
  | .crash t => some (w.setTask t .idle)
  | .expire lockKey => some { w with locks := Function.update w.locks lockKey false }
  | .tick => some { w with now := w.now + 1 }
  | .stat j file cutoff =>
    if w.isStale cutoff file then
      some { w with janitors := Function.update w.janitors j (some file) }
    else none
  | .unlink j =>
    match w.janitors j with
    | some file => some { w.unlink file with janitors := Function.update w.janitors j none }
    | none => none

end Step

/-! ## The bars of a call -/

section Faithful

variable {K : Type}

/-- The call has returned what a direct materialization returns, symbol by symbol. -/
def SameBars (outcome : PrepareOutcome K) (direct : Except PyError (Dataset K)) : Prop :=
  match outcome, direct with
  | .ok bars, .ok expected => ∀ symbol, bars.series symbol = expected.series symbol
  | .error (.raised e), .error expected => e = expected
  | _, _ => False

/-- The specs of the calls have files of their own and complete bars; a snapshot that a call has found
is there when the call opens it, and a temporary file when it is renamed. -/
def findsItsFiles (setup : DatasetSetup K) (w : DatasetWorld K) :
    DatasetAction → Bool
  | .begin _ spec _ _ =>
    (w.specs.all fun other =>
      other.objectKey setup.hexdigest = spec.objectKey setup.hexdigest → other = spec) &&
      match materialize setup.fetch spec with
      | .ok bars => bars.isComplete
      | .error _ => true
  | .read t =>
    match w.tasks t with
    | .reading spec => (w.files (spec.objectKey setup.hexdigest)).isSome
    | _ => true
  | .replace t =>
    match w.tasks t with
    | .replacing _ _ _ temp _ => (w.temps temp).isSome
    | _ => true
  | _ => true

/-- A call works on its own spec, and on the bars of it once it has them. -/
def PreparePhase.Faithful (setup : DatasetSetup K) (specs : List DatasetSpec) :
    PreparePhase K → Prop
  | idle => True
  | checking spec _ _ => spec ∈ specs
  | reading spec => spec ∈ specs
  | locking spec _ => spec ∈ specs
  | waiting spec _ => spec ∈ specs
  | materializing spec _ => spec ∈ specs
  | writing spec bars _ => spec ∈ specs ∧ materialize setup.fetch spec = .ok bars
  | replacing spec bars rows _ _ =>
    spec ∈ specs ∧ materialize setup.fetch spec = .ok bars ∧ barsToTable bars = .ok rows
  | returning spec outcome _ => SameBars outcome (materialize setup.fetch spec)

/-- Every snapshot holds the bars of the one spec that names it. -/
structure SnapshotsFaithful (setup : DatasetSetup K) (w : DatasetWorld K) : Prop where
  keys : ∀ spec ∈ w.specs, ∀ other ∈ w.specs,
    other.objectKey setup.hexdigest = spec.objectKey setup.hexdigest → other = spec
  complete : ∀ spec ∈ w.specs, ∀ bars, materialize setup.fetch spec = .ok bars →
    bars.isComplete = true
  files : ∀ spec ∈ w.specs, ∀ file, w.files (spec.objectKey setup.hexdigest) = some file →
    SameBars (.ok (tableToBars file.rows)) (materialize setup.fetch spec)
  owned : ∀ key, (w.files key).isSome = true →
    ∃ spec ∈ w.specs, spec.objectKey setup.hexdigest = key
  tasks : ∀ t, (w.tasks t).Faithful setup w.specs
  results : ∀ result ∈ w.results, SameBars result.2 (materialize setup.fetch result.1)

variable {setup : DatasetSetup K} {w w' : DatasetWorld K} {action : DatasetAction} {t : ℕ}
  {phase : PreparePhase K} {spec : DatasetSpec}

theorem PreparePhase.Faithful.mono {specs : List DatasetSpec} (h : phase.Faithful setup specs)
    (spec : DatasetSpec) : phase.Faithful setup (spec :: specs) := by
  cases phase with
  | idle => trivial
  | returning => exact h
  | writing | replacing => exact ⟨List.mem_cons_of_mem spec h.1, h.2⟩
  | _ => exact List.mem_cons_of_mem spec h

/-- What is written for a spec reads back as its bars. -/
theorem sameBars_of_table {bars : Dataset K} {rows : List (SnapshotRow K)}
    (hcomplete : bars.isComplete = true) (hbars : materialize setup.fetch spec = .ok bars)
    (hrows : barsToTable bars = .ok rows) :
    SameBars (.ok (tableToBars rows)) (materialize setup.fetch spec) := by
  obtain ⟨rows', hrows', hseries⟩ := barsToTable_complete hcomplete
  cases hrows.symm.trans hrows'
  rw [hbars]
  exact hseries

namespace SnapshotsFaithful

theorem fresh : SnapshotsFaithful setup (DatasetWorld.fresh (K := K)) where
  keys := nofun
  complete := nofun
  files := nofun
  owned := nofun
  tasks _ := trivial
  results := nofun

theorem tasks_update (h : SnapshotsFaithful setup w) (hphase : phase.Faithful setup w.specs) (t' : ℕ) :
    (Function.update w.tasks t phase t').Faithful setup w.specs := by
  by_cases ht : t' = t
  · subst ht
    rwa [Function.update_self]
  · rw [Function.update_of_ne ht]
    exact h.tasks t'

theorem setTask (h : SnapshotsFaithful setup w) (hphase : phase.Faithful setup w.specs) :
    SnapshotsFaithful setup (w.setTask t phase) :=
  ⟨h.keys, h.complete, h.files, h.owned, h.tasks_update hphase, h.results⟩

theorem begin (h : SnapshotsFaithful setup w) {redis : Bool} {polls : ℕ}
    (hok : findsItsFiles setup w (.begin t spec redis polls) = true) :
    SnapshotsFaithful setup
      { w.setTask t (.checking spec redis polls) with specs := spec :: w.specs } := by
  obtain ⟨hkeys, hbars⟩ := Bool.and_eq_true_iff.mp hok
  have hkey : ∀ other ∈ w.specs,
      other.objectKey setup.hexdigest = spec.objectKey setup.hexdigest → other = spec := by
    intro other hother
    simpa only [decide_eq_true_eq] using List.all_eq_true.mp hkeys other hother
  refine ⟨?_, ?_, ?_, ?_, ?_, h.results⟩
  · intro first hfirst other hother hsame
    rcases List.mem_cons.mp hfirst with rfl | hold
    · rcases List.mem_cons.mp hother with rfl | hother
      · rfl
      · exact hkey other hother hsame
    · rcases List.mem_cons.mp hother with rfl | hother
      · exact (hkey first hold hsame.symm).symm
      · exact h.keys first hold other hother hsame
  · intro other hother bars hdirect
    rcases List.mem_cons.mp hother with rfl | hother
    · rwa [hdirect] at hbars
    · exact h.complete other hother bars hdirect
  · intro other hother file hfile
    rcases List.mem_cons.mp hother with rfl | hother
    · obtain ⟨owner, howner, hsame⟩ := h.owned _ (Option.isSome_of_eq_some hfile)
      cases hkey owner howner hsame
      exact h.files other howner file hfile
    · exact h.files other hother file hfile
  · intro key hfile
    obtain ⟨owner, howner, hsame⟩ := h.owned key hfile
    exact ⟨owner, List.mem_cons_of_mem spec howner, hsame⟩
  · intro t'
    by_cases ht : t' = t
    · subst ht
      show (Function.update w.tasks t' (.checking spec redis polls) t').Faithful setup (spec :: w.specs)
      rw [Function.update_self]
      exact List.mem_cons_self ..
    · show (Function.update w.tasks t (.checking spec redis polls) t').Faithful setup (spec :: w.specs)
      rw [Function.update_of_ne ht]
      exact (h.tasks t').mono spec

/-- Files that were there before are as faithful without some of them. -/
theorem setFiles (h : SnapshotsFaithful setup w) {files : String → Option (SnapshotFile K)}
    (hfiles : ∀ key, files key = w.files key ∨ files key = none) :
    SnapshotsFaithful setup { w with files := files } := by
  refine ⟨h.keys, h.complete, fun spec hspec file hfile => ?_, fun key hfile => ?_, h.tasks, h.results⟩
  · rcases hfiles (spec.objectKey setup.hexdigest) with hsame | hnone
    · exact h.files spec hspec file (hsame ▸ hfile)
    · simp [hnone] at hfile
  · rcases hfiles key with hsame | hnone
    · exact h.owned key (hsame ▸ hfile)
    · simp [hnone] at hfile

theorem unlink (h : SnapshotsFaithful setup w) (file : StaleFile) :
    SnapshotsFaithful setup (w.unlink file) := by
  cases file with
  | snapshot key =>
    refine h.setFiles fun other => ?_
    by_cases hkey : other = key
    · exact .inr (by rw [hkey, Function.update_self])
    · exact .inl (Function.update_of_ne hkey ..)
  | temp n => exact ⟨h.keys, h.complete, h.files, h.owned, h.tasks, h.results⟩

/-- A rename publishes the bars of its spec. -/
theorem publish (h : SnapshotsFaithful setup w) (hspec : spec ∈ w.specs) {file : SnapshotFile K}
    (hrows : SameBars (.ok (tableToBars file.rows)) (materialize setup.fetch spec)) :
    SnapshotsFaithful setup
      { w with files := Function.update w.files (spec.objectKey setup.hexdigest) (some file) } := by
  refine ⟨h.keys, h.complete, fun other hother file' hfile' => ?_, fun key hfile => ?_, h.tasks,
    h.results⟩
  · dsimp only at hfile'
    by_cases hkey : other.objectKey setup.hexdigest = spec.objectKey setup.hexdigest
    · cases h.keys spec hspec other hother hkey
      rw [Function.update_self] at hfile'
      cases hfile'
      exact hrows
    · rw [Function.update_of_ne hkey] at hfile'
      exact h.files other hother file' hfile'
  · dsimp only at hfile
    by_cases hkey : key = spec.objectKey setup.hexdigest
    · exact ⟨spec, hspec, hkey.symm⟩
    · rw [Function.update_of_ne hkey] at hfile
      exact h.owned key hfile

theorem task_faithful (h : SnapshotsFaithful setup w) (htask : w.tasks t = phase) :
    phase.Faithful setup w.specs :=
  htask ▸ h.tasks t

theorem step (h : SnapshotsFaithful setup w) (hok : findsItsFiles setup w action = true)
    (hstep : datasetStep setup w action = some w') : SnapshotsFaithful setup w' := by
  cases action with
  | begin t spec redis polls =>
    simp only [datasetStep] at hstep
    split at hstep <;> cases hstep
    exact h.begin hok
  | check t =>
    simp only [datasetStep] at hstep
    split at hstep
    next spec redis polls htask =>
      have hspec : spec ∈ w.specs := h.task_faithful htask
      split_ifs at hstep <;> cases hstep <;> exact h.setTask hspec
    next => cases hstep
  | read t =>
    simp only [datasetStep] at hstep
    split at hstep
    next spec htask =>
      have hspec : spec ∈ w.specs := h.task_faithful htask
      split at hstep <;> cases hstep
      next file hfile => exact h.setTask (h.files spec hspec file hfile)
      next hnone => simp [findsItsFiles, htask, hnone] at hok
    next => cases hstep
  | lock t reachable =>
    simp only [datasetStep] at hstep
    split at hstep
    next spec polls htask =>
      have hspec : spec ∈ w.specs := h.task_faithful htask
      split_ifs at hstep <;> cases hstep
      · exact h.setTask hspec
      · exact h.setTask hspec
      · exact ⟨h.keys, h.complete, h.files, h.owned, h.tasks_update hspec, h.results⟩
    next => cases hstep
  | poll t =>
    simp only [datasetStep] at hstep
    split at hstep
    next spec polls htask =>
      have hspec : spec ∈ w.specs := h.task_faithful htask
      split_ifs at hstep <;> cases hstep <;> exact h.setTask hspec
    next spec htask =>
      have hspec : spec ∈ w.specs := h.task_faithful htask
      cases hstep
      exact h.setTask hspec
    next => cases hstep
  | materialize t =>
    simp only [datasetStep] at hstep
    split at hstep
    next spec locked htask =>
      have hspec : spec ∈ w.specs := h.task_faithful htask
      split at hstep <;> cases hstep
      next bars hbars => exact h.setTask ⟨hspec, hbars⟩
      next e herror =>
        refine h.setTask ?_
        show SameBars _ _
        rw [herror]
        rfl
    next => cases hstep
  | writeTemp t =>
    simp only [datasetStep] at hstep
    split at hstep
    next spec bars locked htask =>
      obtain ⟨hspec, hbars⟩ := h.task_faithful htask
      obtain ⟨rows', hrows', -⟩ := barsToTable_complete (h.complete spec hspec bars hbars)
      split at hstep <;> cases hstep
      next rows hrows =>
        exact ⟨h.keys, h.complete, h.files, h.owned, h.tasks_update ⟨hspec, hbars, hrows⟩, h.results⟩
      next e herror =>
        rw [hrows'] at herror
        cases herror
    next => cases hstep
  | replace t =>
    simp only [datasetStep] at hstep
    split at hstep
    next spec bars rows temp locked htask =>
      obtain ⟨hspec, hbars, hrows⟩ := h.task_faithful htask
      split at hstep <;> cases hstep
      next mtime _ =>
        have hreturn : SameBars (.ok bars) (materialize setup.fetch spec) := by
          rw [hbars]
          exact fun _ => rfl
        have hreturned : SnapshotsFaithful setup (w.setTask t (.returning spec (.ok bars) locked)) :=
          h.setTask hreturn
        have hfile : SameBars (.ok (tableToBars (SnapshotFile.mk rows mtime).rows))
            (materialize setup.fetch spec) := sameBars_of_table (h.complete spec hspec bars hbars) hbars hrows
        have hpublished := hreturned.publish hspec hfile
        exact ⟨hpublished.keys, hpublished.complete, hpublished.files, hpublished.owned,
          hpublished.tasks, hpublished.results⟩
      next hnone => simp [findsItsFiles, htask, hnone] at hok
    next => cases hstep
  | finish t released =>
    simp only [datasetStep] at hstep
    split at hstep
    next spec outcome locked htask =>
      have hsame : SameBars outcome (materialize setup.fetch spec) := h.task_faithful htask
      have hresults : ∀ result ∈ w.results ++ [(spec, outcome)],
          SameBars result.2 (materialize setup.fetch result.1) := by
        intro result hresult
        rcases List.mem_append.mp hresult with hold | hnew
        · exact h.results result hold
        · cases List.mem_singleton.mp hnew
          exact hsame
      have htasks : ∀ t', (Function.update w.tasks t .idle t').Faithful setup w.specs :=
        h.tasks_update trivial
      split_ifs at hstep <;> cases hstep <;>
        exact ⟨h.keys, h.complete, h.files, h.owned, htasks, hresults⟩
    next => cases hstep
  | crash t =>
    cases hstep
    exact h.setTask trivial
  | expire | tick =>
    cases hstep
    exact ⟨h.keys, h.complete, h.files, h.owned, h.tasks, h.results⟩
  | stat j file cutoff =>
    simp only [datasetStep] at hstep
    split_ifs at hstep
    cases hstep
    exact ⟨h.keys, h.complete, h.files, h.owned, h.tasks, h.results⟩
  | unlink j =>
    simp only [datasetStep] at hstep
    split at hstep <;> cases hstep
    next file _ =>
      have hunlinked := h.unlink file
      exact ⟨hunlinked.keys, hunlinked.complete, hunlinked.files, hunlinked.owned, hunlinked.tasks,
        hunlinked.results⟩

end SnapshotsFaithful

/-- The call of a task can take a step, and each step that it takes brings it closer to its return. -/
def DatasetWorld.Progresses (setup : DatasetSetup K) (w : DatasetWorld K) (t : ℕ) : Prop :=
  (∃ action, action.caller = some t ∧ (datasetStep setup w action).isSome = true) ∧
    ∀ action w', action.caller = some t → datasetStep setup w action = some w' →
      (w'.tasks t).stepsLeft < (w.tasks t).stepsLeft

theorem stepsLeft_lt (hcaller : action.caller = some t)
    (hstep : datasetStep setup w action = some w') :
    (w'.tasks t).stepsLeft < (w.tasks t).stepsLeft := by
  cases action with
  | check t =>
    cases hcaller
    simp only [datasetStep] at hstep
    split at hstep
    next htask =>
      split_ifs at hstep <;> cases hstep <;> simp [htask, DatasetWorld.setTask, PreparePhase.stepsLeft]
    next => cases hstep
  | read t =>
    cases hcaller
    simp only [datasetStep] at hstep
    split at hstep
    next htask =>
      split at hstep <;> cases hstep <;> simp [htask, DatasetWorld.setTask, PreparePhase.stepsLeft]
    next => cases hstep
  | lock t reachable =>
    cases hcaller
    simp only [datasetStep] at hstep
    split at hstep
    next htask =>
      split_ifs at hstep <;> cases hstep <;> simp [htask, DatasetWorld.setTask, PreparePhase.stepsLeft]
    next => cases hstep
  | poll t =>
    cases hcaller
    simp only [datasetStep] at hstep
    split at hstep
    next htask =>
      split_ifs at hstep <;> cases hstep <;> simp [htask, DatasetWorld.setTask, PreparePhase.stepsLeft]
    next htask =>
      cases hstep
      simp [htask, DatasetWorld.setTask, PreparePhase.stepsLeft]
    next => cases hstep
  | materialize t =>
    cases hcaller
    simp only [datasetStep] at hstep
    split at hstep
    next htask =>
      split at hstep <;> cases hstep <;> simp [htask, DatasetWorld.setTask, PreparePhase.stepsLeft]
    next => cases hstep
  | writeTemp t =>
    cases hcaller
    simp only [datasetStep] at hstep
    split at hstep
    next htask =>
      split at hstep <;> cases hstep <;> simp [htask, DatasetWorld.setTask, PreparePhase.stepsLeft]
    next => cases hstep
  | replace t =>
    cases hcaller
    simp only [datasetStep] at hstep
    split at hstep
    next htask =>
      split at hstep <;> cases hstep <;> simp [htask, DatasetWorld.setTask, PreparePhase.stepsLeft]
    next => cases hstep
  | finish t released =>
    cases hcaller
    simp only [datasetStep] at hstep
    split at hstep
    next htask =>
      split_ifs at hstep <;> cases hstep <;> simp [htask, DatasetWorld.setTask, PreparePhase.stepsLeft]
    next => cases hstep
  | _ => cases hcaller

theorem exists_caller_step (h : (w.tasks t).stepsLeft ≠ 0) :
    ∃ action, action.caller = some t ∧ (datasetStep setup w action).isSome = true := by
  cases htask : w.tasks t with
  | idle => exact absurd (by rw [htask]; rfl) h
  | checking spec redis polls =>
    refine ⟨.check t, rfl, ?_⟩
    simp only [datasetStep, htask]
    split_ifs <;> rfl
  | reading spec =>
    refine ⟨.read t, rfl, ?_⟩
    simp only [datasetStep, htask]
    split <;> rfl
  | locking spec polls =>
    refine ⟨.lock t true, rfl, ?_⟩
    simp only [datasetStep, htask]
    split_ifs <;> rfl
  | waiting spec polls =>
    refine ⟨.poll t, rfl, ?_⟩
    cases polls with
    | zero => simp only [datasetStep, htask, Option.isSome_some]
    | succ polls =>
      simp only [datasetStep, htask]
      split_ifs <;> rfl
  | materializing spec locked =>
    refine ⟨.materialize t, rfl, ?_⟩
    simp only [datasetStep, htask]
    split <;> rfl
  | writing spec bars locked =>
    refine ⟨.writeTemp t, rfl, ?_⟩
    simp only [datasetStep, htask]
    split <;> rfl
  | replacing spec bars rows temp locked =>
    refine ⟨.replace t, rfl, ?_⟩
    simp only [datasetStep, htask]
    split <;> rfl
  | returning spec outcome locked =>
    refine ⟨.finish t true, rfl, ?_⟩
    simp only [datasetStep, htask]
    split_ifs <;> rfl

/-- Every call returns the bars of a direct materialization, and every call that has begun goes on to
its return. -/
theorem prepared_bars {actions : List DatasetAction}
    (hmeets : Transition.Meets (datasetStep setup)
      (fun w action => findsItsFiles setup w action = true) .fresh actions)
    (hrun : Transition.run (datasetStep setup) .fresh actions = some w) :
    (∀ result ∈ w.results, SameBars result.2 (materialize setup.fetch result.1)) ∧
      ∀ t, (w.tasks t).stepsLeft ≠ 0 → w.Progresses setup t := by
  have hfaithful : SnapshotsFaithful setup w :=
    Transition.run_invariant (fun _ _ _ h hok hstep => h.step hok hstep) .fresh hmeets hrun
  refine ⟨hfaithful.results, fun t hrunning => ⟨exists_caller_step hrunning, ?_⟩⟩
  exact fun action w' hcaller hstep => stepsLeft_lt hcaller hstep

end Faithful

/-- One daily bar of SPY. -/
def singleDay : Dataset ℕ where
  entries := [("SPY", [⟨1704067200000000, some 472, some 473, some 470, some 472, some 1000⟩])]
  nodup := List.nodup_singleton _

def singleDaySpec : DatasetSpec := ⟨["SPY"], "1D", 19723, 19727, "split", ""⟩

def singleDaySetup : DatasetSetup ℕ where
  fetch _ _ _ _ := .ok singleDay
  hexdigest _ := "a6bf7122b9a7d8f28a9859a89a4eb42b0aaa9eb7d8d357a84e3f35357e5339d1"

def singleDayFile : StaleFile := .snapshot "1D/a6bf7122b9a7d8f28a9859a89a4eb42b.parquet"

/-- One worker materializes, another waits for it, and the snapshot is evicted afterwards. -/
def coalescedCalls : List DatasetAction :=
  [.begin 0 singleDaySpec true 2, .begin 1 singleDaySpec true 2, .check 0, .check 1, .lock 0 true,
    .lock 1 true, .materialize 0, .writeTemp 0, .replace 0, .poll 1, .read 1, .finish 0 true,
    .finish 1 false, .tick, .stat 0 singleDayFile 1, .unlink 0]

/-- The snapshot is evicted after a call has found it. -/
def evictedInBetween : List DatasetAction :=
  [.begin 0 singleDaySpec false 0, .check 0, .materialize 0, .writeTemp 0, .replace 0, .finish 0 false,
    .tick, .begin 1 singleDaySpec false 0, .check 1, .stat 0 singleDayFile 1, .unlink 0, .read 1,
    .finish 1 false]

theorem prepared_bars_coalesced :
    ∃ w, Transition.run (datasetStep singleDaySetup) .fresh coalescedCalls = some w ∧
      w.results.length = 2 ∧
      ∀ result ∈ w.results, SameBars result.2 (materialize singleDaySetup.fetch result.1) := by
  have hcalls : (Transition.run (datasetStep singleDaySetup) .fresh coalescedCalls).map
      (·.results.length) = some 2 := by decide
  obtain ⟨w, hrun, hlength⟩ := Option.map_eq_some_iff.mp hcalls
  exact ⟨w, hrun, hlength, (prepared_bars (by decide) hrun).1⟩

/-- The second call fails. -/
theorem evicted_snapshot_fails_call :
    ∃ w, Transition.run (datasetStep singleDaySetup) .fresh evictedInBetween = some w ∧
      ∃ result ∈ w.results, result.1 = singleDaySpec ∧
        ¬ SameBars result.2 (materialize singleDaySetup.fetch singleDaySpec) := by
  refine ⟨_, rfl, (singleDaySpec,
    .error (.fileNotFound (singleDaySpec.objectKey singleDaySetup.hexdigest))), ?_, rfl, id⟩
  exact List.mem_cons_of_mem _ (List.mem_singleton_self _)

end LlamaTrade
