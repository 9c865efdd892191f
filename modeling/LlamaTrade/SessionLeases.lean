import LlamaTrade.SleeveSessions

/-!
# The lease of a session

What holds of leases, locks and runners while no two tasks of a replica work on one session at a
time: a lease has its lock, and a runner that has not ended is registered and has its lease. Each
operation of `LiveSessionService` and of the recovery loop keeps it.
-/

namespace LlamaTrade

/-! ## Who works on a session -/

/-- The execution that an adoption has claimed. -/
def StartCaller.held : StartCaller → List UUID
  | .request => []
  | .adoption executionId _ => [executionId]

def RunnerUse.held : RunnerUse → List UUID
  | .start caller => caller.held
  | .rehydrate _ => []

def ClaimUse.held : ClaimUse → List UUID
  | .runner use => use.held
  | .adopt .. => []
  | .adopted executionId _ => [executionId]

def ReleaseUse.held : ReleaseUse → List UUID
  | .startFailed caller => caller.held
  | _ => []

/-- The ids that a task works on: it reads or changes their leases and runners. -/
def SessionPhase.works : SessionPhase → List UUID
  | .resolving _ caller | .checking _ caller .. | .inserting _ caller .. | .failing _ caller =>
    caller.held
  | .probing id _ use | .opening id use | .locking id _ use => id :: use.held
  | .preparing id use => id :: use.held
  | .stopping id _ | .cancelling id .. => [id]
  | .unlocking id _ use => id :: use.held
  | .sweepProbing id .. | .discarding id _ => [id]
  | _ => []

/-- The connection that a task is locking or unlocking with. -/
def SessionPhase.connection : SessionPhase → Option Connection
  | .locking _ conn _ | .unlocking _ conn _ => some conn
  | _ => none

namespace SessionWorld

variable (w : SessionWorld)

/-- No other task of the replica works on the id. -/
def FreeFor (t : TaskId) (id : UUID) : Prop :=
  ∀ t', t' ≠ t → t'.replica = t.replica → id ∉ (w.tasks t').works

/-- No runner of the session gets ready on the replica. -/
def NoneStarting (replica : ℕ) (id : UUID) : Prop :=
  ∀ i runner, w.runners i = some runner → runner.replica = replica → runner.sessionId = id →
    runner.phase ≠ .starting

/-- No runner of the session runs or gets ready on the replica. -/
def Quiet (replica : ℕ) (id : UUID) : Prop :=
  ∀ i runner, w.runners i = some runner → runner.replica = replica → runner.sessionId = id →
    runner.phase = .ended

/-- The id is that of a session. -/
def Known (id : UUID) : Prop := ∃ s ∈ w.sessions, s.id = id

/-- The replica has the lease of the session, and its connection has the lock. -/
def HoldsLease (replica : ℕ) (id : UUID) : Prop :=
  ∃ conn, w.lease id replica = some conn ∧ w.locks (sessionLockKey id) = some conn

end SessionWorld

/-- A task turns to a session only when no other task of the replica works on it; and it stops,
drops or claims it again only when no runner of it gets ready there. -/
def SessionsApart (w : SessionWorld) : SessionAction → Prop
  | .stop t _ id => w.FreeFor t id ∧ w.NoneStarting t.replica id
  | .sweep t =>
    match w.tasks t with
    | .sweeping (id :: _) => w.FreeFor t id
    | _ => True
  | .drop t =>
    match w.tasks t with
    | .dropping (id :: _) specs =>
      id ∉ specs.map (·.sessionId) → w.FreeFor t id ∧ w.NoneStarting t.replica id
    | _ => True
  | .reclaim t =>
    match w.tasks t with
    | .rehydrating (spec :: _) => w.isActive spec.sessionId t.replica = false →
      w.FreeFor t spec.sessionId ∧ w.NoneStarting t.replica spec.sessionId
    | _ => True
  | .adoptNext t =>
    match w.tasks t with
    | .adopting (spec :: _) => w.FreeFor t spec.executionId
    | _ => True
  | _ => True

/-! ## The invariant -/

section Invariant

variable (ids : Identities) (w : SessionWorld)

/-- The id is that of an execution or of a session. -/
def SessionWorld.Named (id : UUID) : Prop := ids.isExecution id = true ∨ w.Known id

/-- The adoptions that are left are of executions. -/
def ExecutionsOnly (specs : List ExecutionSpec) : Prop :=
  ∀ spec ∈ specs, ids.isExecution spec.executionId = true

def KnownOnly (specs : List RunnerSpec) : Prop := ∀ spec ∈ specs, w.Known spec.sessionId

def StartCaller.Sound : StartCaller → Prop
  | .request => True
  | .adoption executionId rest => ids.isExecution executionId = true ∧ ExecutionsOnly ids rest

def RunnerUse.Sound : RunnerUse → Prop
  | .start caller => caller.Sound ids
  | .rehydrate rest => KnownOnly w rest

def ClaimUse.Sound (replica : ℕ) (id : UUID) : ClaimUse → Prop
  | .runner use => w.Quiet replica id ∧ w.Known id ∧ use.Sound ids w
  | .adopt spec rest => id = spec.executionId ∧ ids.isExecution id = true ∧ ExecutionsOnly ids rest
  | .adopted executionId rest =>
    w.Known id ∧ ids.isExecution executionId = true ∧ ExecutionsOnly ids rest

def StopUse.Sound (id : UUID) : StopUse → Prop
  | .stop _ => w.Known id
  | .drop rest specs => w.Named ids id ∧ (∀ x ∈ rest, w.Named ids x) ∧ KnownOnly w specs
  | .evict rest => w.Known id ∧ KnownOnly w rest
  | .sweep rest => w.Named ids id ∧ ∀ x ∈ rest, w.Named ids x

def ReleaseUse.Sound (id : UUID) : ReleaseUse → Prop
  | .startFailed caller => w.Known id ∧ caller.Sound ids
  | .stop _ => w.Known id
  | .drop rest specs => w.Named ids id ∧ (∀ x ∈ rest, w.Named ids x) ∧ KnownOnly w specs
  | .rehydrateFailed rest => w.Known id ∧ KnownOnly w rest
  | .adoptionEnds rest => ids.isExecution id = true ∧ ExecutionsOnly ids rest

/-- What holds while a task of the replica is at a phase. -/
def PhaseSound (replica : ℕ) : SessionPhase → Prop
  | .resolving _ caller | .checking _ caller .. | .inserting _ caller .. | .failing _ caller =>
    caller.Sound ids
  | .probing id conn use => w.lease id replica = some conn ∧ use.Sound ids w replica id
  | .opening id use | .locking id _ use => use.Sound ids w replica id
  | .preparing id use =>
    (w.lease id replica).isSome ∧ w.Quiet replica id ∧ w.Known id ∧ use.Sound ids w
  | .stopping id use | .cancelling id _ use => w.Quiet replica id ∧ use.Sound ids w id
  | .unlocking id _ use => use.Sound ids w id
  | .sweeping rest => ∀ x ∈ rest, w.Named ids x
  | .sweepProbing id conn rest => w.lease id replica = some conn ∧ ∀ x ∈ rest, w.Named ids x
  | .discarding .. => False
  | .loaded specs | .rehydrating specs => KnownOnly w specs
  | .dropping rest specs => (∀ x ∈ rest, w.Named ids x) ∧ KnownOnly w specs
  | .adopting specs => ExecutionsOnly ids specs
  | _ => True

/-- What holds of the tables, the leases and the runners: a lease has its lock, and a runner that
is not ended is registered and has its lease. -/
structure LeasesLocked : Prop where
  locked : ∀ {replica id conn}, w.lease id replica = some conn →
    w.locks (sessionLockKey id) = some conn ∧ conn.replica = replica ∧
      conn.number < w.nextConnection
  distinct : ∀ {replica id id' conn}, w.lease id replica = some conn →
    w.lease id' replica = some conn → id = id'
  leased : ∀ {replica id}, (w.lease id replica).isSome → w.Named ids id
  fresh : ∀ i, w.nextRunner ≤ i → w.runners i = none
  active : ∀ {i runner}, w.runners i = some runner → runner.phase ≠ .ended →
    w.registry runner.replica runner.sessionId = some i ∧
      (w.lease runner.sessionId runner.replica).isSome
  known : ∀ {i runner}, w.runners i = some runner → w.Known runner.sessionId
  drawn : ∀ s ∈ w.sessions, ids.isExecution s.id = false
  executions : ∀ e ∈ w.executions, ids.isExecution e.id = true

/-- The invariant, but for the phase of a task that is between two phases. -/
structure LeasesSound (skip : Option TaskId) : Prop extends LeasesLocked ids w where
  phases : ∀ t, some t ≠ skip → PhaseSound ids w t.replica (w.tasks t)
  connections : ∀ t, some t ≠ skip → ∀ conn, (w.tasks t).connection = some conn →
    conn.replica = t.replica ∧ conn.number < w.nextConnection ∧
      ∀ id, w.lease id t.replica ≠ some conn
  alone : ∀ t t', some t ≠ skip → some t' ≠ skip → ∀ conn, (w.tasks t).connection = some conn →
    (w.tasks t').connection = some conn → t = t'
  apart : ∀ t t', some t ≠ skip → some t' ≠ skip → t.replica = t'.replica → ∀ id,
    id ∈ (w.tasks t).works → id ∈ (w.tasks t').works → t = t'

end Invariant

/-! ## What the operations do to leases and runners -/

section Frame

variable {ids : Identities} {w w' : SessionWorld} {t : TaskId} {id : UUID}

theorem tasks_setTask_self (phase : SessionPhase) : (w.setTask t phase).tasks t = phase :=
  Function.update_self ..

theorem tasks_setTask_of_ne {t' : TaskId} (h : t' ≠ t) (phase : SessionPhase) :
    (w.setTask t phase).tasks t' = w.tasks t' :=
  Function.update_of_ne h ..

@[simp] theorem lease_setTask (phase : SessionPhase) (x : UUID) (replica : ℕ) :
    (w.setTask t phase).lease x replica = w.lease x replica := rfl

theorem lease_popLease (x : UUID) (r replica : ℕ) :
    (w.popLease id replica).lease x r = if r = replica ∧ x = id then none else w.lease x r := by
  rw [SessionWorld.lease, SessionWorld.popLease]
  by_cases hr : r = replica
  · subst hr
    simp only [Function.update_self, true_and]
    by_cases hx : x = id
    · rw [if_pos hx, hx, AList.lookup_erase]
    · rw [if_neg hx, AList.lookup_erase_ne hx]
      rfl
  · rw [if_neg fun h => hr h.1]
    simp only [Function.update_of_ne hr]
    rfl

theorem lease_setLease (conn : Connection) (x : UUID) (r replica : ℕ) :
    (w.setLease id replica conn).lease x r =
      if r = replica ∧ x = id then some conn else w.lease x r := by
  rw [SessionWorld.lease, SessionWorld.setLease]
  by_cases hr : r = replica
  · subst hr
    simp only [Function.update_self, true_and]
    by_cases hx : x = id
    · rw [if_pos hx, hx, AList.lookup_insert]
    · rw [if_neg hx, AList.lookup_insert_ne hx]
      rfl
  · rw [if_neg fun h => hr h.1]
    simp only [Function.update_of_ne hr]
    rfl

theorem runners_advanceRunner {i j : ℕ} {whenIn : RunnerPhase → Bool} {phase : RunnerPhase}
    {runner : Runner} (h : (w.advanceRunner i whenIn phase).runners j = some runner) :
    ∃ old, w.runners j = some old ∧
      runner = if j = i ∧ whenIn old.phase = true then { old with phase } else old := by
  have hupdate : Function.update w.runners i ((w.runners i).map fun r =>
      if whenIn r.phase then { r with phase } else r) j = some runner := h
  by_cases hj : j = i
  · subst hj
    rw [Function.update_self] at hupdate
    obtain ⟨old, hold, rfl⟩ := Option.map_eq_some_iff.mp hupdate
    refine ⟨old, hold, ?_⟩
    simp only [true_and]
  · rw [Function.update_of_ne hj] at hupdate
    exact ⟨runner, hupdate, (if_neg fun hcond => hj hcond.1).symm⟩

/-- Runners that only advance do not wake up a session. -/
theorem quiet_advanceRunner {i : ℕ} {whenIn : RunnerPhase → Bool} {phase : RunnerPhase}
    (h : whenIn .ended = true → phase = .ended) {replica : ℕ} (hquiet : w.Quiet replica id) :
    (w.advanceRunner i whenIn phase).Quiet replica id := by
  intro j runner hrunner hreplica hsession
  obtain ⟨old, hold, rfl⟩ := runners_advanceRunner hrunner
  split_ifs at hreplica hsession ⊢ with hwhen
  · have hended := hquiet j old hold hreplica hsession
    exact h (hended ▸ hwhen.2)
  · exact hquiet j old hold hreplica hsession

theorem SessionWorld.Known.named (h : w.Known id) : w.Named ids id := .inr h

/-- The facts about ids stay when the sessions do. -/
theorem SessionWorld.Named.mono (hknown : ∀ x, w.Known x → w'.Known x) (h : w.Named ids id) :
    w'.Named ids id := h.imp_right (hknown id)

theorem KnownOnly.mono (hknown : ∀ x, w.Known x → w'.Known x) {specs : List RunnerSpec}
    (h : KnownOnly w specs) : KnownOnly w' specs :=
  fun spec hspec => hknown _ (h spec hspec)

theorem RunnerUse.Sound.mono (hknown : ∀ x, w.Known x → w'.Known x) {use : RunnerUse}
    (h : use.Sound ids w) : use.Sound ids w' := by
  cases use with
  | start caller => exact h
  | rehydrate rest => exact KnownOnly.mono hknown h

theorem StopUse.Sound.mono (hknown : ∀ x, w.Known x → w'.Known x) {use : StopUse}
    (h : use.Sound ids w id) : use.Sound ids w' id := by
  cases use with
  | stop loaded => exact hknown id h
  | drop rest specs => exact ⟨h.1.mono hknown, fun x hx => (h.2.1 x hx).mono hknown, h.2.2.mono hknown⟩
  | evict rest => exact ⟨hknown id h.1, h.2.mono hknown⟩
  | sweep rest => exact ⟨h.1.mono hknown, fun x hx => (h.2 x hx).mono hknown⟩

theorem ReleaseUse.Sound.mono (hknown : ∀ x, w.Known x → w'.Known x) {use : ReleaseUse}
    (h : use.Sound ids w id) : use.Sound ids w' id := by
  cases use with
  | startFailed caller => exact ⟨hknown id h.1, h.2⟩
  | stop loaded => exact hknown id h
  | drop rest specs => exact ⟨h.1.mono hknown, fun x hx => (h.2.1 x hx).mono hknown, h.2.2.mono hknown⟩
  | rehydrateFailed rest => exact ⟨hknown id h.1, h.2.mono hknown⟩
  | adoptionEnds rest => exact h

theorem ClaimUse.Sound.mono (hknown : ∀ x, w.Known x → w'.Known x) {use : ClaimUse} {replica : ℕ}
    (hquiet : w.Quiet replica id → w'.Quiet replica id) (h : use.Sound ids w replica id) :
    use.Sound ids w' replica id := by
  cases use with
  | runner use => exact ⟨hquiet h.1, hknown id h.2.1, h.2.2.mono hknown⟩
  | adopt spec rest => exact h
  | adopted executionId rest => exact ⟨hknown id h.1, h.2⟩

/-- What a phase relies on is the leases and the runners of the ids that the task works on. -/
theorem PhaseSound.frame {replica : ℕ} {phase : SessionPhase} (h : PhaseSound ids w replica phase)
    (hknown : ∀ x, w.Known x → w'.Known x)
    (hlease : ∀ x ∈ phase.works, w'.lease x replica = w.lease x replica)
    (hquiet : ∀ x ∈ phase.works, w.Quiet replica x → w'.Quiet replica x) :
    PhaseSound ids w' replica phase := by
  cases phase with
  | resolving | checking | inserting | failing => exact h
  | probing id conn use =>
    have hid := List.mem_cons_self (a := id) (l := use.held)
    exact ⟨(hlease id hid).trans h.1, h.2.mono hknown (hquiet id hid)⟩
  | opening id use | locking id conn use =>
    exact ClaimUse.Sound.mono hknown (hquiet id (List.mem_cons_self ..)) h
  | preparing id use =>
    have hid := List.mem_cons_self (a := id) (l := use.held)
    refine ⟨?_, hquiet id hid h.2.1, hknown id h.2.2.1, h.2.2.2.mono hknown⟩
    rw [hlease id hid]
    exact h.1
  | stopping id use | cancelling id runner use =>
    exact ⟨hquiet id (List.mem_cons_self ..) h.1, h.2.mono hknown⟩
  | unlocking id conn use => exact ReleaseUse.Sound.mono hknown h
  | sweeping rest => exact fun x hx => (h x hx).mono hknown
  | sweepProbing id conn rest =>
    exact ⟨(hlease id (List.mem_cons_self ..)).trans h.1, fun x hx => (h.2 x hx).mono hknown⟩
  | discarding => exact h
  | loaded specs | rehydrating specs => exact KnownOnly.mono hknown h
  | dropping rest specs => exact ⟨fun x hx => (h.1 x hx).mono hknown, h.2.mono hknown⟩
  | adopting specs => exact h
  | idle | marking | loadingOrphans => trivial

/-- A change that leaves alone what the tasks work on. -/
theorem LeasesSound.transfer {skip : Option TaskId} (h : LeasesSound ids w skip)
    (hlocked : LeasesLocked ids w') (htasks : w'.tasks = w.tasks)
    (hknown : ∀ x, w.Known x → w'.Known x)
    (hlease : ∀ t, some t ≠ skip → ∀ x ∈ (w.tasks t).works,
      w'.lease x t.replica = w.lease x t.replica)
    (hquiet : ∀ t, some t ≠ skip → ∀ x ∈ (w.tasks t).works,
      w.Quiet t.replica x → w'.Quiet t.replica x)
    (hnext : w.nextConnection ≤ w'.nextConnection)
    (hconn : ∀ t, some t ≠ skip → ∀ conn, (w.tasks t).connection = some conn →
      ∀ x, w'.lease x t.replica ≠ some conn) : LeasesSound ids w' skip := by
  refine ⟨hlocked, fun t ht => ?_, fun t ht conn hc => ?_, ?_, ?_⟩
  · rw [htasks]
    exact (h.phases t ht).frame hknown (hlease t ht) (hquiet t ht)
  · rw [htasks] at hc
    obtain ⟨hreplica, hnumber, -⟩ := h.connections t ht conn hc
    exact ⟨hreplica, hnumber.trans_le hnext, hconn t ht conn hc⟩
  · rw [htasks]
    exact h.alone
  · rw [htasks]
    exact h.apart

end Frame

section Changes

variable {ids : Identities} {w : SessionWorld} {t : TaskId} {id : UUID} {skip : Option TaskId}

theorem LeasesSound.except (h : LeasesSound ids w none) (t : TaskId) :
    LeasesSound ids w (some t) :=
  ⟨h.toLeasesLocked, fun t' _ => h.phases t' nofun, fun t' _ => h.connections t' nofun,
    fun t₁ t₂ _ _ => h.alone t₁ t₂ nofun nofun, fun t₁ t₂ _ _ => h.apart t₁ t₂ nofun nofun⟩

theorem LeasesSound.freeFor (h : LeasesSound ids w none) (hid : id ∈ (w.tasks t).works) :
    w.FreeFor t id :=
  fun t' hne hreplica hmem => hne (h.apart t' t nofun nofun hreplica id hmem hid)

/-- The connection is one of the task alone. -/
def SessionWorld.OwnConnection (w : SessionWorld) (t : TaskId) (conn : Connection) : Prop :=
  conn.replica = t.replica ∧ conn.number < w.nextConnection ∧
    (∀ x, w.lease x t.replica ≠ some conn) ∧ ∀ t' ≠ t, (w.tasks t').connection ≠ some conn

theorem LeasesSound.ownConnection (h : LeasesSound ids w none) {conn : Connection}
    (hconn : (w.tasks t).connection = some conn) : w.OwnConnection t conn := by
  obtain ⟨hreplica, hnumber, hlease⟩ := h.connections t nofun conn hconn
  exact ⟨hreplica, hnumber, hlease,
    fun t' hne hconn' => hne (h.alone t' t nofun nofun conn hconn' hconn)⟩

/-- The task goes on to a phase that is sound. -/
theorem LeasesSound.setTask (h : LeasesSound ids w (some t)) {phase : SessionPhase}
    (hphase : PhaseSound ids w t.replica phase) (hfree : ∀ x ∈ phase.works, w.FreeFor t x)
    (hconn : ∀ conn, phase.connection = some conn → w.OwnConnection t conn) :
    LeasesSound ids (w.setTask t phase) none := by
  have hother : ∀ {t'}, t' ≠ t → some t' ≠ some t := fun hne heq => hne (Option.some.inj heq)
  refine ⟨⟨h.locked, h.distinct, h.leased, h.fresh, h.active, h.known, h.drawn, h.executions⟩,
    fun t' _ => ?_, fun t' _ conn hc => ?_, fun t₁ t₂ _ _ conn h₁ h₂ => ?_,
    fun t₁ t₂ _ _ hreplica x h₁ h₂ => ?_⟩
  · by_cases ht : t' = t
    · subst ht
      rw [tasks_setTask_self]
      exact hphase.frame (fun _ h => h) (fun _ _ => rfl) fun _ _ h => h
    · rw [tasks_setTask_of_ne ht]
      exact (h.phases t' (hother ht)).frame (fun _ h => h) (fun _ _ => rfl) fun _ _ h => h
  · by_cases ht : t' = t
    · subst ht
      rw [tasks_setTask_self] at hc
      obtain ⟨hreplica, hnumber, hlease, -⟩ := hconn conn hc
      exact ⟨hreplica, hnumber, hlease⟩
    · rw [tasks_setTask_of_ne ht] at hc
      exact h.connections t' (hother ht) conn hc
  · by_cases ht₁ : t₁ = t
    · by_cases ht₂ : t₂ = t
      · exact ht₁.trans ht₂.symm
      · rw [ht₁, tasks_setTask_self] at h₁
        rw [tasks_setTask_of_ne ht₂] at h₂
        exact absurd h₂ ((hconn conn h₁).2.2.2 t₂ ht₂)
    · rw [tasks_setTask_of_ne ht₁] at h₁
      by_cases ht₂ : t₂ = t
      · rw [ht₂, tasks_setTask_self] at h₂
        exact absurd h₁ ((hconn conn h₂).2.2.2 t₁ ht₁)
      · rw [tasks_setTask_of_ne ht₂] at h₂
        exact h.alone t₁ t₂ (hother ht₁) (hother ht₂) conn h₁ h₂
  · by_cases ht₁ : t₁ = t
    · by_cases ht₂ : t₂ = t
      · exact ht₁.trans ht₂.symm
      · rw [ht₁, tasks_setTask_self] at h₁
        rw [tasks_setTask_of_ne ht₂] at h₂
        exact absurd h₂ (hfree x h₁ t₂ ht₂ (hreplica.symm.trans (congrArg _ ht₁)))
    · rw [tasks_setTask_of_ne ht₁] at h₁
      by_cases ht₂ : t₂ = t
      · rw [ht₂, tasks_setTask_self] at h₂
        exact absurd h₁ (hfree x h₂ t₁ ht₁ (hreplica.trans (congrArg _ ht₂)))
      · rw [tasks_setTask_of_ne ht₂] at h₂
        exact h.apart t₁ t₂ (hother ht₁) (hother ht₂) hreplica x h₁ h₂

theorem some_ne {t t' : TaskId} (h : some t' ≠ some t) : t' ≠ t := fun heq => h (congrArg some heq)

/-- The leases of other ids and of other replicas, which the other tasks work on. -/
theorem not_both_of_free (hfree : w.FreeFor t id) {t' : TaskId} (ht' : some t' ≠ some t) {x : UUID}
    (hx : x ∈ (w.tasks t').works) : ¬ (t'.replica = t.replica ∧ x = id) := by
  rintro ⟨hreplica, rfl⟩
  exact hfree t' (some_ne ht') hreplica hx

theorem LeasesSound.popLease (h : LeasesSound ids w (some t)) (hfree : w.FreeFor t id)
    (hquiet : w.Quiet t.replica id) : LeasesSound ids (w.popLease id t.replica) (some t) := by
  have hold : ∀ {x r conn}, (w.popLease id t.replica).lease x r = some conn →
      w.lease x r = some conn := by
    intro x r conn hlease
    rw [lease_popLease] at hlease
    split_ifs at hlease
    exact hlease
  refine h.transfer ⟨fun hlease => h.locked (hold hlease),
    fun hlease hlease' => h.distinct (hold hlease) (hold hlease'), fun hlease => ?_, h.fresh,
    fun hrunner hphase => ⟨(h.active hrunner hphase).1, ?_⟩, h.known, h.drawn, h.executions⟩ rfl
    (fun _ hx => hx) (fun t' ht' x hx => ?_) (fun _ _ _ _ hx => hx) le_rfl
    fun t' ht' conn hconn x hlease => (h.connections t' ht' conn hconn).2.2 x (hold hlease)
  · obtain ⟨conn, hconn⟩ := Option.isSome_iff_exists.mp hlease
    exact h.leased (Option.isSome_iff_exists.mpr ⟨conn, hold hconn⟩)
  · rw [lease_popLease, if_neg]
    · exact (h.active hrunner hphase).2
    · rintro ⟨hreplica, hsession⟩
      exact hphase (hquiet _ _ hrunner hreplica hsession)
  · rw [lease_popLease, if_neg (not_both_of_free hfree ht' hx)]

/-- The lock is granted, and the lease is registered. -/
theorem LeasesSound.lock (h : LeasesSound ids w (some t)) {conn : Connection}
    (hfree : w.FreeFor t id) (hnamed : w.Named ids id)
    (hnone : w.locks (sessionLockKey id) = none) (hconn : w.OwnConnection t conn) :
    LeasesSound ids ({ w with
      locks := Function.update w.locks (sessionLockKey id) (some conn) }.setLease id t.replica
        conn) (some t) := by
  obtain ⟨hreplica, hnumber, hunused, halone⟩ := hconn
  have hlease : ∀ x r, SessionWorld.lease
      ({ w with locks := Function.update w.locks (sessionLockKey id) (some conn) }.setLease id
        t.replica conn) x r = if r = t.replica ∧ x = id then some conn else w.lease x r :=
    fun x r => lease_setLease ..
  have hlocks : ∀ key, SessionWorld.locks
      ({ w with locks := Function.update w.locks (sessionLockKey id) (some conn) }.setLease id
        t.replica conn) key = if key = sessionLockKey id then some conn else w.locks key :=
    fun key => by simp only [SessionWorld.setLease, Function.update_apply]
  refine h.transfer ⟨fun {r x c} hc => ?_, fun {r x x' c} hc hc' => ?_, fun {r x} hc => ?_, h.fresh,
    fun hrunner hphase => ⟨(h.active hrunner hphase).1, ?_⟩, h.known, h.drawn, h.executions⟩ rfl
    (fun _ hx => hx) (fun t' ht' x hx => ?_) (fun _ _ _ _ hx => hx) le_rfl
    fun t' ht' c hc x hx => ?_
  · rw [hlease] at hc
    split_ifs at hc with hboth
    · cases hc
      rw [hboth.1, hboth.2]
      refine ⟨?_, hreplica, hnumber⟩
      rw [hlocks, if_pos rfl]
    · obtain ⟨hlock, hrest⟩ := h.locked hc
      refine ⟨?_, hrest⟩
      have hkey : sessionLockKey x ≠ sessionLockKey id := by
        intro heq
        rw [heq, hnone] at hlock
        cases hlock
      rw [hlocks, if_neg hkey, hlock]
  · rw [hlease] at hc hc'
    split_ifs at hc hc' with hboth hboth' hboth'
    · exact hboth.2.trans hboth'.2.symm
    · cases hc
      exact absurd (hboth.1 ▸ hc') (hunused x')
    · cases hc'
      exact absurd (hboth'.1 ▸ hc) (hunused x)
    · exact h.distinct hc hc'
  · rw [hlease] at hc
    split_ifs at hc with hboth
    · rw [hboth.2]
      exact hnamed
    · exact h.leased hc
  · rw [hlease]
    split_ifs
    · rfl
    · exact (h.active hrunner hphase).2
  · rw [hlease, if_neg (not_both_of_free hfree ht' hx)]
  · rw [hlease] at hx
    split_ifs at hx with hboth
    · cases hx
      exact halone t' (some_ne ht') hc
    · exact (h.connections t' ht' c hc).2.2 x hx

/-- A lock is given back that no lease has. -/
theorem LeasesSound.unlock (h : LeasesSound ids w skip) {conn : Connection} {r : ℕ}
    (hreplica : conn.replica = r) (hunused : ∀ x, w.lease x r ≠ some conn) (key : ℤ) :
    LeasesSound ids { w with
      locks := fun k => if k = key ∧ w.locks k = some conn then none else w.locks k } skip := by
  refine h.transfer ⟨fun {r' x c} hc => ?_, h.distinct, h.leased, h.fresh, h.active, h.known,
    h.drawn, h.executions⟩ rfl (fun _ hx => hx) (fun _ _ _ _ => rfl) (fun _ _ _ _ hx => hx) le_rfl
    fun t' ht' c hc => (h.connections t' ht' c hc).2.2
  obtain ⟨hlock, hrest⟩ := h.locked hc
  refine ⟨?_, hrest⟩
  have hne : c ≠ conn := by
    rintro rfl
    have hr : r' = r := hrest.1.symm.trans hreplica
    exact hunused x (hr ▸ hc)
  simp only
  rw [if_neg fun hcond => hne (Option.some.inj (hlock.symm.trans hcond.2)), hlock]

/-- Runners advance. -/
theorem LeasesSound.advanceRunner (h : LeasesSound ids w skip) {i : ℕ}
    {whenIn : RunnerPhase → Bool} {phase : RunnerPhase}
    (hphase : whenIn .ended = true → phase = .ended) :
    LeasesSound ids (w.advanceRunner i whenIn phase) skip := by
  refine h.transfer ⟨h.locked, h.distinct, h.leased, fun j hj => ?_, fun {j runner} hrunner hne => ?_,
    fun {j runner} hrunner => ?_, h.drawn, h.executions⟩ rfl (fun _ hx => hx) (fun _ _ _ _ => rfl)
    (fun _ _ _ _ hx => quiet_advanceRunner hphase hx) le_rfl
    fun t' ht' c hc => (h.connections t' ht' c hc).2.2
  · by_contra hsome
    obtain ⟨runner, hrunner⟩ := Option.ne_none_iff_exists'.mp hsome
    obtain ⟨old, hold, -⟩ := runners_advanceRunner hrunner
    rw [h.fresh j hj] at hold
    cases hold
  · obtain ⟨old, hold, rfl⟩ := runners_advanceRunner hrunner
    split_ifs at hne ⊢ with hwhen
    · have hactive := h.active hold fun hended => hne (hphase (hended ▸ hwhen.2))
      exact hactive
    · exact h.active hold hne
  · obtain ⟨old, hold, rfl⟩ := runners_advanceRunner hrunner
    have hknown := h.known hold
    split_ifs
    · exact hknown
    · exact hknown

/-- A runner is registered of a session whose lease is held. -/
theorem LeasesSound.register (h : LeasesSound ids w (some t)) (hfree : w.FreeFor t id)
    (hlease : (w.lease id t.replica).isSome) (hquiet : w.Quiet t.replica id) (hknown : w.Known id) :
    LeasesSound ids (w.register t id) (some t) := by
  have hrunners : ∀ {j runner}, (w.register t id).runners j = some runner →
      (j = w.nextRunner ∧ runner = ⟨t.replica, id, .starting⟩) ∨
        j ≠ w.nextRunner ∧ w.runners j = some runner := by
    intro j runner hrunner
    have hupdate : Function.update w.runners w.nextRunner (some ⟨t.replica, id, .starting⟩) j =
        some runner := hrunner
    by_cases hj : j = w.nextRunner
    · rw [hj, Function.update_self] at hupdate
      exact .inl ⟨hj, (Option.some.inj hupdate).symm⟩
    · rw [Function.update_of_ne hj] at hupdate
      exact .inr ⟨hj, hupdate⟩
  refine h.transfer ⟨h.locked, h.distinct, h.leased, fun j hj => ?_, fun {j runner} hrunner hne => ?_,
    fun {j runner} hrunner => ?_, h.drawn, h.executions⟩ rfl (fun _ hx => hx) (fun _ _ _ _ => rfl)
    (fun t' ht' x hx hold j runner hrunner hreplica hsession => ?_) le_rfl
    fun t' ht' c hc => (h.connections t' ht' c hc).2.2
  · have hlt : w.nextRunner + 1 ≤ j := hj
    have hupdate : (w.register t id).runners j = w.runners j :=
      Function.update_of_ne (by omega) ..
    rw [hupdate]
    exact h.fresh j (by omega)
  · obtain ⟨rfl, rfl⟩ | ⟨-, hold⟩ := hrunners hrunner
    · refine ⟨?_, hlease⟩
      simp [SessionWorld.register, SessionWorld.setRegistry]
    · obtain ⟨hregistry, hleased⟩ := h.active hold hne
      refine ⟨?_, hleased⟩
      have hother : ¬ (runner.replica = t.replica ∧ runner.sessionId = id) :=
        fun hboth => hne (hquiet j runner hold hboth.1 hboth.2)
      rw [← hregistry]
      by_cases hreplica : runner.replica = t.replica
      · have hsession : runner.sessionId ≠ id := fun heq => hother ⟨hreplica, heq⟩
        simp [SessionWorld.register, SessionWorld.setRegistry, hreplica, hsession]
      · simp [SessionWorld.register, SessionWorld.setRegistry, hreplica]
  · obtain ⟨rfl, rfl⟩ | ⟨-, hold⟩ := hrunners hrunner
    · exact hknown
    · exact h.known hold
  · obtain ⟨rfl, rfl⟩ | ⟨-, hrunner⟩ := hrunners hrunner
    · exact absurd ⟨hreplica.symm, hsession.symm⟩ (not_both_of_free hfree ht' hx)
    · exact hold j runner hrunner hreplica hsession

/-- A runner that has ended is taken out of the registry. -/
theorem LeasesSound.unregister (h : LeasesSound ids w (some t)) (hquiet : w.Quiet t.replica id) :
    LeasesSound ids (w.setRegistry id t.replica none) (some t) := by
  refine h.transfer ⟨h.locked, h.distinct, h.leased, h.fresh, fun {j runner} hrunner hne => ?_,
    h.known, h.drawn, h.executions⟩ rfl (fun _ hx => hx) (fun _ _ _ _ => rfl) (fun _ _ _ _ hx => hx)
    le_rfl fun t' ht' c hc => (h.connections t' ht' c hc).2.2
  obtain ⟨hregistry, hleased⟩ := h.active hrunner hne
  refine ⟨?_, hleased⟩
  rw [← hregistry]
  by_cases hreplica : runner.replica = t.replica
  · have hsession : runner.sessionId ≠ id := fun heq => hne (hquiet j runner hrunner hreplica heq)
    simp [SessionWorld.setRegistry, hreplica, hsession]
  · simp [SessionWorld.setRegistry, hreplica]

/-- The tables change, and no session goes away. -/
theorem LeasesSound.tables (h : LeasesSound ids w skip) {sessions : List SessionRow}
    {executions : List ExecutionRow} (hknown : ∀ s ∈ w.sessions, ∃ s' ∈ sessions, s'.id = s.id)
    (hdrawn : ∀ s ∈ sessions, ids.isExecution s.id = false)
    (hexecutions : ∀ e ∈ executions, ids.isExecution e.id = true) :
    LeasesSound ids { w with sessions, executions } skip := by
  have hmono : ∀ x, w.Known x → SessionWorld.Known { w with sessions, executions } x := by
    rintro x ⟨s, hs, rfl⟩
    exact hknown s hs
  refine h.transfer ⟨h.locked, h.distinct, fun hlease => (h.leased hlease).mono hmono, h.fresh,
    h.active, fun hrunner => hmono _ (h.known hrunner), hdrawn, hexecutions⟩ rfl hmono
    (fun _ _ _ _ => rfl) (fun _ _ _ _ hx => hx) le_rfl
    fun t' ht' c hc => (h.connections t' ht' c hc).2.2

theorem LeasesSound.write (h : LeasesSound ids w skip) (x : UUID) (status : ExecutionStatus) :
    LeasesSound ids { w with sessions := writeStatus w.sessions x status } skip := by
  refine h.tables (fun s hs => ⟨_, List.mem_map_of_mem hs, ?_⟩) (fun s hs => ?_) h.executions
  · split_ifs <;> rfl
  · obtain ⟨old, hold, rfl⟩ := List.mem_map.mp hs
    split_ifs
    · exact h.drawn old hold
    · exact h.drawn old hold

end Changes

section Calls

variable {ids : Identities} {w : SessionWorld} {t : TaskId} {id : UUID}

/-- No runner is registered under the id of an execution. -/
theorem LeasesLocked.quiet_execution (h : LeasesLocked ids w) (hid : ids.isExecution id = true)
    (replica : ℕ) : w.Quiet replica id := by
  intro i runner hrunner _ hsession
  obtain ⟨s, hs, hsid⟩ := h.known hrunner
  have hdrawn := h.drawn s hs
  rw [hsid, hsession, hid] at hdrawn
  cases hdrawn

theorem phaseSound_afterRelease {use : ReleaseUse} (h : use.Sound ids w id) (replica : ℕ) :
    PhaseSound ids w replica (SessionWorld.afterRelease id use) := by
  cases use with
  | startFailed caller => exact h.2
  | stop loaded =>
    rw [SessionWorld.afterRelease]
    split_ifs
    · trivial
    · trivial
  | drop rest specs => exact h.2
  | rehydrateFailed rest => exact h.2
  | adoptionEnds rest => exact h.2

theorem works_afterRelease (id : UUID) (use : ReleaseUse) :
    (SessionWorld.afterRelease id use).works = use.held := by
  cases use with
  | stop loaded =>
    rw [SessionWorld.afterRelease]
    split_ifs
    · rfl
    · rfl
  | startFailed | drop | rehydrateFailed | adoptionEnds => rfl

theorem connection_afterRelease (id : UUID) (use : ReleaseUse) :
    (SessionWorld.afterRelease id use).connection = none := by
  cases use with
  | stop loaded =>
    rw [SessionWorld.afterRelease]
    split_ifs
    · rfl
    · rfl
  | startFailed | drop | rehydrateFailed | adoptionEnds => rfl

theorem LeasesSound.afterRelease (h : LeasesSound ids w (some t)) {use : ReleaseUse}
    (hfree : ∀ x ∈ use.held, w.FreeFor t x) (huse : use.Sound ids w id) :
    LeasesSound ids (w.setTask t (SessionWorld.afterRelease id use)) none := by
  refine h.setTask (phaseSound_afterRelease huse _) ?_ fun conn hconn => ?_
  · rw [works_afterRelease]
    exact hfree
  · rw [connection_afterRelease] at hconn
    cases hconn

theorem LeasesSound.beginClaim (h : LeasesSound ids w (some t)) {use : ClaimUse}
    (hfree : ∀ x ∈ id :: use.held, w.FreeFor t x) (huse : use.Sound ids w t.replica id) :
    LeasesSound ids (w.beginClaim t id use) none := by
  rw [SessionWorld.beginClaim]
  split
  · rename_i conn hlease
    exact h.setTask ⟨hlease, huse⟩ hfree fun _ hconn => by cases hconn
  · exact h.setTask huse hfree fun _ hconn => by cases hconn

theorem LeasesSound.beginRelease (h : LeasesSound ids w (some t)) {use : ReleaseUse}
    (hfree : ∀ x ∈ id :: use.held, w.FreeFor t x) (hquiet : w.Quiet t.replica id)
    (huse : use.Sound ids w id) : LeasesSound ids (w.beginRelease t id use) none := by
  rw [SessionWorld.beginRelease]
  split
  · rename_i conn hlease
    obtain ⟨-, hreplica, hnumber⟩ := h.locked hlease
    refine (h.popLease (hfree id (List.mem_cons_self ..)) hquiet).setTask
      (ReleaseUse.Sound.mono (fun _ hx => hx) huse) hfree ?_
    rintro c ⟨rfl⟩
    refine ⟨hreplica, hnumber, fun x hx => ?_, fun t' hne hconn => ?_⟩
    · rw [lease_popLease] at hx
      split_ifs at hx with hboth
      exact hboth ⟨rfl, h.distinct hx hlease⟩
    · obtain ⟨hreplica', -, hunused⟩ :=
        h.connections t' (fun heq => hne (Option.some.inj heq)) conn hconn
      rw [← hreplica', hreplica] at hunused
      exact hunused id hlease
  · exact h.afterRelease (fun x hx => hfree x (List.mem_cons_of_mem _ hx)) huse

theorem LeasesSound.startRaises (h : LeasesSound ids w (some t)) {caller : StartCaller}
    (hfree : ∀ x ∈ caller.held, w.FreeFor t x) (hcaller : caller.Sound ids) :
    LeasesSound ids (w.startRaises t caller) none := by
  cases caller with
  | request => exact h.setTask trivial (fun _ hx => absurd hx List.not_mem_nil) nofun
  | adoption executionId rest =>
    exact h.beginRelease hfree (h.quiet_execution hcaller.1 _) hcaller

theorem LeasesSound.startReturns (h : LeasesSound ids w (some t)) {caller : StartCaller}
    (hfree : ∀ x ∈ id :: caller.held, w.FreeFor t x) (hknown : w.Known id)
    (hcaller : caller.Sound ids) : LeasesSound ids (w.startReturns t id caller) none := by
  cases caller with
  | request => exact h.setTask trivial (fun _ hx => absurd hx List.not_mem_nil) nofun
  | adoption executionId rest => exact h.beginClaim hfree ⟨hknown, hcaller⟩

/-- The execution that was adopted is given up. -/
theorem LeasesSound.adoptionEnds (h : LeasesSound ids w (some t)) {executionId : UUID}
    {rest : List ExecutionSpec} (hfree : w.FreeFor t executionId)
    (hid : ids.isExecution executionId = true) (hrest : ExecutionsOnly ids rest) :
    LeasesSound ids (w.beginRelease t executionId (.adoptionEnds rest)) none := by
  refine h.beginRelease (fun x hx => ?_) (h.quiet_execution hid _) ⟨hid, hrest⟩
  rw [List.mem_singleton.mp hx]
  exact hfree

theorem LeasesSound.claimed (h : LeasesSound ids w (some t)) {use : ClaimUse}
    (hfree : ∀ x ∈ id :: use.held, w.FreeFor t x) (hlease : (w.lease id t.replica).isSome)
    (huse : use.Sound ids w t.replica id) : LeasesSound ids (w.claimed t id use) none := by
  cases use with
  | runner use => exact h.setTask ⟨hlease, huse⟩ hfree nofun
  | adopt spec rest =>
    obtain ⟨rfl, hid, hrest⟩ := huse
    exact h.setTask ⟨hid, hrest⟩ hfree nofun
  | adopted executionId rest =>
    exact h.adoptionEnds (hfree _ (List.mem_cons_of_mem _ (List.mem_singleton.mpr rfl))) huse.2.1
      huse.2.2

theorem LeasesSound.notClaimed (h : LeasesSound ids w (some t)) {use : ClaimUse}
    (hfree : ∀ x ∈ id :: use.held, w.FreeFor t x) (huse : use.Sound ids w t.replica id) :
    LeasesSound ids (w.notClaimed t id use) none := by
  cases use with
  | runner use =>
    obtain ⟨hquiet, hknown, huse⟩ := huse
    cases use with
    | start caller => exact h.beginRelease hfree hquiet ⟨hknown, huse⟩
    | rehydrate rest => exact h.setTask huse (fun _ hx => absurd hx List.not_mem_nil) nofun
  | adopt spec rest => exact h.setTask huse.2.2 (fun _ hx => absurd hx List.not_mem_nil) nofun
  | adopted executionId rest =>
    exact h.adoptionEnds (hfree _ (List.mem_cons_of_mem _ (List.mem_singleton.mpr rfl))) huse.2.1
      huse.2.2

theorem LeasesSound.notStarted (h : LeasesSound ids w (some t)) {use : RunnerUse}
    (hfree : ∀ x ∈ id :: use.held, w.FreeFor t x) (hquiet : w.Quiet t.replica id)
    (hknown : w.Known id) (huse : use.Sound ids w) :
    LeasesSound ids (w.notStarted t id use) none := by
  cases use with
  | start caller => exact h.beginRelease hfree hquiet ⟨hknown, huse⟩
  | rehydrate rest => exact h.beginRelease hfree hquiet ⟨hknown, huse⟩

theorem LeasesSound.afterStop (h : LeasesSound ids w (some t)) {use : StopUse} (raised : Bool)
    (hfree : w.FreeFor t id) (hquiet : w.Quiet t.replica id) (huse : use.Sound ids w id) :
    LeasesSound ids (w.afterStop t id raised use) none := by
  have hfree' : ∀ x ∈ [id], w.FreeFor t x := fun x hx => List.mem_singleton.mp hx ▸ hfree
  have hidle : LeasesSound ids (w.setTask t .idle) none :=
    h.setTask trivial (fun _ hx => absurd hx List.not_mem_nil) fun _ hconn => by cases hconn
  cases use with
  | stop loaded =>
    rw [SessionWorld.afterStop]
    split_ifs
    · exact hidle
    · exact h.beginRelease hfree' hquiet huse
  | drop rest specs =>
    rw [SessionWorld.afterStop]
    split_ifs
    · exact hidle
    · exact h.beginRelease hfree' hquiet huse
  | evict rest => exact h.beginClaim hfree' ⟨hquiet, huse⟩
  | sweep rest => exact h.setTask huse.2 (fun _ hx => absurd hx List.not_mem_nil) fun _ hconn => by cases hconn

/-- A registered runner that does not get ready is the only one that may run, and it is stopped. -/
theorem LeasesSound.beginStop (h : LeasesSound ids w (some t)) {use : StopUse}
    (hfree : w.FreeFor t id) (hnone : w.NoneStarting t.replica id) (huse : use.Sound ids w id) :
    LeasesSound ids (w.beginStop t id use) none := by
  rw [SessionWorld.beginStop]
  split
  · rename_i hregistry
    refine h.afterStop false hfree (fun i runner hrunner hreplica hsession => ?_) huse
    by_contra hne
    have hactive := (h.active hrunner hne).1
    rw [hreplica, hsession, hregistry] at hactive
    cases hactive
  · rename_i registered hregistry
    have hquiet : (w.advanceRunner registered (· = .running) .ended).Quiet t.replica id := by
      intro i runner hrunner hreplica hsession
      obtain ⟨old, hold, rfl⟩ := runners_advanceRunner hrunner
      split_ifs at hreplica hsession ⊢ with hwhen
      · rfl
      · by_contra hne
        have hactive := (h.active hold hne).1
        rw [hreplica, hsession, hregistry] at hactive
        have hrunning : old.phase = .running := by
          cases hphase : old.phase with
          | starting => exact absurd hphase (hnone i old hold hreplica hsession)
          | running => rfl
          | ended => exact absurd hphase hne
        exact hwhen ⟨(Option.some.inj hactive).symm, decide_eq_true hrunning⟩
    refine (h.advanceRunner fun _ => rfl).setTask ⟨hquiet, huse.mono fun _ hx => hx⟩ (fun x hx => ?_) fun _ hconn => by cases hconn
    rw [List.mem_singleton.mp hx]
    exact hfree

end Calls

end LlamaTrade
