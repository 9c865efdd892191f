import LlamaTrade.AccountSummary
import LlamaTrade.LatestWrites
import LlamaTrade.TransitionRuns

/-!
# Equity snapshots

The equity curve of an account is made of marks of its sleeves (`tasks/equity_snapshot.py`). A pass
projects the account, reads its latest sequence number, fetches the prices and writes the marks in
one transaction; a mark replaces the row of the same sleeve, sequence number and day if it is newer.
Passes of several pods, and fills, come in any order. One account is modelled, the projection is the
fold of the events that are there when it is read, and numbers are exact.
-/

namespace LlamaTrade

open LatestWrites

/-! ## Marks -/

/-- `SnapshotValue`. -/
structure SnapshotValue where
  sleeveId : String
  asOfSequence : ℕ
  cashBalance : ℚ
  reservedCash : ℚ
  equity : ℚ
  lots : List (String × String × String)
  deriving DecidableEq

/-- The positions of a sleeve that are not flat. -/
def SleeveProjection.held (sleeve : SleeveProjection ℚ) : List (String × PositionState ℚ) :=
  sleeve.positions.toList.filter fun e => e.2.qty ≠ 0

/-- `held - prices.keys()` is not empty. -/
def lacksPrice (prices : Dict ℚ) (sleeve : SleeveProjection ℚ) : Bool :=
  sleeve.held.any fun e => e.1 ∉ prices

/-- One round of the loop of `compute_snapshot_values`. -/
def snapshotValue (prices : Dict ℚ) (sequence : ℕ) (entry : String × SleeveProjection ℚ) :
    Option SnapshotValue :=
  let pnl := sleevePnl prices entry.2
  if pnl.equity = 0 ∧ entry.2.positions.isEmpty then none
  else if lacksPrice prices entry.2 then none
  else some
    { sleeveId := entry.1
      asOfSequence := sequence
      cashBalance := entry.2.cash
      reservedCash := entry.2.reserved
      equity := pnl.equity
      lots := entry.2.held.map fun e =>
        (e.1, Arithmetic.text e.2.qty, Arithmetic.text e.2.costBasis) }

/-- `compute_snapshot_values`. -/
def computeSnapshotValues (acc : AccountProjection ℚ) (prices : Dict ℚ) (sequence : ℕ) :
    List SnapshotValue := acc.sleeves.toList.filterMap (snapshotValue prices sequence)

/-! ## Passes -/

/-- The unique index of the rows: sleeve, sequence number and day. -/
abbrev SnapshotKey := String × ℕ × ℤ

/-- The day of a time in microseconds of UTC. -/
def utcDay (time : ℤ) : ℤ := time / 86400000000

/-- A row of `_add_snapshot_rows`. -/
def snapshotWrite (now : ℤ) (value : SnapshotValue) : Write SnapshotKey ℤ SnapshotValue :=
  ⟨(value.sleeveId, value.asOfSequence, utcDay now), now, value⟩

/-- Where a pod is in a pass. -/
inductive SnapshotPhase where
  | idle
  | projected (acc : AccountProjection ℚ)
  | sequenced (acc : AccountProjection ℚ) (sequence : ℕ)
  | priced (acc : AccountProjection ℚ) (sequence : ℕ) (prices : Dict ℚ)

/-- The committed events of the account in the order of their commits, the rows, the passes that
are under way and the writes that were made. -/
structure SnapshotWorld where
  log : List LedgerEvent
  rows : Table SnapshotKey ℤ SnapshotValue
  phase : ℕ → SnapshotPhase
  written : List (Write SnapshotKey ℤ SnapshotValue)

/-- `project_account`: the fold of the visible events in the order of their sequence numbers. -/
def projectLog (log : List LedgerEvent) : AccountProjection ℚ :=
  fold (log.insertionSort fun a b => a.sequence ≤ b.sequence)

namespace SnapshotWorld

inductive Action where
  /-- An event is committed, in whatever order of the sequence numbers. -/
  | append (ev : LedgerEvent)
  | project (pod : ℕ)
  /-- `_latest_sequence`. -/
  | readSequence (pod : ℕ)
  /-- The prices, none where the fetch fails, and the probe of the leadership. -/
  | price (pod : ℕ) (prices : Dict ℚ) (isLeader : Bool)
  | write (pod : ℕ) (now : ℤ)
  /-- An exception, a rollback or a restart. -/
  | abandon (pod : ℕ)

def setPhase (w : SnapshotWorld) (pod : ℕ) (phase : SnapshotPhase) : SnapshotWorld :=
  { w with phase := Function.update w.phase pod phase }

def step (w : SnapshotWorld) : Action → Option SnapshotWorld
  | .append ev => some { w with log := w.log ++ [ev] }
  | .project pod =>
    match w.phase pod with
    | .idle => some (w.setPhase pod (.projected (projectLog w.log)))
    | _ => none
  | .readSequence pod =>
    match w.phase pod with
    | .projected acc => some (w.setPhase pod (.sequenced acc (maxSequence w.log)))
    | _ => none
  | .price pod prices isLeader =>
    match w.phase pod with
    | .sequenced acc sequence =>
      some (w.setPhase pod (if isLeader then .priced acc sequence prices else .idle))
    | _ => none
  | .write pod now =>
    match w.phase pod with
    | .priced acc sequence prices =>
      let writes := (computeSnapshotValues acc prices sequence).map (snapshotWrite now)
      some { w.setPhase pod .idle with
        rows := upserts w.rows writes, written := w.written ++ writes }
    | _ => none
  | .abandon pod => some (w.setPhase pod .idle)

/-- No pass is under way and no row is there. -/
def initial (log : List LedgerEvent) : SnapshotWorld := ⟨log, fun _ => none, fun _ => .idle, []⟩

end SnapshotWorld

/-! ## What a row says -/

section Rows

variable {acc : AccountProjection ℚ} {prices : Dict ℚ} {sequence : ℕ} {log : List LedgerEvent}

/-- A mark of a sleeve of an account: its balances, and its equity with every held position at its
price. -/
structure MarkOf (acc : AccountProjection ℚ) (prices : Dict ℚ) (value : SnapshotValue) : Prop where
  priced : ∀ e ∈ (acc.sleeve value.sleeveId).held, e.1 ∈ prices
  equity : value.equity = (sleevePnl prices (acc.sleeve value.sleeveId)).equity
  cash : value.cashBalance = (acc.sleeve value.sleeveId).cash
  reserved : value.reservedCash = (acc.sleeve value.sleeveId).reserved
  lots : value.lots = (acc.sleeve value.sleeveId).held.map fun e =>
    (e.1, Arithmetic.text e.2.qty, Arithmetic.text e.2.costBasis)

theorem markOf_of_mem {value : SnapshotValue} (h : value ∈ computeSnapshotValues acc prices sequence) :
    MarkOf acc prices value ∧ value.asOfSequence = sequence := by
  obtain ⟨entry, hentry, h⟩ := List.mem_filterMap.mp h
  have hsleeve : acc.sleeve entry.1 = entry.2 := by
    rw [AccountProjection.sleeve, Std.ExtTreeMap.getD_eq_getD_getElem?,
      Std.ExtTreeMap.mem_toList_iff_getElem?_eq_some.mp hentry, Option.getD_some]
  unfold snapshotValue at h
  dsimp only at h
  split_ifs at h with hskip hlacks
  cases h
  refine ⟨⟨fun e he => ?_, ?_, ?_, ?_, ?_⟩, rfl⟩
  · rw [hsleeve] at he
    by_contra hmissing
    exact hlacks (List.any_eq_true.mpr ⟨e, he, by simpa using hmissing⟩)
  · rw [hsleeve]
  · rw [hsleeve]
  · rw [hsleeve]
  · rw [hsleeve]

/-- A projection was read from the log before a sequence number no smaller than any it holds. -/
def ReadBy (log : List LedgerEvent) (acc : AccountProjection ℚ) (sequence : ℕ) : Prop :=
  ∃ n ≤ log.length, acc = projectLog (log.take n) ∧ ∀ ev ∈ log.take n, ev.sequence ≤ sequence

/-- The mark of a row is that of the log at some moment, with no event after the sequence number of
the row. -/
def SoundMark (log : List LedgerEvent) (key : SnapshotKey) (time : ℤ) (value : SnapshotValue) :
    Prop :=
  key = (value.sleeveId, value.asOfSequence, utcDay time) ∧
    ∃ n prices, MarkOf (projectLog (log.take n)) prices value ∧
      ∀ ev ∈ log.take n, ev.sequence ≤ value.asOfSequence

def SnapshotPhaseSound (log : List LedgerEvent) : SnapshotPhase → Prop
  | .idle => True
  | .projected acc => ∃ n ≤ log.length, acc = projectLog (log.take n)
  | .sequenced acc sequence => ReadBy log acc sequence
  | .priced acc sequence _ => ReadBy log acc sequence

/-- The invariant of the passes. -/
structure SoundSnapshots (w : SnapshotWorld) : Prop where
  phase : ∀ pod, SnapshotPhaseSound w.log (w.phase pod)
  written : ∀ wr ∈ w.written, SoundMark w.log wr.key wr.time wr.value
  rows : w.rows = upserts (fun _ => none) w.written

theorem take_append_of_le {n : ℕ} (h : n ≤ log.length) (ev : LedgerEvent) :
    (log ++ [ev]).take n = log.take n := List.take_append_of_le_length h

theorem ReadBy.append (h : ReadBy log acc sequence) (ev : LedgerEvent) :
    ReadBy (log ++ [ev]) acc sequence := by
  obtain ⟨n, hn, hacc, hle⟩ := h
  rw [← take_append_of_le hn ev] at hacc hle
  exact ⟨n, hn.trans (by simp), hacc, hle⟩

theorem SnapshotPhaseSound.append {phase : SnapshotPhase} (h : SnapshotPhaseSound log phase)
    (ev : LedgerEvent) : SnapshotPhaseSound (log ++ [ev]) phase := by
  cases phase with
  | idle => trivial
  | projected acc =>
    obtain ⟨n, hn, hacc⟩ := h
    rw [← take_append_of_le hn ev] at hacc
    exact ⟨n, hn.trans (by simp), hacc⟩
  | sequenced acc sequence => exact ReadBy.append h ev
  | priced acc sequence prices => exact ReadBy.append h ev

theorem SoundMark.append {key : SnapshotKey} {time : ℤ} {value : SnapshotValue}
    (h : SoundMark log key time value) (ev : LedgerEvent) :
    SoundMark (log ++ [ev]) key time value := by
  obtain ⟨hkey, n, prices, hmark, hle⟩ := h
  refine ⟨hkey, min n log.length, prices, ?_, ?_⟩
  · rwa [take_append_of_le (min_le_right ..), ← List.take_eq_take_min]
  · rwa [take_append_of_le (min_le_right ..), ← List.take_eq_take_min]

/-- Setting the phase of one pod. -/
theorem SoundSnapshots.setPhase {w : SnapshotWorld} (h : SoundSnapshots w) {pod : ℕ}
    {phase : SnapshotPhase} (hphase : SnapshotPhaseSound w.log phase) :
    SoundSnapshots (w.setPhase pod phase) where
  phase other := by
    by_cases heq : other = pod
    · subst heq
      simpa [SnapshotWorld.setPhase] using hphase
    · simpa [SnapshotWorld.setPhase, heq] using h.phase other
  written := h.written
  rows := h.rows

theorem step_soundSnapshots {w w' : SnapshotWorld} {a : SnapshotWorld.Action}
    (h : SoundSnapshots w) (hstep : w.step a = some w') : SoundSnapshots w' := by
  cases a with
  | append ev =>
    cases hstep
    exact ⟨fun pod => (h.phase pod).append ev, fun wr hwr => (h.written wr hwr).append ev, h.rows⟩
  | abandon pod =>
    cases hstep
    exact h.setPhase trivial
  | project pod =>
    simp only [SnapshotWorld.step] at hstep
    split at hstep
    · cases hstep
      exact h.setPhase ⟨w.log.length, le_rfl, by rw [List.take_length]⟩
    · cases hstep
  | readSequence pod =>
    have hphase := h.phase pod
    simp only [SnapshotWorld.step] at hstep
    split at hstep
    · next acc hpod =>
      cases hstep
      rw [hpod] at hphase
      obtain ⟨n, hn, hacc⟩ := hphase
      exact h.setPhase ⟨n, hn, hacc, fun ev hev => sequence_le_maxSequence (List.mem_of_mem_take hev)⟩
    · cases hstep
  | price pod prices isLeader =>
    have hphase := h.phase pod
    simp only [SnapshotWorld.step] at hstep
    split at hstep
    · next acc sequence hpod =>
      cases hstep
      rw [hpod] at hphase
      refine h.setPhase ?_
      cases isLeader with
      | true => exact hphase
      | false => trivial
    · cases hstep
  | write pod now =>
    have hphase := h.phase pod
    simp only [SnapshotWorld.step] at hstep
    split at hstep
    · next acc sequence prices hpod =>
      cases hstep
      rw [hpod] at hphase
      obtain ⟨n, -, hacc, hle⟩ := hphase
      have hidle : SoundSnapshots (w.setPhase pod .idle) := h.setPhase trivial
      refine ⟨hidle.phase, fun wr hwr => ?_, ?_⟩
      · rcases List.mem_append.mp hwr with hwr | hwr
        · exact h.written wr hwr
        · obtain ⟨value, hvalue, rfl⟩ := List.mem_map.mp hwr
          obtain ⟨hmark, hsequence⟩ := markOf_of_mem hvalue
          rw [hacc] at hmark
          refine ⟨rfl, n, prices, hmark, ?_⟩
          rw [show (snapshotWrite now value).value.asOfSequence = sequence from hsequence]
          exact hle
      · rw [upserts_append, ← h.rows]
    · cases hstep

theorem initial_soundSnapshots (log : List LedgerEvent) : SoundSnapshots (.initial log) where
  phase _ := trivial
  written := by simp [SnapshotWorld.initial]
  rows := rfl

theorem run_soundSnapshots {log : List LedgerEvent} {actions : List SnapshotWorld.Action}
    {w : SnapshotWorld} (hrun : Transition.run SnapshotWorld.step (.initial log) actions = some w) :
    SoundSnapshots w := by
  have hmeets : Transition.Meets SnapshotWorld.step (fun _ _ => True) (.initial log) actions :=
    Transition.meets_of_forall (fun _ _ _ => trivial) _
  exact Transition.run_invariant (fun _ _ _ h _ hstep => step_soundSnapshots h hstep)
    (initial_soundSnapshots log) hmeets hrun

/-- Passes that write the same marks leave the same rows, in whatever order they commit, where two
marks for one sleeve, sequence number and day at one time do not differ. -/
theorem snapshot_rows_confluent {log log' : List LedgerEvent}
    {actions actions' : List SnapshotWorld.Action} {w w' : SnapshotWorld}
    (hrun : Transition.run SnapshotWorld.step (.initial log) actions = some w)
    (hrun' : Transition.run SnapshotWorld.step (.initial log') actions' = some w')
    (hperm : w.written.Perm w'.written) (hagree : Unambiguous w.written) : w.rows = w'.rows := by
  rw [(run_soundSnapshots hrun).rows, (run_soundSnapshots hrun').rows]
  exact upserts_perm hperm hagree _

end Rows

namespace Sample

def cashDeposit : LedgerEvent :=
  ⟨1, "funds_deposited", [("sleeve_id", .str "cash"), ("amount", .str "100")]⟩

/-- One pod begins a pass and another one begins and ends a pass of its own before the first
writes. -/
def overlappingPasses (first second : ℕ) : List SnapshotWorld.Action :=
  [.project 0, .readSequence 0, .price 0 ∅ true, .project 1, .readSequence 1, .price 1 ∅ true,
    .write first (first + 5), .write second (second + 5)]

def cashMark : SnapshotValue := ⟨"cash", 1, 100, 0, 100, []⟩

theorem cashMarks : computeSnapshotValues (projectLog [cashDeposit]) ∅ 1 = [cashMark] := by
  decide +kernel

/-- The writes of either pass. -/
theorem cashWrites (now : ℤ) : (computeSnapshotValues (projectLog [cashDeposit]) ∅ 1).map
    (snapshotWrite now) = [⟨("cash", 1, utcDay now), now, cashMark⟩] := by
  rw [cashMarks]
  rfl

end Sample

/-- Two passes that commit in either order leave the same rows. -/
theorem snapshot_rows_confluent_overlapping : ∃ w w',
    Transition.run SnapshotWorld.step (.initial [Sample.cashDeposit])
      (Sample.overlappingPasses 0 1) = some w ∧
    Transition.run SnapshotWorld.step (.initial [Sample.cashDeposit])
      (Sample.overlappingPasses 1 0) = some w' ∧ w.rows = w'.rows := by
  refine ⟨_, _, rfl, rfl, @snapshot_rows_confluent _ _ (Sample.overlappingPasses 0 1)
    (Sample.overlappingPasses 1 0) _ _ rfl rfl ?_ ?_⟩
  · show (([] ++ (computeSnapshotValues (projectLog [Sample.cashDeposit]) ∅ 1).map
        (snapshotWrite 5)) ++ (computeSnapshotValues (projectLog [Sample.cashDeposit]) ∅ 1).map
        (snapshotWrite 6)).Perm
      (([] ++ (computeSnapshotValues (projectLog [Sample.cashDeposit]) ∅ 1).map
        (snapshotWrite 6)) ++ (computeSnapshotValues (projectLog [Sample.cashDeposit]) ∅ 1).map
        (snapshotWrite 5))
    rw [List.nil_append, List.nil_append]
    exact List.perm_append_comm
  · show Unambiguous (([] ++ (computeSnapshotValues (projectLog [Sample.cashDeposit]) ∅ 1).map
        (snapshotWrite 5)) ++ (computeSnapshotValues (projectLog [Sample.cashDeposit]) ∅ 1).map
        (snapshotWrite 6))
    rw [Sample.cashWrites, Sample.cashWrites]
    intro wr hwr wr' hwr' _ htime
    simp only [List.nil_append, List.cons_append, List.mem_cons, List.not_mem_nil, or_false] at hwr hwr'
    rcases hwr with rfl | rfl <;> rcases hwr' with rfl | rfl
    · rfl
    · cases htime
    · cases htime
    · rfl

end LlamaTrade
