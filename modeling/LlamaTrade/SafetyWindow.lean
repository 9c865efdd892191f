import LlamaTrade.RestartEquivalence
import LlamaTrade.TransitionRuns
import Mathlib.Data.Finset.Dedup

/-!
# Incremental projection and the safety window

Ledger writers are transactions that take sequence numbers at insertion, stamp their
rows with their start and become visible at commit. Projection passes
(`project_account_incremental`) fold the events after a checkpoint, advance the
checkpoint over those older than the safety window, keep it in a process-local cache
and persist it. Sequence numbers skipped by other accounts, aborts, evicted caches,
lost checkpoint rows and failed saves are steps of their own.
-/

namespace LlamaTrade

/-- A row of the event table; `createdAt` is the start of the writing transaction. -/
structure StoredEvent where
  event : LedgerEvent
  createdAt : ℤ

namespace StoredEvent

def sequence (row : StoredEvent) : ℕ := row.event.sequence

end StoredEvent

/-- `_partition_at_window`. -/
def partitionAtWindow (cutoff : ℤ) : List StoredEvent → List StoredEvent × List StoredEvent
  | [] => ([], [])
  | row :: rows =>
    if cutoff ≤ row.createdAt then ([], row :: rows)
    else (row :: (partitionAtWindow cutoff rows).1, (partitionAtWindow cutoff rows).2)

/-- `ORDER BY sequence`. -/
def sortRows (rows : List StoredEvent) : List StoredEvent :=
  rows.insertionSort fun a b => a.sequence ≤ b.sequence

/-- `read_account_events_since`. -/
def readSince (rows : List StoredEvent) (after : ℕ) : List StoredEvent :=
  (sortRows rows).filter fun row => after < row.sequence

def eventsOf (rows : List StoredEvent) : List LedgerEvent := rows.map (·.event)

namespace SafetyWindow

/-- An open transaction with the rows it has inserted, newest first. -/
structure WriterTx where
  start : ℤ
  rows : List StoredEvent

/-- The event table of an account as its writers see it: the clock, the sequence
generator, the open transactions and the committed rows. -/
structure Ledger where
  now : ℤ
  nextSequence : ℕ
  txs : ℕ → Option WriterTx
  committed : List StoredEvent

inductive WriterAction where
  | tick (seconds : ℕ)
  | skipSequence
  | begin (tx : ℕ)
  | insert (tx : ℕ) (eventType : String) (data : Payload)
  | commit (tx : ℕ)
  | abort (tx : ℕ)

def Ledger.setTx (l : Ledger) (tx : ℕ) (t : Option WriterTx) : Ledger :=
  { l with txs := Function.update l.txs tx t }

/-- A step of a writer or of the clock; a transaction commits only within the window
after its start. -/
def writerStep (window : ℤ) (l : Ledger) : WriterAction → Option Ledger
  | .tick seconds => some { l with now := l.now + seconds }
  | .skipSequence => some { l with nextSequence := l.nextSequence + 1 }
  | .begin tx =>
    match l.txs tx with
    | none => some (l.setTx tx (some ⟨l.now, []⟩))
    | some _ => none
  | .insert tx eventType data =>
    match l.txs tx with
    | none => none
    | some t =>
      some { l.setTx tx (some ⟨t.start, ⟨⟨l.nextSequence, eventType, data⟩, t.start⟩ :: t.rows⟩) with
        nextSequence := l.nextSequence + 1 }
  | .commit tx =>
    match l.txs tx with
    | none => none
    | some t =>
      if l.now ≤ t.start + window then
        some { l.setTx tx none with committed := t.rows ++ l.committed }
      else none
  | .abort tx =>
    match l.txs tx with
    | none => none
    | some _ => some (l.setTx tx none)

/-- `_Checkpoint`. -/
structure Checkpoint (D : Type) where
  asOfSequence : ℕ
  state : FoldState D
  lots : LotBook D

/-- Where a pass stands: its cache lookup missed, it has its seed, it has read the
delta, it is about to persist a checkpoint. The rows visible at the read are kept for
the specification only. -/
inductive PassPhase (D : Type) where
  | missed (process : ℕ)
  | seeded (process : ℕ) (seed : Option (Checkpoint D)) (fromCache : Bool)
  | read (process : ℕ) (seed : Option (Checkpoint D)) (fromCache : Bool)
      (delta visible : List StoredEvent)
  | saving (checkpoint : Checkpoint D)

/-- The event table, the persisted checkpoint row, the caches of the processes, the
passes under way, and what passes returned with the rows they saw. -/
structure World (D : Type) where
  ledger : Ledger
  row : Option (ℕ × Json)
  cache : ℕ → Option (Checkpoint D)
  passes : ℕ → Option (PassPhase D)
  returned : List (AccountProjection D × List StoredEvent)

inductive Action where
  | write (action : WriterAction)
  | startPass (pass process : ℕ)
  | loadRow (pass : ℕ)
  | readDelta (pass : ℕ)
  | finishPass (pass : ℕ)
  | saveRow (pass : ℕ) (persisted : Bool)
  | evict (process : ℕ)
  | dropRow

section Steps

variable {D : Type} [Arithmetic D]

def Checkpoint.empty : Checkpoint D := ⟨0, .empty, ∅⟩

/-- Fold the safe part of the delta onto the seed. -/
def advance (base : Checkpoint D) (safe : List StoredEvent) : Checkpoint D :=
  ⟨if safe.isEmpty then base.asOfSequence else maxSequence (eventsOf safe),
    foldInto base.state (eventsOf safe), foldLotsInto base.lots (eventsOf safe)⟩

/-- The cache moves forward only. -/
def cached (current : Option (Checkpoint D)) (checkpoint : Checkpoint D) : Checkpoint D :=
  match current with
  | none => checkpoint
  | some c => if c.asOfSequence ≤ checkpoint.asOfSequence then checkpoint else c

def rowOf (checkpoint : Checkpoint D) : ℕ × Json :=
  (checkpoint.asOfSequence, savedState checkpoint.state checkpoint.lots)

/-- The upsert of `save`, which moves forward only. -/
def upsert (row : Option (ℕ × Json)) (checkpoint : Checkpoint D) : ℕ × Json :=
  match row with
  | none => rowOf checkpoint
  | some r => if r.1 ≤ checkpoint.asOfSequence then rowOf checkpoint else r

/-- `load`. -/
def load (row : Option (ℕ × Json)) : Option (Checkpoint D) :=
  row.bind fun r => (loadState r.2).map fun s => ⟨r.1, s.1, s.2⟩

def World.setPass (w : World D) (pass : ℕ) (phase : Option (PassPhase D)) : World D :=
  { w with passes := Function.update w.passes pass phase }

/-- The rest of a pass after its read: read the clock, split the delta, advance the
cache, and return the projection of the checkpoint and the recent tail. -/
def finish (window : ℤ) (w : World D) (pass process : ℕ) (seed : Option (Checkpoint D))
    (fromCache : Bool) (delta visible : List StoredEvent) : World D :=
  let base := seed.getD .empty
  if seed.isSome ∧ fromCache ∧ delta.isEmpty then
    { w.setPass pass none with returned := (base.state.acc, visible) :: w.returned }
  else
    let parts := partitionAtWindow (w.ledger.now - window) delta
    let checkpoint := advance base parts.1
    let persist := base.asOfSequence < checkpoint.asOfSequence ∧ checkpoint.state.acc.isComplete
    { w.setPass pass (if persist then some (.saving checkpoint) else none) with
      cache := Function.update w.cache process (some (cached (w.cache process) checkpoint))
      returned := ((foldInto checkpoint.state (eventsOf parts.2)).acc, visible) :: w.returned }

/-- One step; `none` when the action is not enabled. -/
def step (window : ℤ) (w : World D) : Action → Option (World D)
  | .write action => (writerStep window w.ledger action).map fun l => { w with ledger := l }
  | .startPass pass process =>
    match w.passes pass with
    | some _ => none
    | none =>
      match w.cache process with
      | some c => some (w.setPass pass (some (.seeded process (some c) true)))
      | none => some (w.setPass pass (some (.missed process)))
  | .loadRow pass =>
    match w.passes pass with
    | some (.missed process) =>
      some (w.setPass pass (some (.seeded process (load w.row) false)))
    | _ => none
  | .readDelta pass =>
    match w.passes pass with
    | some (.seeded process seed fromCache) =>
      some (w.setPass pass (some (.read process seed fromCache
        (readSince w.ledger.committed (seed.getD .empty).asOfSequence)
        (sortRows w.ledger.committed))))
    | _ => none
  | .finishPass pass =>
    match w.passes pass with
    | some (.read process seed fromCache delta visible) =>
      some (finish window w pass process seed fromCache delta visible)
    | _ => none
  | .saveRow pass persisted =>
    match w.passes pass with
    | some (.saving checkpoint) =>
      some { w.setPass pass none with
        row := if persisted then some (upsert w.row checkpoint) else w.row }
    | _ => none
  | .evict process => some { w with cache := Function.update w.cache process none }
  | .dropRow => some { w with row := none }

/-- An account without events, checkpoints or activity. -/
def World.initial : World D :=
  ⟨⟨0, 1, fun _ => none, []⟩, none, fun _ => none, fun _ => none, []⟩

/-- What each pass returned is the fold of the rows it saw. -/
def ReturnsVisible (w : World D) : Prop :=
  ∀ r ∈ w.returned, r.1 = fold (eventsOf r.2)

/-- A sequence number behind which nothing can appear any more: every row of a
transaction that can still commit, and every row still to be inserted, comes later. -/
def Settled (window : ℤ) (l : Ledger) (n : ℕ) : Prop :=
  n < l.nextSequence ∧ ∀ tx t, l.txs tx = some t → l.now ≤ t.start + window →
    ∀ r ∈ t.rows, n < r.sequence

/-- No checkpoint has advanced past a row that may still become visible. -/
def NoneOvertaken (window : ℤ) (w : World D) : Prop :=
  (∀ process c, w.cache process = some c → Settled window w.ledger c.asOfSequence) ∧
    ∀ r, w.row = some r → Settled window w.ledger r.1

/-- The order of the writers: who inserts a row has not started before a transaction
that already holds a sequence number. -/
def InsertsInOrder (l : Ledger) (tx : ℕ) : Prop :=
  ∀ t tx' t', l.txs tx = some t → tx' ≠ tx → l.txs tx' = some t' → t'.rows ≠ [] →
    t'.start ≤ t.start

/-- The condition on a step. An insertion keeps the order of the writers. A commit does
not fall between the read and the clock reading of a pass that has read a later row, and
leaves no more terminal order ids than the fold tracks. -/
def Calm (w : World D) : Action → Prop
  | .write (.insert tx _ _) => InsertsInOrder w.ledger tx
  | .write (.commit tx) => ∀ t, w.ledger.txs tx = some t →
      (∀ pass process seed fromCache delta visible,
        w.passes pass = some (.read process seed fromCache delta visible) →
        ∀ r ∈ t.rows, ∀ r' ∈ delta, r'.sequence < r.sequence) ∧
      (terminalIds D (eventsOf (t.rows ++ w.ledger.committed))).toFinset.card ≤ terminalTracked
  | _ => True

end Steps

end SafetyWindow

end LlamaTrade
