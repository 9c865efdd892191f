import LlamaTrade.BacktestRuns
import Mathlib.Algebra.Order.Field.Basic
import Mathlib.Data.Rat.Floor
import Mathlib.Tactic.Linarith
import Mathlib.Tactic.Positivity

/-!
# The progress of a backtest

What the attempts of a backtest publish on its stream and what a subscriber gets of it
(`progress.py`, `run_backtest` of `services/backtest_service.py`, the retries of
`workers/celery_tasks.py` and `stream_backtest_progress` of `grpc/servicer.py`). One worker runs the
attempts, requests to cancel come at any time, every publish succeeds, and the stream keeps what was
published. Workers that are lost are left out, and percentages are exact before they are truncated.
-/

namespace LlamaTrade

def BacktestStatus.Terminal (status : BacktestStatus) : Prop :=
  status = .completed ∨ status = .failed ∨ status = .cancelled

instance (status : BacktestStatus) : Decidable status.Terminal :=
  inferInstanceAs (Decidable (_ ∨ _ ∨ _))

/-- `BacktestProgressUpdate`. -/
structure ProgressUpdate where
  status : BacktestStatus
  progressPercent : ℤ
  message : String
  deriving DecidableEq

/-- The subscriber or the servicer stops here. -/
def ProgressUpdate.Terminal (u : ProgressUpdate) : Prop :=
  100 ≤ u.progressPercent ∨ u.status.Terminal

instance (u : ProgressUpdate) : Decidable u.Terminal := inferInstanceAs (Decidable (_ ∨ _))

/-! ## What an attempt publishes -/

/-- `publish_phase`, of a run under way. -/
def phaseUpdate (message : String) (progress : ℤ) : ProgressUpdate := ⟨.running, progress, message⟩

structure ProgressTracker where
  totalItems : ℕ
  lastReportTime : ℚ
  lastReportProgress : ℚ

namespace ProgressTracker

def create (totalItems : ℕ) (now : ℚ) : ProgressTracker := ⟨totalItems, now, 0⟩

def shouldReport (tracker : ProgressTracker) (now current : ℚ) : Bool × ProgressTracker :=
  if 5 ≤ current - tracker.lastReportProgress ∨ 1 / 2 ≤ now - tracker.lastReportTime then
    (true, { tracker with lastReportTime := now, lastReportProgress := current })
  else (false, tracker)

end ProgressTracker

/-- The readings of the clock at a tick, for a new tracker and for the report, and the day. -/
structure ProgressTick where
  created : ℚ
  now : ℚ
  date : String

/-- `BacktestProgressReporter`. -/
structure ProgressReporter where
  tracker : ProgressTracker
  pendingUpdates : List (ℚ × String)

namespace ProgressReporter

/-- The share of the ticks, within the range of the simulation. -/
def simulationProgress (current total : ℕ) : ℚ :=
  if 0 < total then 40 + (current : ℚ) / total * (90 - 40) else 40

/-- Only the most recent half of a queue that has grown too long is kept. -/
def trim (updates : List (ℚ × String)) : List (ℚ × String) :=
  if 100 < updates.length then updates.drop (updates.length - 50) else updates

/-- The callback of `create_engine_callback`. -/
def callback (r : ProgressReporter) (tick : ProgressTick) (current total : ℕ) : ProgressReporter :=
  let tracker := if r.tracker.totalItems ≠ total then .create total tick.created else r.tracker
  let progress := simulationProgress current total
  let report := tracker.shouldReport tick.now progress
  let message := "Processing " ++ tick.date ++ " (" ++ toString current ++ "/" ++ toString total ++ ")"
  ⟨report.2, if report.1 then trim (r.pendingUpdates ++ [(progress, message)]) else r.pendingUpdates⟩

/-- The ticks of the simulation after some of them. -/
def observe (total : ℕ) : ℕ → List ProgressTick → ProgressReporter → ProgressReporter
  | _, [], r => r
  | current, tick :: ticks, r => observe total (current + 1) ticks (r.callback tick (current + 1) total)

/-- `flush`: what it publishes; the percentage is truncated. -/
def flush (r : ProgressReporter) : List ProgressUpdate :=
  r.pendingUpdates.map fun update => phaseUpdate update.2 ⌊update.1⌋

end ProgressReporter

/-- What an attempt meets: the bars and when they were counted, the ticks, and the benchmark. -/
structure AttemptPlan where
  totalBars : ℕ
  countedAt : ℚ
  ticks : List ProgressTick
  benchmark : Bool

namespace AttemptPlan

def flushed (plan : AttemptPlan) : List ProgressUpdate :=
  (ProgressReporter.observe plan.ticks.length 0 plan.ticks
    ⟨.create plan.totalBars plan.countedAt, []⟩).flush

/-- The updates of `_run_backtest_inner` up to the result. -/
def updates (plan : AttemptPlan) : List ProgressUpdate :=
  [phaseUpdate "Loading strategy" 10, phaseUpdate "Strategy compiled" 20,
    phaseUpdate "Fetching market data" 30, phaseUpdate "Running simulation" 40] ++ plan.flushed ++
  ([phaseUpdate "Calculating metrics" 85] ++
    (if plan.benchmark then [phaseUpdate "Calculating benchmark comparison" 90] else []) ++
    [phaseUpdate "Saving results" 95])

end AttemptPlan

/-! ## The worker, the requests and the subscriber -/

/-- Where the worker is: the first update is published, an attempt has some updates to publish yet,
its end is committed and not yet published, or the task is about to reset the row. -/
inductive AttemptPhase where
  | idle
  | starting (plan : AttemptPlan)
  | running (rest : List ProgressUpdate)
  | ending (last : ProgressUpdate) (retries : Bool)
  | retrying

/-- A subscriber, with the attempt under way when it joined and what the servicer sent it first. -/
structure ProgressListener where
  attempt : ℕ
  initial : ProgressUpdate

structure ProgressWorld where
  status : BacktestStatus
  errorMessage : Option String
  phase : AttemptPhase
  attempts : ℕ
  /-- The updates with the attempts that published them. -/
  stream : List (ℕ × ProgressUpdate)
  /-- The status that a request to cancel has read. -/
  cancelling : ℕ → Option BacktestStatus
  flagged : Bool
  listener : Option ProgressListener

inductive ProgressAction where
  | start (plan : AttemptPlan)
  | commitRunning
  | publish
  | fail (error : String) (marketData retries : Bool)
  | abort
  | complete
  | announce
  | resetToPending
  | retry
  | readCancel (t : ℕ)
  | commitCancel (t : ℕ)
  | join

namespace ProgressWorld

def created : ProgressWorld where
  status := .pending
  errorMessage := none
  phase := .idle
  attempts := 0
  stream := []
  cancelling := fun _ => none
  flagged := false
  listener := none

variable (w : ProgressWorld)

def send (u : ProgressUpdate) (phase : AttemptPhase) : ProgressWorld :=
  { w with stream := w.stream ++ [(w.attempts, u)], phase := phase }

/-- The handler of `RuntimeCancelled`. -/
def aborted : ProgressWorld :=
  { w with status := .cancelled, phase := .ending ⟨.cancelled, 100, "Cancelled"⟩ false }

/-- What the servicer sends first. -/
def initialUpdate : ProgressUpdate :=
  ⟨w.status, if w.status = .completed then 100 else 0,
    (w.errorMessage.filter (· ≠ "")).getD "Connected to progress stream"⟩

def step : ProgressAction → Option ProgressWorld
  | .start plan =>
    match w.phase with
    | .idle =>
      if w.status = .pending then
        some ({ w with attempts := w.attempts + 1 }.send (phaseUpdate "Starting backtest" 0)
          (.starting plan))
      else none
    | _ => none
  | .commitRunning =>
    match w.phase with
    | .starting plan => some { w with status := .running, phase := .running plan.updates }
    | _ => none
  | .publish =>
    match w.phase with
    | .running (u :: rest) => some (w.send u (.running rest))
    | _ => none
  | .fail error marketData retries =>
    match w.phase with
    | .running _ => some { w with
        status := .failed
        errorMessage := some (if marketData then "Market data error: " ++ error else error)
        phase := .ending ⟨.failed, 100, "Failed: " ++ error⟩ (marketData && retries) }
    | _ => none
  | .abort =>
    match w.phase with
    | .running _ => if w.flagged then some w.aborted else none
    | _ => none
  | .complete =>
    match w.phase with
    | .running [] => some (if w.status = .running then
        { w with status := .completed, phase := .ending ⟨.completed, 100, "Completed"⟩ false }
      else w.aborted)
    | _ => none
  | .announce =>
    match w.phase with
    | .ending last retries => some (w.send last (if retries then .retrying else .idle))
    | _ => none
  | .resetToPending =>
    match w.phase with
    | .retrying => some (if w.status = .failed then
        { w with status := .pending, errorMessage := none, phase := .idle }
      else { w with phase := .idle })
    | _ => none
  | .retry =>
    match w.phase with
    | .idle => if w.status = .failed then some { w with status := .pending, errorMessage := none }
      else none
    | _ => none
  | .readCancel t =>
    if w.status = .pending ∨ w.status = .running then
      some { w with cancelling := Function.update w.cancelling t (some w.status) }
    else none
  | .commitCancel t =>
    match w.cancelling t with
    | some _ => some { w with
        status := .cancelled
        cancelling := Function.update w.cancelling t none
        flagged := true }
    | none => none
  | .join =>
    match w.phase with
    | .starting _ | .running _ | .ending _ _ =>
      some { w with listener := some ⟨w.attempts, w.initialUpdate⟩ }
    | _ => none

/-- `ProgressSubscriber.tail`, as the servicer reads it. -/
def tailed : List (ℕ × ProgressUpdate) → List (ℕ × ProgressUpdate)
  | [] => []
  | entry :: entries => if entry.2.Terminal then [entry] else entry :: tailed entries

/-- What a subscriber receives. -/
def received (listener : ProgressListener) : List (ℕ × ProgressUpdate) :=
  (listener.attempt, listener.initial) ::
    if listener.initial.status.Terminal then [] else tailed w.stream

/-- A subscriber that has joined the last attempt gets the status that is left as its last word, and
the percentages of an attempt do not decrease. -/
structure TellsOutcome : Prop where
  last : ∀ listener, w.listener = some listener → listener.attempt = w.attempts →
    w.phase = .idle → w.status.Terminal →
    (w.received listener).getLast?.map (·.2.status) = some w.status
  rises : ∀ listener, w.listener = some listener → ∀ attempt,
    (((w.received listener).filter (·.1 = attempt)).map (·.2.progressPercent)).Pairwise (· ≤ ·)

/-- No attempt starts, and no cancellation is committed, once the end of an attempt is committed;
the simulation reports no percentage over the one that the metrics are reported with; and an attempt
that a subscriber has joined as cancelled does not end otherwise. -/
def Undisturbed : ProgressAction → Prop
  | .start plan => (∀ entry ∈ w.stream, ¬entry.2.Terminal) ∧
      ∀ u ∈ plan.flushed, u.progressPercent ≤ 85
  | .fail _ _ _ => ∀ listener, w.listener = some listener → listener.initial.status ≠ .cancelled
  | .complete => w.status = .running →
      ∀ listener, w.listener = some listener → listener.initial.status ≠ .cancelled
  | .commitCancel _ => (∀ entry ∈ w.stream, ¬entry.2.Terminal) ∧
      ∀ last retries, w.phase ≠ .ending last retries
  | _ => True

end ProgressWorld

/-! ## The percentages of an attempt -/

namespace ProgressReporter

theorem simulationProgress_le (total : ℕ) {current next : ℕ} (h : current ≤ next) :
    simulationProgress current total ≤ simulationProgress next total := by
  unfold simulationProgress
  split_ifs with hpos
  · have hle : (current : ℚ) / total ≤ (next : ℚ) / total := by
      have hcast : (current : ℚ) ≤ next := by exact_mod_cast h
      gcongr
    linarith
  · exact le_refl _

theorem le_simulationProgress (current total : ℕ) : 40 ≤ simulationProgress current total := by
  unfold simulationProgress
  split_ifs with hpos
  · have hshare : 0 ≤ (current : ℚ) / total := by positivity
    linarith
  · exact le_refl _

/-- The queue climbs from the start of the simulation and has come no further than a percentage. -/
structure Climbs (r : ProgressReporter) (bound : ℚ) : Prop where
  sorted : (r.pendingUpdates.map (·.1)).Pairwise (· ≤ ·)
  within : ∀ update ∈ r.pendingUpdates, 40 ≤ update.1 ∧ update.1 ≤ bound

theorem trim_sublist (updates : List (ℚ × String)) : (trim updates).Sublist updates := by
  unfold trim
  split_ifs
  · exact List.drop_sublist ..
  · exact List.Sublist.refl _

theorem Climbs.callback {r : ProgressReporter} {current total : ℕ}
    (h : r.Climbs (simulationProgress current total)) (tick : ProgressTick) :
    (r.callback tick (current + 1) total).Climbs (simulationProgress (current + 1) total) := by
  have hle := simulationProgress_le total (Nat.le_succ current)
  unfold ProgressReporter.callback
  extract_lets tracker progress report message
  have hwithin : ∀ update ∈ r.pendingUpdates ++ [(progress, message)],
      40 ≤ update.1 ∧ update.1 ≤ progress := by
    intro update hmem
    obtain hmem | hmem := List.mem_append.mp hmem
    · exact ⟨(h.within update hmem).1, (h.within update hmem).2.trans hle⟩
    · rw [List.mem_singleton.mp hmem]
      exact ⟨le_simulationProgress .., le_refl _⟩
  have hsorted : ((r.pendingUpdates ++ [(progress, message)]).map (·.1)).Pairwise (· ≤ ·) := by
    rw [List.map_append, List.pairwise_append]
    refine ⟨h.sorted, List.pairwise_singleton .., fun earlier hearlier later hlater => ?_⟩
    obtain ⟨update, hmem, rfl⟩ := List.mem_map.mp hearlier
    obtain rfl : later = progress := by simpa using hlater
    exact (hwithin update (List.mem_append_left _ hmem)).2
  cases report.1 with
  | false => exact ⟨h.sorted, fun update hmem => hwithin update (List.mem_append_left _ hmem)⟩
  | true =>
    have hsub := trim_sublist (r.pendingUpdates ++ [(progress, message)])
    exact ⟨hsorted.sublist (hsub.map _), fun update hmem => hwithin update (hsub.subset hmem)⟩

theorem Climbs.observe {r : ProgressReporter} {current total : ℕ}
    (h : r.Climbs (simulationProgress current total)) (ticks : List ProgressTick) :
    (observe total current ticks r).Climbs (simulationProgress (current + ticks.length) total) := by
  induction ticks generalizing current r with
  | nil => exact h
  | cons tick ticks ih =>
    have hrest := ih (h.callback tick)
    rwa [Nat.add_right_comm] at hrest

end ProgressReporter

namespace AttemptPlan

theorem flushed_climbs (plan : AttemptPlan) :
    (plan.flushed.map (·.progressPercent)).Pairwise (· ≤ ·) ∧
      ∀ u ∈ plan.flushed, 40 ≤ u.progressPercent ∧ u.status = .running := by
  have hempty : ProgressReporter.Climbs ⟨.create plan.totalBars plan.countedAt, []⟩
      (ProgressReporter.simulationProgress 0 plan.ticks.length) := ⟨List.Pairwise.nil, by simp⟩
  have hclimbs := hempty.observe plan.ticks
  constructor
  · rw [flushed, ProgressReporter.flush, List.map_map]
    have hfloors := hclimbs.sorted.map (fun progress : ℚ => ⌊progress⌋) fun _ _ hle => Int.floor_le_floor hle
    rwa [List.map_map] at hfloors
  · intro u hu
    obtain ⟨update, hmem, rfl⟩ := List.mem_map.mp hu
    exact ⟨Int.le_floor.mpr (by exact_mod_cast (hclimbs.within update hmem).1), rfl⟩

end AttemptPlan

/-- Updates of a run that is under way, with percentages that do not decrease. -/
structure Calm (updates : List ProgressUpdate) : Prop where
  rises : (updates.map (·.progressPercent)).Pairwise (· ≤ ·)
  within : ∀ u ∈ updates, 0 ≤ u.progressPercent ∧ u.progressPercent < 100 ∧ u.status = .running

theorem Calm.append {early late : List ProgressUpdate} (bound : ℤ) (hearly : Calm early)
    (hlate : Calm late) (hle : ∀ u ∈ early, u.progressPercent ≤ bound)
    (hge : ∀ u ∈ late, bound ≤ u.progressPercent) : Calm (early ++ late) := by
  refine ⟨?_, fun u hu => (List.mem_append.mp hu).elim (hearly.within u) (hlate.within u)⟩
  rw [List.map_append, List.pairwise_append]
  refine ⟨hearly.rises, hlate.rises, fun a ha b hb => ?_⟩
  obtain ⟨u, hu, rfl⟩ := List.mem_map.mp ha
  obtain ⟨v, hv, rfl⟩ := List.mem_map.mp hb
  exact (hle u hu).trans (hge v hv)

theorem Calm.sublist {updates part : List ProgressUpdate} (h : Calm updates)
    (hpart : part.Sublist updates) : Calm part :=
  ⟨h.rises.sublist (hpart.map _), fun u hu => h.within u (hpart.subset hu)⟩

theorem Calm.not_terminal {updates : List ProgressUpdate} (h : Calm updates) :
    ∀ u ∈ updates, ¬u.Terminal := by
  intro u hu hterminal
  obtain ⟨-, hlt, hstatus⟩ := h.within u hu
  obtain hge | hend := hterminal
  · omega
  · rw [hstatus] at hend
    exact absurd hend (by decide)

/-- The updates of an attempt rise if the simulation reports no more than the metrics do. -/
theorem AttemptPlan.calm {plan : AttemptPlan}
    (hflushed : ∀ u ∈ plan.flushed, u.progressPercent ≤ 85) :
    Calm (phaseUpdate "Starting backtest" 0 :: plan.updates) := by
  obtain ⟨hrises, hwithin⟩ := plan.flushed_climbs
  have hsimulated : Calm plan.flushed := by
    refine ⟨hrises, fun u hu => ?_⟩
    have hlow := (hwithin u hu).1
    have hhigh := hflushed u hu
    exact ⟨by omega, by omega, (hwithin u hu).2⟩
  have hfirst : Calm [phaseUpdate "Starting backtest" 0, phaseUpdate "Loading strategy" 10,
      phaseUpdate "Strategy compiled" 20, phaseUpdate "Fetching market data" 30,
      phaseUpdate "Running simulation" 40] := ⟨by decide, by decide⟩
  have hlast : Calm ([phaseUpdate "Calculating metrics" 85] ++
      (if plan.benchmark then [phaseUpdate "Calculating benchmark comparison" 90] else []) ++
      [phaseUpdate "Saving results" 95]) := by
    cases plan.benchmark <;> exact ⟨by decide, by decide⟩
  have hearly := hfirst.append 40 hsimulated (by decide) fun u hu => (hwithin u hu).1
  refine hearly.append 85 hlast (fun u hu => ?_) ?_
  · obtain hu | hu := List.mem_append.mp hu
    · have hall : ∀ v ∈ [phaseUpdate "Starting backtest" 0, phaseUpdate "Loading strategy" 10,
        phaseUpdate "Strategy compiled" 20, phaseUpdate "Fetching market data" 30,
        phaseUpdate "Running simulation" 40], v.progressPercent ≤ 85 := by decide
      exact hall u hu
    · exact hflushed u hu
  · cases plan.benchmark <;> decide

/-! ## Undisturbed runs -/

namespace ProgressWorld

variable {w w' : ProgressWorld}

/-- The stream of the first attempt. -/
def logged (updates : List ProgressUpdate) : List (ℕ × ProgressUpdate) := updates.map (Prod.mk 1)

theorem tailed_eq {entries : List (ℕ × ProgressUpdate)} (h : ∀ entry ∈ entries, ¬entry.2.Terminal)
    (rest : List (ℕ × ProgressUpdate)) : tailed (entries ++ rest) = entries ++ tailed rest := by
  induction entries with
  | nil => rfl
  | cons entry entries ih =>
    obtain ⟨hentry, hentries⟩ := List.forall_mem_cons.mp h
    rw [List.cons_append, tailed, if_neg hentry, ih hentries, List.cons_append]

theorem logged_not_terminal {updates : List ProgressUpdate} (h : Calm updates) :
    ∀ entry ∈ logged updates, ¬entry.2.Terminal := by
  intro entry hentry
  obtain ⟨u, hu, rfl⟩ := List.mem_map.mp hentry
  exact h.not_terminal u hu

theorem tailed_logged {updates : List ProgressUpdate} (h : Calm updates) :
    tailed (logged updates) = logged updates := by
  have heq := tailed_eq (logged_not_terminal h) []
  rwa [tailed, List.append_nil] at heq

/-- A subscriber that has joined while the attempt goes on. -/
def JoinedEarly (w : ProgressWorld) : Prop :=
  ∀ listener, w.listener = some listener → listener.initial.progressPercent = 0 ∧
    (listener.initial.status.Terminal → listener.initial.status = .cancelled)

/-- A subscriber of an attempt with this end. -/
def JoinedFor (w : ProgressWorld) (status : BacktestStatus) : Prop :=
  ∀ listener, w.listener = some listener →
    (listener.initial.status.Terminal → listener.initial.status = status) ∧
    (¬listener.initial.status.Terminal → listener.initial.progressPercent = 0)

/-- The stages of the only attempt. -/
inductive Told (w : ProgressWorld) : Prop
  | fresh (hphase : w.phase = .idle) (hstream : w.stream = []) (hattempts : w.attempts = 0)
      (hlistener : w.listener = none) (hstatus : w.status.Terminal → w.status = .cancelled)
  | sending (sent rest : List ProgressUpdate)
      (hphase : w.phase = .running rest ∨ ∃ plan, w.phase = .starting plan ∧ plan.updates = rest)
      (hcalm : Calm (sent ++ rest)) (hstream : w.stream = logged sent) (hattempts : w.attempts = 1)
      (hstatus : w.status.Terminal → w.status = .cancelled) (hjoined : w.JoinedEarly)
  | ending (sent : List ProgressUpdate) (last : ProgressUpdate) (retries : Bool)
      (hphase : w.phase = .ending last retries) (hcalm : Calm sent)
      (hstream : w.stream = logged sent) (hattempts : w.attempts = 1) (hfull : 100 ≤ last.progressPercent)
      (hlast : last.status = w.status) (hterminal : w.status.Terminal)
      (hjoined : w.JoinedFor w.status)
  | ended (sent : List ProgressUpdate) (last : ProgressUpdate)
      (hphase : w.phase = .idle ∨ w.phase = .retrying) (hcalm : Calm sent)
      (hstream : w.stream = logged (sent ++ [last])) (hattempts : w.attempts = 1)
      (hfull : 100 ≤ last.progressPercent)
      (hlast : w.status.Terminal → last.status = w.status) (hjoined : w.JoinedFor last.status)

theorem JoinedEarly.joinedFor (h : w.JoinedEarly) {status : BacktestStatus}
    (hstatus : status = .cancelled ∨
      ∀ listener, w.listener = some listener → listener.initial.status ≠ .cancelled)
    (hlistener : w'.listener = w.listener) : w'.JoinedFor status := by
  intro listener hsome
  rw [hlistener] at hsome
  obtain ⟨hzero, hcancelled⟩ := h listener hsome
  refine ⟨fun hterminal => ?_, fun _ => hzero⟩
  obtain rfl | hnever := hstatus
  · exact hcancelled hterminal
  · exact absurd (hcancelled hterminal) (hnever listener hsome)

/-- A running attempt commits its end. -/
theorem Told.ends (h : w.Told) {rest : List ProgressUpdate} (hrunning : w.phase = .running rest)
    (last : ProgressUpdate) {retries : Bool} (hfull : 100 ≤ last.progressPercent)
    (hterminal : last.status.Terminal)
    (hjoined : last.status = .cancelled ∨
      ∀ listener, w.listener = some listener → listener.initial.status ≠ .cancelled)
    (error : Option String) :
    Told { w with status := last.status, errorMessage := error, phase := .ending last retries } := by
  cases h with
  | fresh hphase => cases hphase.symm.trans hrunning
  | ending _ _ _ hphase => cases hphase.symm.trans hrunning
  | ended _ _ hphase => obtain hphase | hphase := hphase <;> cases hphase.symm.trans hrunning
  | sending sent rest' _ hcalm hstream hattempts _ hearly =>
    exact .ending sent last retries rfl (hcalm.sublist (List.sublist_append_left ..)) hstream
      hattempts hfull rfl hterminal (hearly.joinedFor hjoined rfl)

/-- The stream of an attempt that has ended holds its end. -/
theorem exists_terminal {sent : List ProgressUpdate} {last : ProgressUpdate}
    (hfull : 100 ≤ last.progressPercent) :
    ¬∀ entry ∈ logged (sent ++ [last]), ¬entry.2.Terminal := fun hall =>
  hall (1, last) (List.mem_map_of_mem (List.mem_append_right _ (List.mem_singleton_self _)))
    (.inl hfull)

theorem logged_concat (sent : List ProgressUpdate) (u : ProgressUpdate) :
    logged sent ++ [(1, u)] = logged (sent ++ [u]) := by
  rw [logged, logged, List.map_append, List.map_singleton]

theorem Told.step {action : ProgressAction} (h : w.Told) (hok : w.Undisturbed action)
    (hstep : w.step action = some w') : w'.Told := by
  cases action with
  | start plan =>
    cases hphase : w.phase with
    | starting | running | ending | retrying => simp [ProgressWorld.step, hphase] at hstep
    | idle =>
      by_cases hpending : w.status = .pending
      · simp only [ProgressWorld.step, hphase, if_pos hpending, Option.some.injEq] at hstep
        subst hstep
        cases h with
        | sending _ _ h' => obtain h' | ⟨_, h', -⟩ := h' <;> cases h'.symm.trans hphase
        | ending _ _ _ h' => cases h'.symm.trans hphase
        | ended _ _ _ _ hstream _ hfull => exact absurd (hstream ▸ hok.1) (exists_terminal hfull)
        | fresh _ hstream hattempts hlistener hstatus =>
          refine .sending [phaseUpdate "Starting backtest" 0] plan.updates (.inr ⟨plan, rfl, rfl⟩)
            (AttemptPlan.calm hok.2) ?_ ?_ hstatus fun listener hsome => ?_
          · simp [send, hstream, hattempts, logged]
          · simp [send, hattempts]
          · cases hlistener.symm.trans hsome
      · simp [ProgressWorld.step, hphase, hpending] at hstep
  | commitRunning =>
    cases hphase : w.phase with
    | idle | running | ending | retrying => simp [ProgressWorld.step, hphase] at hstep
    | starting plan =>
      simp only [ProgressWorld.step, hphase, Option.some.injEq] at hstep
      subst hstep
      cases h with
      | fresh h' => cases h'.symm.trans hphase
      | ending _ _ _ h' => cases h'.symm.trans hphase
      | ended _ _ h' => obtain h' | h' := h' <;> cases h'.symm.trans hphase
      | sending sent rest h' hcalm hstream hattempts hstatus hearly =>
        obtain h' | ⟨plan', h', hupdates⟩ := h'
        · cases h'.symm.trans hphase
        · cases h'.symm.trans hphase
          refine .sending sent rest (.inl (by rw [hupdates])) hcalm hstream hattempts ?_ hearly
          exact fun hterminal => absurd (show BacktestStatus.running.Terminal from hterminal) (by decide)
  | publish =>
    cases hphase : w.phase with
    | idle | starting | ending | retrying => simp [ProgressWorld.step, hphase] at hstep
    | running rest =>
      cases rest with
      | nil => simp [ProgressWorld.step, hphase] at hstep
      | cons u rest =>
        simp only [ProgressWorld.step, hphase, Option.some.injEq] at hstep
        subst hstep
        cases h with
        | fresh h' => cases h'.symm.trans hphase
        | ending _ _ _ h' => cases h'.symm.trans hphase
        | ended _ _ h' => obtain h' | h' := h' <;> cases h'.symm.trans hphase
        | sending sent rest' h' hcalm hstream hattempts hstatus hearly =>
          obtain h' | ⟨_, h', -⟩ := h'
          · cases h'.symm.trans hphase
            refine .sending (sent ++ [u]) rest (.inl rfl) ?_ ?_ hattempts hstatus hearly
            · rwa [List.append_assoc]
            · dsimp only [send]
              rw [hstream, hattempts, logged_concat]
          · cases h'.symm.trans hphase
  | fail error marketData retries =>
    cases hphase : w.phase with
    | idle | starting | ending | retrying => simp [ProgressWorld.step, hphase] at hstep
    | running rest =>
      simp only [ProgressWorld.step, hphase, Option.some.injEq] at hstep
      subst hstep
      exact h.ends hphase ⟨.failed, 100, "Failed: " ++ error⟩ (le_refl _)
        (show BacktestStatus.failed.Terminal by decide) (.inr hok) _
  | abort =>
    cases hphase : w.phase with
    | idle | starting | ending | retrying => simp [ProgressWorld.step, hphase] at hstep
    | running rest =>
      cases hflag : w.flagged with
      | false => simp [ProgressWorld.step, hphase, hflag] at hstep
      | true =>
        simp only [ProgressWorld.step, hphase, hflag, if_true, Option.some.injEq] at hstep
        subst hstep
        exact h.ends hphase ⟨.cancelled, 100, "Cancelled"⟩ (le_refl _) (by decide)
          (.inl rfl) w.errorMessage
  | complete =>
    cases hphase : w.phase with
    | idle | starting | ending | retrying => simp [ProgressWorld.step, hphase] at hstep
    | running rest =>
      cases rest with
      | cons u rest => simp [ProgressWorld.step, hphase] at hstep
      | nil =>
        simp only [ProgressWorld.step, hphase, Option.some.injEq] at hstep
        subst hstep
        by_cases hrunning : w.status = .running
        · rw [if_pos hrunning]
          exact h.ends hphase ⟨.completed, 100, "Completed"⟩ (le_refl _) (by decide)
            (.inr (hok hrunning)) w.errorMessage
        · rw [if_neg hrunning]
          exact h.ends hphase ⟨.cancelled, 100, "Cancelled"⟩ (le_refl _) (by decide)
            (.inl rfl) w.errorMessage
  | announce =>
    cases hphase : w.phase with
    | idle | starting | running | retrying => simp [ProgressWorld.step, hphase] at hstep
    | ending last retries =>
      simp only [ProgressWorld.step, hphase, Option.some.injEq] at hstep
      subst hstep
      cases h with
      | fresh h' => cases h'.symm.trans hphase
      | sending _ _ h' => obtain h' | ⟨_, h', -⟩ := h' <;> cases h'.symm.trans hphase
      | ended _ _ h' => obtain h' | h' := h' <;> cases h'.symm.trans hphase
      | ending sent last' retries' h' hcalm hstream hattempts hfull hlast hterminal hjoined =>
        cases h'.symm.trans hphase
        refine .ended sent last ?_ hcalm ?_ hattempts hfull (fun _ => hlast) (hlast ▸ hjoined)
        · cases retries with
          | false => exact .inl rfl
          | true => exact .inr rfl
        · dsimp only [send]
          rw [hstream, hattempts, logged_concat]
  | resetToPending =>
    cases hphase : w.phase with
    | idle | starting | running | ending => simp [ProgressWorld.step, hphase] at hstep
    | retrying =>
      simp only [ProgressWorld.step, hphase, Option.some.injEq] at hstep
      subst hstep
      cases h with
      | fresh h' => cases h'.symm.trans hphase
      | sending _ _ h' => obtain h' | ⟨_, h', -⟩ := h' <;> cases h'.symm.trans hphase
      | ending _ _ _ h' => cases h'.symm.trans hphase
      | ended sent last _ hcalm hstream hattempts hfull hlast hjoined =>
        split_ifs with hfailed
        · refine .ended sent last (.inl rfl) hcalm hstream hattempts hfull (fun hterminal => ?_) hjoined
          exact absurd (show BacktestStatus.pending.Terminal from hterminal) (by decide)
        · exact .ended sent last (.inl rfl) hcalm hstream hattempts hfull hlast hjoined
  | retry =>
    cases hphase : w.phase with
    | starting | running | ending | retrying => simp [ProgressWorld.step, hphase] at hstep
    | idle =>
      by_cases hfailed : w.status = .failed
      · simp only [ProgressWorld.step, hphase, if_pos hfailed, Option.some.injEq] at hstep
        subst hstep
        cases h with
        | sending _ _ h' => obtain h' | ⟨_, h', -⟩ := h' <;> cases h'.symm.trans hphase
        | ending _ _ _ h' => cases h'.symm.trans hphase
        | fresh _ _ _ _ hstatus =>
          rw [hfailed] at hstatus
          exact absurd (hstatus (by decide)) (by decide)
        | ended sent last hover hcalm hstream hattempts hfull hlast hjoined =>
          refine .ended sent last (.inl rfl) hcalm hstream hattempts hfull (fun hterminal => ?_) hjoined
          exact absurd (show BacktestStatus.pending.Terminal from hterminal) (by decide)
      · simp [ProgressWorld.step, hphase, hfailed] at hstep
  | readCancel t =>
    by_cases hactive : w.status = .pending ∨ w.status = .running
    · simp only [ProgressWorld.step, if_pos hactive, Option.some.injEq] at hstep
      subst hstep
      cases h with
      | fresh hphase hstream hattempts hlistener hstatus =>
        exact .fresh hphase hstream hattempts hlistener hstatus
      | sending sent rest hphase hcalm hstream hattempts hstatus hjoined =>
        exact .sending sent rest hphase hcalm hstream hattempts hstatus hjoined
      | ending sent last retries hphase hcalm hstream hattempts hfull hlast hterminal hjoined =>
        exact .ending sent last retries hphase hcalm hstream hattempts hfull hlast hterminal hjoined
      | ended sent last hphase hcalm hstream hattempts hfull hlast hjoined =>
        exact .ended sent last hphase hcalm hstream hattempts hfull hlast hjoined
    · simp [ProgressWorld.step, hactive] at hstep
  | commitCancel t =>
    cases hread : w.cancelling t with
    | none => simp [ProgressWorld.step, hread] at hstep
    | some found =>
      simp only [ProgressWorld.step, hread, Option.some.injEq] at hstep
      subst hstep
      cases h with
      | fresh hphase hstream hattempts hlistener _ =>
        exact .fresh hphase hstream hattempts hlistener fun _ => rfl
      | sending sent rest hphase hcalm hstream hattempts _ hjoined =>
        exact .sending sent rest hphase hcalm hstream hattempts (fun _ => rfl) hjoined
      | ending _ last retries hphase => exact absurd hphase (hok.2 last retries)
      | ended _ _ _ _ hstream _ hfull => exact absurd (hstream ▸ hok.1) (exists_terminal hfull)
  | join =>
    have hjoin : ∀ {world : ProgressWorld}, world.listener = some ⟨w.attempts, w.initialUpdate⟩ →
        (w.status.Terminal → w.status = .cancelled) → world.JoinedEarly := by
      intro world hsome hstatus listener hlistener
      cases hsome.symm.trans hlistener
      refine ⟨if_neg fun hcompleted => ?_, hstatus⟩
      rw [hcompleted] at hstatus
      exact absurd (hstatus (by decide)) (by decide)
    cases h with
    | fresh hphase => simp [ProgressWorld.step, hphase] at hstep
    | ended _ _ hphase => obtain hphase | hphase := hphase <;> simp [ProgressWorld.step, hphase] at hstep
    | sending sent rest hphase hcalm hstream hattempts hstatus _ =>
      obtain hphase | ⟨plan, hphase, hrest⟩ := hphase
      · simp only [ProgressWorld.step, hphase, Option.some.injEq] at hstep
        subst hstep
        exact .sending sent rest (.inl rfl) hcalm hstream hattempts hstatus (hjoin rfl hstatus)
      · simp only [ProgressWorld.step, hphase, Option.some.injEq] at hstep
        subst hstep
        exact .sending sent rest (.inr ⟨plan, rfl, hrest⟩) hcalm hstream hattempts hstatus
          (hjoin rfl hstatus)
    | ending sent last retries hphase hcalm hstream hattempts hfull hlast hterminal _ =>
      simp only [ProgressWorld.step, hphase, Option.some.injEq] at hstep
      subst hstep
      refine .ending sent last retries rfl hcalm hstream hattempts hfull hlast hterminal ?_
      intro listener hlistener
      cases hlistener
      exact ⟨fun _ => rfl, fun hnot => absurd hterminal hnot⟩

/-- What a subscriber receives of one attempt, as far as it has got. -/
theorem received_rises {listener : ProgressListener} {updates : List ProgressUpdate}
    (hinitial : ¬listener.initial.status.Terminal → listener.initial.progressPercent = 0)
    (hstream : (tailed w.stream).Sublist (logged updates))
    (hrises : (updates.map (·.progressPercent)).Pairwise (· ≤ ·))
    (hnonneg : ∀ u ∈ updates, 0 ≤ u.progressPercent) (attempt : ℕ) :
    (((w.received listener).filter (·.1 = attempt)).map (·.2.progressPercent)).Pairwise (· ≤ ·) := by
  suffices hall : ((w.received listener).map (·.2.progressPercent)).Pairwise (· ≤ ·) from
    hall.sublist (List.filter_sublist.map _)
  unfold received
  by_cases hterminal : listener.initial.status.Terminal
  · rw [if_pos hterminal]
    exact List.pairwise_singleton ..
  · rw [if_neg hterminal, List.map_cons, List.pairwise_cons]
    have hsub := hstream.map (·.2.progressPercent)
    have hpercents : (logged updates).map (·.2.progressPercent) = updates.map (·.progressPercent) := by
      rw [logged, List.map_map]
      rfl
    rw [hpercents] at hsub
    refine ⟨fun percent hmem => ?_, hrises.sublist hsub⟩
    obtain ⟨u, hu, rfl⟩ := List.mem_map.mp (hsub.subset hmem)
    dsimp only
    rw [hinitial hterminal]
    exact hnonneg u hu

theorem Told.tellsOutcome (h : w.Told) : w.TellsOutcome := by
  cases h with
  | fresh hphase hstream hattempts hlistener hstatus =>
    exact ⟨fun listener hsome => (by cases hlistener.symm.trans hsome),
      fun listener hsome => (by cases hlistener.symm.trans hsome)⟩
  | sending sent rest hphase hcalm hstream hattempts hstatus hjoined =>
    have hsent := hcalm.sublist (List.sublist_append_left ..)
    have htail : tailed w.stream = logged sent := hstream ▸ tailed_logged hsent
    refine ⟨fun listener _ _ hidle => ?_, fun listener hsome attempt => ?_⟩
    · obtain hphase | ⟨_, hphase, -⟩ := hphase <;> cases hphase.symm.trans hidle
    · exact received_rises (fun _ => (hjoined listener hsome).1) (htail ▸ List.Sublist.refl _)
        hsent.rises (fun u hu => (hsent.within u hu).1) attempt
  | ending sent last retries hphase hcalm hstream hattempts hfull hlast hterminal hjoined =>
    have htail : tailed w.stream = logged sent := hstream ▸ tailed_logged hcalm
    refine ⟨fun listener _ _ hidle => ?_, fun listener hsome attempt => ?_⟩
    · cases hphase.symm.trans hidle
    · exact received_rises (hjoined listener hsome).2 (htail ▸ List.Sublist.refl _)
        hcalm.rises (fun u hu => (hcalm.within u hu).1) attempt
  | ended sent last hphase hcalm hstream hattempts hfull hlast hjoined =>
    have hend : last.Terminal := .inl hfull
    have htail : tailed w.stream = logged (sent ++ [last]) := by
      rw [hstream, ← logged_concat, tailed_eq (logged_not_terminal hcalm), tailed, if_pos hend]
    refine ⟨fun listener hsome _ _ hterminal => ?_, fun listener hsome attempt => ?_⟩
    · unfold received
      by_cases hinitial : listener.initial.status.Terminal
      · rw [if_pos hinitial, ← hlast hterminal, ← (hjoined listener hsome).1 hinitial]
        rfl
      · rw [if_neg hinitial, htail, ← logged_concat, ← List.cons_append, List.getLast?_concat,
          ← hlast hterminal]
        rfl
    · have hrises : ((sent ++ [last]).map (·.progressPercent)).Pairwise (· ≤ ·) := by
        rw [List.map_append, List.pairwise_append]
        refine ⟨hcalm.rises, List.pairwise_singleton .., fun a ha b hb => ?_⟩
        obtain ⟨u, hu, rfl⟩ := List.mem_map.mp ha
        obtain rfl : b = last.progressPercent := by simpa using hb
        exact (le_of_lt (hcalm.within u hu).2.1).trans hfull
      refine received_rises (hjoined listener hsome).2 (htail ▸ List.Sublist.refl _) hrises
        (fun u hu => ?_) attempt
      obtain hu | hu := List.mem_append.mp hu
      · exact (hcalm.within u hu).1
      · rw [List.mem_singleton.mp hu]
        omega

end ProgressWorld

namespace Sample

def quietPlan : AttemptPlan := ⟨1, 0, [], false⟩

/-- An attempt that a subscriber joins and that completes. -/
def completedAttempt : List ProgressAction :=
  [.start quietPlan, .commitRunning, .join, .publish, .publish, .publish, .publish, .publish, .publish,
    .complete, .announce]

/-- The same after an attempt that has failed to get its market data. -/
def retriedAttempt : List ProgressAction :=
  [.start quietPlan, .commitRunning, .fail "timeout" true true, .announce, .resetToPending] ++
    completedAttempt

end Sample

namespace ProgressWorld

open Sample

end ProgressWorld

end LlamaTrade
