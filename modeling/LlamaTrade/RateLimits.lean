import LlamaTrade.TokenBucket
import LlamaTrade.TransitionRuns
import Mathlib.Algebra.Order.Ring.Rat

/-!
# Rate limits

The token bucket of the API clients (`RateLimiter` in `llamatrade_alpaca/resilience.py`). Its lock is
only held between two awaits, so each turn of the loop in `acquire` is one step; between the turns
the calls sleep, are cancelled and overtake each other in any order.
-/

namespace LlamaTrade

/-- `RateLimiter`. -/
structure RateLimiter (K : Type) [Field K] [LinearOrder K] where
  capacity : ℕ
  refillRate : K
  refillRate_nonneg : 0 ≤ refillRate
  tokens : K
  lastRefill : K

/-- Where an `acquire` call waits: for the lock at first, asleep, or for the lock after that. -/
inductive AcquirePhase (K : Type) where
  | locking
  | sleeping (duration : K)
  | relocking (cancelled : Bool)

structure AcquireCall (K : Type) where
  timeout : Option K
  startTime : K
  phase : AcquirePhase K

/-- How a call ends; `acquired` has the clock reading of the turn that took the token. -/
inductive AcquireResult (K : Type) where
  | acquired (time : K)
  | timedOut
  | raised

/-- A rate limiter with its calls, the last clock reading and the results so far. -/
structure LimiterState (K : Type) [Field K] [LinearOrder K] where
  limiter : RateLimiter K
  clock : K
  calls : ℕ → Option (AcquireCall K)
  results : List (AcquireResult K)

inductive LimiterAction (K : Type) where
  | acquire (call : ℕ) (timeout : Option K) (startTime : K)
  /-- The call gets the lock and reads the clock, once more for its timeout. -/
  | lock (call : ℕ) (now later : K)
  | wake (call : ℕ)
  | cancel (call : ℕ)

section

variable {K : Type} [Field K] [LinearOrder K]

namespace RateLimiter

/-- `__init__`. -/
def new (capacity : ℕ) (refillRate : {rate : K // 0 ≤ rate}) (now : K) : RateLimiter K where
  capacity := capacity
  refillRate := refillRate.1
  refillRate_nonneg := refillRate.2
  tokens := capacity
  lastRefill := now

/-- `_refill`. -/
def refill (limiter : RateLimiter K) (now : K) : RateLimiter K :=
  let elapsed := now - limiter.lastRefill
  { limiter with
    tokens := min (limiter.capacity : K) (limiter.tokens + elapsed * limiter.refillRate)
    lastRefill := now }

/-- What a call without a token does: it raises (the division by the refill rate), gives up or
sleeps. -/
def wait (limiter : RateLimiter K) (call : AcquireCall K) (later : K) :
    AcquireResult K ⊕ K :=
  if limiter.refillRate = 0 then .inl .raised
  else
    let waitTime := (1 - limiter.tokens) / limiter.refillRate
    match call.timeout with
    | none => .inr (min waitTime ((10 : ℕ) : K)⁻¹)
    | some timeout =>
      if timeout < later - call.startTime + waitTime then .inl .timedOut
      else .inr (min waitTime ((10 : ℕ) : K)⁻¹)

/-- The bucket behind a limiter. -/
def bucket (limiter : RateLimiter K) : TokenBucket K where
  capacity := limiter.capacity
  rate := limiter.refillRate
  level := limiter.tokens
  filled := limiter.lastRefill

end RateLimiter

namespace LimiterState

def start (limiter : RateLimiter K) : LimiterState K where
  limiter := limiter
  clock := limiter.lastRefill
  calls := fun _ => none
  results := []

def finish (s : LimiterState K) (call : ℕ) (result : AcquireResult K) : LimiterState K :=
  { s with calls := Function.update s.calls call none, results := s.results ++ [result] }

def move (s : LimiterState K) (call : ℕ) (acquire : AcquireCall K) (phase : AcquirePhase K) :
    LimiterState K :=
  { s with calls := Function.update s.calls call (some { acquire with phase := phase }) }

/-- One turn of the loop in `acquire`, from the refill to the release of the lock. -/
def turn (s : LimiterState K) (call : ℕ) (acquire : AcquireCall K) (now later : K) :
    LimiterState K :=
  let limiter := s.limiter.refill now
  if 1 ≤ limiter.tokens then
    { s with limiter := { limiter with tokens := limiter.tokens - 1 }, clock := later }.finish call
      (.acquired now)
  else
    match limiter.wait acquire later with
    | .inl result => { s with limiter := limiter, clock := later }.finish call result
    | .inr duration =>
      { s with limiter := limiter, clock := later }.move call acquire (.sleeping duration)

def step (s : LimiterState K) : LimiterAction K → Option (LimiterState K)
  | .acquire call timeout startTime =>
    if (s.calls call).isNone ∧ s.clock ≤ startTime then
      some { s with
        clock := startTime
        calls := Function.update s.calls call (some ⟨timeout, startTime, .locking⟩) }
    else none
  | .lock call now later =>
    (s.calls call).bind fun acquire =>
      match acquire.phase with
      | .sleeping _ => none
      -- A call that was cancelled in its sleep takes the lock once more and raises.
      | .relocking true => some (s.finish call .raised)
      | .locking | .relocking false =>
        if s.clock ≤ now ∧ now ≤ later then some (s.turn call acquire now later) else none
  | .wake call =>
    (s.calls call).bind fun acquire =>
      match acquire.phase with
      | .sleeping _ => some (s.move call acquire (.relocking false))
      | .locking | .relocking _ => none
  | .cancel call =>
    (s.calls call).bind fun acquire =>
      match acquire.phase with
      | .sleeping _ => some (s.move call acquire (.relocking true))
      | .locking | .relocking _ => some (s.finish call .raised)

/-- The clock readings at which a token was taken. -/
def acquiredTimes (results : List (AcquireResult K)) : List K :=
  results.filterMap fun result =>
    match result with
    | .acquired time => some time
    | .timedOut | .raised => none

/-! ## One step -/

/-- The bucket keeps its bounds, and its last refill was not after the last clock reading. -/
structure Bounded (created : RateLimiter K) (s : LimiterState K) : Prop where
  capacity_eq : s.limiter.capacity = created.capacity
  refillRate_eq : s.limiter.refillRate = created.refillRate
  bounds : s.limiter.bucket.Bounds (acquiredTimes s.results)
  lastRefill_le : s.limiter.lastRefill ≤ s.clock

omit [Field K] [LinearOrder K] in
theorem acquiredTimes_concat (results : List (AcquireResult K)) (result : AcquireResult K) :
    acquiredTimes (results ++ [result]) = acquiredTimes results ++ acquiredTimes [result] := by
  rw [acquiredTimes, List.filterMap_append]
  rfl

variable {created : RateLimiter K} {s s' : LimiterState K} {call : ℕ}

theorem Bounded.move {acquire : AcquireCall K} {phase : AcquirePhase K} (h : Bounded created s) :
    Bounded created (s.move call acquire phase) :=
  ⟨h.capacity_eq, h.refillRate_eq, h.bounds, h.lastRefill_le⟩

/-- A call that ends without a token. -/
theorem Bounded.finish {result : AcquireResult K} (h : Bounded created s)
    (hresult : acquiredTimes [result] = []) : Bounded created (s.finish call result) := by
  refine ⟨h.capacity_eq, h.refillRate_eq, ?_, h.lastRefill_le⟩
  change s.limiter.bucket.Bounds (acquiredTimes (s.results ++ [result]))
  rw [acquiredTimes_concat, hresult, List.append_nil]
  exact h.bounds

theorem acquiredTimes_wait {limiter : RateLimiter K} {acquire : AcquireCall K} {later : K}
    {result : AcquireResult K} (h : limiter.wait acquire later = .inl result) :
    acquiredTimes [result] = [] := by
  dsimp only [RateLimiter.wait] at h
  split at h
  · cases h
    rfl
  · split at h
    · cases h
    · split at h
      · cases h
        rfl
      · cases h

variable [IsStrictOrderedRing K]

theorem Bounded.turn {acquire : AcquireCall K} {now later : K} (h : Bounded created s) (hnow : s.clock ≤ now)
    (hlater : now ≤ later) : Bounded created (s.turn call acquire now later) := by
  have hrefill : (s.limiter.refill now).bucket.Bounds (acquiredTimes s.results) :=
    h.bounds.refill s.limiter.refillRate_nonneg (h.lastRefill_le.trans hnow)
  dsimp only [LimiterState.turn]
  split
  · rename_i htoken
    refine ⟨h.capacity_eq, h.refillRate_eq, ?_, hlater⟩
    change ((s.limiter.refill now).bucket.take).Bounds (acquiredTimes (s.results ++ [.acquired now]))
    rw [acquiredTimes_concat]
    exact hrefill.take s.limiter.refillRate_nonneg htoken
  · have hrefilled : Bounded created { s with limiter := s.limiter.refill now, clock := later } :=
      ⟨h.capacity_eq, h.refillRate_eq, hrefill, hlater⟩
    split
    · rename_i hwait
      exact hrefilled.finish (acquiredTimes_wait hwait)
    · exact hrefilled.move

theorem Bounded.after {action : LimiterAction K} (h : Bounded created s) (hstep : s.step action = some s') :
    Bounded created s' := by
  cases action with
  | acquire call timeout startTime =>
    simp only [step, Option.ite_none_right_eq_some, Option.some.injEq] at hstep
    obtain ⟨⟨-, hclock⟩, rfl⟩ := hstep
    exact ⟨h.capacity_eq, h.refillRate_eq, h.bounds, h.lastRefill_le.trans hclock⟩
  | lock call now later =>
    simp only [step, Option.bind_eq_some_iff] at hstep
    obtain ⟨acquire, -, hstep⟩ := hstep
    split at hstep
    · cases hstep
    · cases hstep
      exact h.finish rfl
    all_goals
      simp only [Option.ite_none_right_eq_some, Option.some.injEq] at hstep
      obtain ⟨⟨hnow, hlater⟩, rfl⟩ := hstep
      exact h.turn hnow hlater
  | wake call =>
    simp only [step, Option.bind_eq_some_iff] at hstep
    obtain ⟨acquire, -, hstep⟩ := hstep
    split at hstep <;> cases hstep
    exact h.move
  | cancel call =>
    simp only [step, Option.bind_eq_some_iff] at hstep
    obtain ⟨acquire, -, hstep⟩ := hstep
    split at hstep <;> cases hstep
    · exact h.move
    · exact h.finish rfl
    · exact h.finish rfl

/-! ## Runs -/

theorem bounded_start (capacity : ℕ) (refillRate : {rate : K // 0 ≤ rate}) (now : K) :
    Bounded (.new capacity refillRate now) (start (.new capacity refillRate now)) :=
  ⟨rfl, rfl, TokenBucket.bounds_full (Nat.cast_nonneg capacity) refillRate.2 rfl, le_rfl⟩

/-- In every run the tokens stay between zero and the capacity, and in every interval of length `w`
at most `capacity + refillRate * w` calls acquire a token. -/
theorem acquired_le (capacity : ℕ) (refillRate : {rate : K // 0 ≤ rate}) (created : K)
    {actions : List (LimiterAction K)}
    (hrun : Transition.run step (start (.new capacity refillRate created)) actions = some s) :
    (0 ≤ s.limiter.tokens ∧ s.limiter.tokens ≤ capacity) ∧
      ∀ a w, 0 ≤ w →
        (TokenBucket.countIn (acquiredTimes s.results) a w : K) ≤ capacity + refillRate * w := by
  have hmeets : Transition.Meets step (fun _ _ => True)
      (start (.new capacity refillRate created)) actions :=
    Transition.meets_of_forall (fun _ _ _ => trivial) _
  have hbounded : Bounded (.new capacity refillRate created) s :=
    Transition.run_invariant (fun _ _ _ h _ hstep => h.after hstep)
      (bounded_start capacity refillRate created) hmeets hrun
  have hcapacity : s.limiter.capacity = capacity := hbounded.capacity_eq
  have hrate : s.limiter.refillRate = refillRate := hbounded.refillRate_eq
  rw [← hcapacity, ← hrate]
  exact ⟨⟨hbounded.bounds.level_nonneg, hbounded.bounds.level_le⟩, hbounded.bounds.countIn_le⟩

end LimiterState

end

namespace Sample

def halfRate : {rate : ℚ // 0 ≤ rate} := ⟨1 / 2, by norm_num⟩

/-- Two calls on a limiter with one token: the second one sleeps, is woken and then gets a token. -/
def twoAcquires : List (LimiterAction ℚ) :=
  [.acquire 0 none 0, .lock 0 1 1, .acquire 1 (some 5) 1, .lock 1 2 2, .wake 1, .lock 1 3 3]

end Sample

theorem LimiterState.acquired_le_twoAcquires :
    ∃ s, Transition.run step (start (.new 1 Sample.halfRate 0)) Sample.twoAcquires = some s ∧
      (0 ≤ s.limiter.tokens ∧ s.limiter.tokens ≤ (1 : ℕ)) ∧
      ∀ a w, 0 ≤ w →
        (TokenBucket.countIn (acquiredTimes s.results) a w : ℚ) ≤ (1 : ℕ) + Sample.halfRate * w := by
  obtain ⟨s, hs⟩ : ∃ s, Transition.run step (start (.new 1 Sample.halfRate 0))
      Sample.twoAcquires = some s := by
    norm_num [Transition.run, step, start, turn, finish, move, Sample.twoAcquires, Sample.halfRate,
      RateLimiter.new, RateLimiter.refill, RateLimiter.wait]
  exact ⟨s, hs, acquired_le 1 Sample.halfRate 0 hs⟩

end LlamaTrade
