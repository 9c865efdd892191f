import LlamaTrade.OrdinaryErrors
import LlamaTrade.PoisonCount
import LlamaTrade.TransitionRuns

/-!
# What a skipped event leaves behind

The body of the fold validates the legs of an event before it writes, but the reservation and
the legs are then written one after the other, and each of these steps can raise. An event
whose only raising step comes before the first write is skipped without a trace; every
exception it can raise is one that the fold catches.
-/

namespace LlamaTrade

open Arithmetic

/-! ## The except clause -/

/-- The exceptions that the `except` clauses of `fold_into` and `fold_lots_into` name. -/
def PyError.isCaught : PyError → Bool
  | .keyError _ | .typeError _ | .valueError _ _ | .arithmeticError _ => true
  | .service _ _ => false

/-- `fold_into` with its `except` clause: any other exception ends the fold. -/
def foldLoop (s : FoldState Decimal) : List LedgerEvent → Except PyError (FoldState Decimal)
  | [] => .ok s
  | ev :: events =>
    match applyEvent s ev with
    | (s', none) => foldLoop s' events
    | (s', some e) =>
      if e.isCaught then
        foldLoop { s' with acc := { s'.acc with poisonEvents := s'.acc.poisonEvents + 1 } } events
      else .error e

/-- An attempt that raises only what the fold catches. -/
def CaughtAttempt {σ : Type} (x : Attempt σ) : Prop := ∀ e, x.2 = some e → e.isCaught = true

section Caught

variable {σ α : Type}

theorem caught_done (s : σ) : CaughtAttempt (s, none) := by
  intro e he
  cases he

theorem caught_guarded {s : σ} {x : Except PyError α} {f : α → Attempt σ} (hx : Ordinary x)
    (hf : ∀ a, CaughtAttempt (f a)) : CaughtAttempt (Attempt.guarded s x f) := by
  cases x with
  | ok a => exact hf a
  | error err =>
    intro e he
    cases he
    cases err with
    | service cls message => exact absurd rfl (hx cls message)
    | _ => rfl

theorem caught_andThen {x : Attempt σ} {f : σ → Attempt σ} (hx : CaughtAttempt x)
    (hf : ∀ s, CaughtAttempt (f s)) : CaughtAttempt (x.andThen f) := by
  obtain ⟨s, _ | err⟩ := x
  · exact hf s
  · exact hx

end Caught

theorem caught_applyPosting (acc : AccountProjection Decimal) (p : Posting Decimal) :
    CaughtAttempt (applyPosting acc p) := by
  unfold applyPosting
  split
  · exact caught_done _
  · dsimp only
    split
    · exact caught_guarded (ordinary_add _ _) fun _ => caught_done _
    · exact caught_guarded ((ordinary_neg _).bind fun _ => ordinary_add _ _) fun _ => caught_done _
    · refine caught_guarded (ordinary_add _ _) fun _ => ?_
      split
      · exact caught_done _
      · exact caught_guarded (ordinary_add _ _) fun _ => caught_done _
    · exact caught_done _

theorem caught_applyPostings (acc : AccountProjection Decimal) (ps : List (Posting Decimal)) :
    CaughtAttempt (applyPostings acc ps) := by
  induction ps generalizing acc with
  | nil => exact caught_done _
  | cons p ps ih => exact caught_andThen (caught_applyPosting acc p) ih

theorem caught_applyReservation (s : FoldState Decimal) (t : LedgerEventType) (data : Payload) :
    CaughtAttempt (applyReservation s t data) := by
  unfold applyReservation
  split
  · exact caught_done _
  · split_ifs
    · unfold reserve
      split_ifs
      · exact caught_done _
      · split
        · exact caught_done _
        · refine caught_guarded (ordinary_parse _) fun _ => ?_
          exact caught_guarded (ordinary_add _ _) fun _ => caught_done _
    · simp only [release]
      split
      · exact caught_done _
      · exact caught_guarded (ordinary_sub _ _) fun _ => caught_done _
    · exact caught_done _

theorem ordinary_validatedPostings (t : LedgerEventType) (data : Payload) :
    Ordinary (validatedPostings (D := Decimal) t data) := by
  refine (ordinary_buildPostings data t).bind fun ps => ?_
  refine Ordinary.ite (ordinary_pure _) ?_
  exact (ordinary_assertBalanced ps).bind fun _ => ordinary_pure _

theorem ordinary_coerce (type : String) : Ordinary (LedgerEventType.coerce type) := by
  unfold LedgerEventType.coerce
  split
  · exact ordinary_ok _
  · exact ordinary_valueError _ _

/-- The body of the fold raises only what its `except` clause names. -/
theorem caught_applyEvent (s : FoldState Decimal) (ev : LedgerEvent) :
    CaughtAttempt (applyEvent s ev) := by
  refine caught_guarded (ordinary_coerce _) fun t => ?_
  refine caught_guarded (ordinary_validatedPostings _ _) fun ps => ?_
  refine caught_andThen (caught_applyReservation s t ev.data) fun s₁ e he => ?_
  exact caught_applyPostings s₁.acc ps e he

/-- No stream makes the fold abort. -/
theorem foldLoop_eq (s : FoldState Decimal) (events : List LedgerEvent) :
    foldLoop s events = .ok (foldInto s events) := by
  induction events generalizing s with
  | nil => rfl
  | cons ev events ih =>
    have hcaught := caught_applyEvent s ev
    rw [foldLoop, foldInto_cons, foldEvent]
    rcases hstep : applyEvent s ev with ⟨s', _ | e⟩
    · exact ih s'
    · rw [hstep] at hcaught
      simp only [hcaught e rfl, if_true]
      exact ih _

/-! ## Raising before writing -/

/-- The first addition of a leg raises, and the position it moves is there already. -/
def RaisesAtOnce (acc : AccountProjection Decimal) (p : Posting Decimal) : Prop :=
  match p.sleeveId, p.bucket, p.symbol with
  | some id, .cash, _ => ∃ e, add (acc.sleeve id).cash p.amount = .error e
  | some id, .pnl, _ => ∃ e, (neg p.amount >>= add (acc.sleeve id).realizedPnl) = .error e
  | some id, .position, some symbol => ∃ pos e, (acc.sleeve id).positions[symbol]? = some pos ∧
      add pos.costBasis p.amount = .error e
  | _, _, _ => False

/-- The first leg on a sleeve raises at once. -/
def RaisesAtFirst (acc : AccountProjection Decimal) : List (Posting Decimal) → Prop
  | [] => False
  | p :: ps => if p.sleeveId = none then RaisesAtFirst acc ps else RaisesAtOnce acc p

/-- An event that is read and balanced raises, if at all, before anything is written: the
release of a reservation does not raise, and the legs do not, unless the reservation step
wrote nothing and the first leg on a sleeve raises at once. -/
def RaisesBeforeWriting (s : FoldState Decimal) (ev : LedgerEvent) : Prop :=
  ∀ t ps, LedgerEventType.coerce ev.eventType = .ok t → validatedPostings t ev.data = .ok ps →
    ((applyReservation s t ev.data).2 ≠ none → releasesReservation t = false) ∧
    ((applyPostings (applyReservation s t ev.data).1.acc ps).2 ≠ none →
      (applyReservation s t ev.data).1 = s ∧ RaisesAtFirst s.acc ps)

/-- The sleeves and the reservations are what they were. -/
structure Unchanged (s s' : FoldState Decimal) : Prop where
  sleeves : ∀ id, s'.acc.sleeve id = s.acc.sleeve id
  reservations : s'.res = s.res

theorem unchanged_refl (s : FoldState Decimal) : Unchanged s s := ⟨fun _ => rfl, rfl⟩

theorem sleeve_setSleeve_same (acc : AccountProjection Decimal) (id other : String) :
    (acc.setSleeve id (acc.sleeve id)).sleeve other = acc.sleeve other := by
  rw [sleeve_setSleeve]
  split_ifs with h
  · rw [h]
  · rfl

theorem setPosition_same {s : SleeveProjection Decimal} {symbol : String}
    {pos : PositionState Decimal} (h : s.positions[symbol]? = some pos) :
    s.setPosition symbol pos = s := by
  have hpositions : s.positions.insert symbol pos = s.positions := by
    refine Std.ExtTreeMap.ext_getElem? fun key => ?_
    rw [Std.ExtTreeMap.getElem?_insert]
    split_ifs with heq
    · rw [← Std.LawfulEqCmp.eq_of_compare heq, h]
    · rfl
  rw [SleeveProjection.setPosition, hpositions]

theorem applyPosting_raisesAtOnce {acc : AccountProjection Decimal} {p : Posting Decimal}
    (h : RaisesAtOnce acc p) : (applyPosting acc p).2 ≠ none ∧
      ∀ id, (applyPosting acc p).1.sleeve id = acc.sleeve id := by
  obtain ⟨sleeveId, bucket, amount, symbol, qty⟩ := p
  cases sleeveId with
  | none => cases h
  | some id =>
    cases bucket with
    | cash =>
      obtain ⟨e, he⟩ := h
      simp only [applyPosting, he, Attempt.guarded_error]
      exact ⟨by simp, sleeve_setSleeve_same acc id⟩
    | pnl =>
      obtain ⟨e, he⟩ := h
      simp only [applyPosting, he, Attempt.guarded_error]
      exact ⟨by simp, sleeve_setSleeve_same acc id⟩
    | external => cases h
    | position =>
      cases symbol with
      | none => cases h
      | some symbol =>
        obtain ⟨pos, e, hpos, he⟩ := h
        have hposition : (acc.sleeve id).position symbol = pos := by
          rw [SleeveProjection.position, Std.ExtTreeMap.getD_eq_getD_getElem?, hpos,
            Option.getD_some]
        simp only [applyPosting, hposition, he, Attempt.guarded_error]
        refine ⟨by simp, fun other => ?_⟩
        rw [setPosition_same hpos, sleeve_setSleeve, sleeve_setSleeve_same]
        split_ifs with heq
        · rw [heq]
        · rfl

theorem applyPostings_raisesAtFirst {acc : AccountProjection Decimal} {ps : List (Posting Decimal)}
    (h : RaisesAtFirst acc ps) : ∀ id, (applyPostings acc ps).1.sleeve id = acc.sleeve id := by
  induction ps with
  | nil => cases h
  | cons p ps ih =>
    rw [RaisesAtFirst] at h
    split_ifs at h with hnone
    · have hskip : applyPosting acc p = (acc, none) := by
        rw [applyPosting, hnone]
      rw [applyPostings, hskip, Attempt.andThen_none]
      exact ih h
    · obtain ⟨hraises, hsleeves⟩ := applyPosting_raisesAtOnce h
      rw [applyPostings]
      rcases hstep : applyPosting acc p with ⟨next, _ | e⟩
      · rw [hstep] at hraises
        exact absurd rfl hraises
      · rw [hstep] at hsleeves
        exact hsleeves

/-- A submission that raises leaves no trace. -/
theorem applyReservation_raises {s : FoldState Decimal} {t : LedgerEventType} {data : Payload}
    (ht : releasesReservation t = false) (h : (applyReservation s t data).2 ≠ none) :
    Unchanged s (applyReservation s t data).1 := by
  unfold applyReservation at h ⊢
  split at h
  · exact absurd rfl h
  · rename_i coid hcoid
    split_ifs at h with hsubmitted
    · rw [if_pos hsubmitted]
      unfold reserve at h ⊢
      split_ifs at h ⊢
      · exact absurd rfl h
      · split at h
        · exact absurd rfl h
        · rename_i sleeve hsleeve
          cases hparse : parse (D := Decimal) (data.get "reserved").pyStr with
          | error e =>
            simp only [Attempt.guarded_error]
            exact unchanged_refl s
          | ok amount =>
            rw [hparse, Attempt.guarded_ok] at h
            rw [Attempt.guarded_ok]
            cases hadd : add (s.acc.sleeve sleeve.pyStr).reserved amount with
            | error e =>
              simp only [hadd, Attempt.guarded_error]
              exact ⟨sleeve_setSleeve_same s.acc _, rfl⟩
            | ok reserved =>
              simp [hadd] at h
    · rename_i hreleases
      rw [ht] at hreleases
      cases hreleases
    · exact absurd rfl h

/-- An event that raises before it writes is skipped without a trace. -/
theorem foldEvent_skipped {s : FoldState Decimal} {ev : LedgerEvent} (h : RaisesBeforeWriting s ev)
    (hskipped : (foldEvent s ev).acc.poisonEvents ≠ s.acc.poisonEvents) :
    Unchanged s (foldEvent s ev) := by
  have hraises : (applyEvent s ev).2 ≠ none := by
    intro hnone
    rw [foldEvent_poison, if_pos hnone, add_zero] at hskipped
    exact hskipped rfl
  have hres : (foldEvent s ev).res = (applyEvent s ev).1.res := by
    unfold foldEvent
    obtain ⟨s₁, _ | e⟩ := applyEvent s ev <;> rfl
  suffices hbody : Unchanged s (applyEvent s ev).1 from
    ⟨fun id => (foldEvent_acc_sleeve s ev id).trans (hbody.sleeves id), hres.trans hbody.reservations⟩
  unfold applyEvent at hraises ⊢
  cases ht : LedgerEventType.coerce ev.eventType with
  | error e => exact unchanged_refl s
  | ok t =>
    rw [ht, Attempt.guarded_ok] at hraises
    rw [Attempt.guarded_ok]
    cases hp : validatedPostings (D := Decimal) t ev.data with
    | error e => exact unchanged_refl s
    | ok ps =>
      rw [hp, Attempt.guarded_ok] at hraises
      rw [Attempt.guarded_ok]
      obtain ⟨hrelease, hlegs⟩ := h t ps ht hp
      rcases hstep : applyReservation s t ev.data with ⟨s₁, _ | e⟩
      · rw [hstep, Attempt.andThen_none] at hraises
        rw [hstep] at hlegs
        obtain ⟨rfl, hfirst⟩ := hlegs hraises
        exact ⟨applyPostings_raisesAtFirst hfirst, rfl⟩
      · rw [hstep] at hrelease
        have hunchanged := applyReservation_raises (hrelease (by simp)) (by
          rw [hstep]
          simp)
        rw [hstep] at hunchanged
        exact hunchanged

theorem raisesBeforeWriting_of_applied {s : FoldState Decimal} {ev : LedgerEvent}
    (h : (applyEvent s ev).2 = none) : RaisesBeforeWriting s ev := by
  intro t ps ht hp
  rw [applyEvent, ht, Attempt.guarded_ok, hp, Attempt.guarded_ok] at h
  rcases hstep : applyReservation s t ev.data with ⟨s₁, _ | e⟩
  · rw [hstep, Attempt.andThen_none] at h
    exact ⟨fun hraises => absurd rfl hraises, fun hraises => absurd h hraises⟩
  · rw [hstep] at h
    cases h

/-! ## Streams -/

/-- One event of the fold, as a step. -/
def foldStep (s : FoldState Decimal) (ev : LedgerEvent) : Option (FoldState Decimal) :=
  some (foldEvent s ev)

theorem run_foldStep (s : FoldState Decimal) (events : List LedgerEvent) :
    Transition.run foldStep s events = some (foldInto s events) := by
  induction events generalizing s with
  | nil => rfl
  | cons ev events ih => exact ih (foldEvent s ev)

/-- The fold goes through to the end of every stream, and where all events raise before they
write, an event that is counted as poison changes neither a sleeve nor a reservation. -/
theorem skipped_events_change_nothing {s : FoldState Decimal} {events : List LedgerEvent}
    (hmeets : Transition.Meets foldStep RaisesBeforeWriting s events) :
    foldLoop s events = .ok (foldInto s events) ∧
    ∀ done ev rest, events = done ++ ev :: rest →
      (foldInto s (done ++ [ev])).acc.poisonEvents ≠ (foldInto s done).acc.poisonEvents →
        Unchanged (foldInto s done) (foldInto s (done ++ [ev])) := by
  refine ⟨foldLoop_eq s events, fun done ev rest hevents hskipped => ?_⟩
  rw [hevents] at hmeets
  have hev := (Transition.meets_of_append hmeets (run_foldStep s done)).1
  rw [foldInto_append, foldInto_cons, foldInto_nil] at hskipped ⊢
  exact foldEvent_skipped hev hskipped

namespace Sample

/-- A rename in a sleeve of infinitely many shares that cost 10. -/
def infiniteRename (old new : String) : LedgerEvent where
  sequence := 1
  eventType := LedgerEventType.symbolChanged.value
  data := [("sleeve_id", .str "a"), ("old_symbol", .str old), ("new_symbol", .str new),
    ("qty", .str "Infinity"), ("cost_basis", .str "10")]

def depositOf (amount : String) : LedgerEvent where
  sequence := 1
  eventType := LedgerEventType.fundsDeposited.value
  data := [("sleeve_id", .str "a"), ("amount", .str amount)]

end Sample

/-- A deposit, and one whose amount is no number. -/
theorem skipped_events_change_nothing_unreadable :
    (foldInto (D := Decimal) .empty
      [Sample.depositOf "100", Sample.depositOf "x"]).acc.poisonEvents = 1 ∧
    Unchanged (foldInto .empty [Sample.depositOf "100"])
      (foldInto .empty [Sample.depositOf "100", Sample.depositOf "x"]) := by
  have hcounts : (foldInto (D := Decimal) .empty
      [Sample.depositOf "100"]).acc.poisonEvents = 0 ∧ (foldInto (D := Decimal) .empty
        [Sample.depositOf "100", Sample.depositOf "x"]).acc.poisonEvents = 1 := by decide
  have happlied : (applyEvent (D := Decimal) .empty (Sample.depositOf "100")).2 = none := by
    decide
  have hrefused : (validatedPostings (D := Decimal) .fundsDeposited
      (Sample.depositOf "x").data).isOk = false := by decide
  have hmeets : Transition.Meets foldStep RaisesBeforeWriting .empty
      [Sample.depositOf "100", Sample.depositOf "x"] := by
    refine ⟨raisesBeforeWriting_of_applied happlied, fun s' _ => ⟨fun t ps ht hp => ?_,
      fun _ _ => trivial⟩⟩
    cases ht
    rw [hp] at hrefused
    cases hrefused
  refine ⟨hcounts.2, (skipped_events_change_nothing hmeets).2 [Sample.depositOf "100"]
    (Sample.depositOf "x") [] rfl ?_⟩
  have hne : (0 : ℤ) ≠ 1 := by decide
  rw [hcounts.1]
  exact fun heq => hne (heq.symm.trans hcounts.2)

/-- The second rename is counted as poison, and has taken the cost out of the position. -/
theorem skipped_rename_takes_cost :
    (foldInto (D := Decimal) .empty [Sample.infiniteRename "A" "B",
      Sample.infiniteRename "B" "A"]).acc.poisonEvents = 1 ∧
    ¬ Unchanged (foldInto .empty [Sample.infiniteRename "A" "B"])
      (foldInto .empty [Sample.infiniteRename "A" "B", Sample.infiniteRename "B" "A"]) := by
  refine ⟨by decide, fun hunchanged => ?_⟩
  have hbefore : (((foldInto (D := Decimal) .empty [Sample.infiniteRename "A" "B"]).acc.sleeve
      "a").position "B").costBasis.toRat = 10 := by decide +kernel
  have hafter : (((foldInto (D := Decimal) .empty [Sample.infiniteRename "A" "B",
      Sample.infiniteRename "B" "A"]).acc.sleeve "a").position "B").costBasis.toRat = 0 := by
    decide +kernel
  rw [hunchanged.sleeves, hbefore] at hafter
  norm_num at hafter

end LlamaTrade
