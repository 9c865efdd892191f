import LlamaTrade.CheckpointCodec
import Mathlib.Data.Set.Finite.Basic
import Mathlib.Data.Fintype.EquivFin

/-!
# Restarting the fold from a checkpoint

A resumed fold starts from what the codec keeps of the state at the checkpoint. The
codec sorts the tracked terminal ids, and the next ones to be forgotten are the
first of the list, so a resumed fold may forget other ids than the uninterrupted
one. Everything else is carried over: the fold of an event commutes with a change of
the terminal list, as long as the list answers the same on the id being submitted.
-/

namespace LlamaTrade

section Terminal

variable {D : Type}

def FoldState.withTerminal (s : FoldState D) (terminal : List String) : FoldState D :=
  ⟨s.acc, ⟨s.res.pending, terminal⟩⟩

@[simp] theorem withTerminal_self (s : FoldState D) : s.withTerminal s.res.terminal = s := rfl

variable [Arithmetic D]

open Arithmetic

/-- The client order id of a terminal order event. -/
def releasedId (t : LedgerEventType) (data : Payload) : Option String :=
  if releasesReservation t then (present data "client_order_id").map (·.pyStr) else none

variable (D) in
/-- The id that an event records as terminal. -/
def terminalId (ev : LedgerEvent) : Option String :=
  match LedgerEventType.coerce ev.eventType with
  | .error _ => none
  | .ok t =>
    match validatedPostings (D := D) t ev.data with
    | .error _ => none
    | .ok _ => releasedId t ev.data

/-- The id that an event submits. -/
def submittedId (ev : LedgerEvent) : Option String :=
  match LedgerEventType.coerce ev.eventType with
  | .ok .orderSubmitted => (present ev.data "client_order_id").map (·.pyStr)
  | _ => none

variable (D) in
def nextTerminal (terminal : List String) (ev : LedgerEvent) : List String :=
  (terminalId D ev).elim terminal (trackTerminal terminal)

theorem reserve_withTerminal (s : FoldState D) (terminal : List String) (coid : String)
    (data : Payload) (h : coid ∈ terminal ↔ coid ∈ s.res.terminal) :
    reserve (s.withTerminal terminal) coid data =
      ((reserve s coid data).1.withTerminal terminal, (reserve s coid data).2) := by
  by_cases hmem : coid ∈ s.res.terminal
  · have hmem' : coid ∈ terminal := h.mpr hmem
    simp [reserve, FoldState.withTerminal, hmem, hmem']
  · have hmem' : coid ∉ terminal := fun hm => hmem (h.mp hm)
    simp only [reserve, FoldState.withTerminal, hmem, hmem', if_false]
    cases present data "sleeve_id" with
    | none => rfl
    | some sleeve =>
      cases parse (D := D) (data.get "reserved").pyStr with
      | error e => rfl
      | ok amount =>
        simp only [Attempt.guarded_ok]
        cases add (s.acc.sleeve sleeve.pyStr).reserved amount <;> rfl

theorem release_withTerminal (s : FoldState D) (terminal : List String) (coid : String) :
    release (s.withTerminal terminal) coid =
      ((release s coid).1.withTerminal (trackTerminal terminal coid), (release s coid).2) := by
  simp only [release, FoldState.withTerminal]
  cases s.res.pending[coid]? with
  | none => rfl
  | some entry =>
    obtain ⟨id, amount⟩ := entry
    cases h : sub (s.acc.sleeve id).reserved amount <;> simp [h]

theorem applyReservation_withTerminal (s : FoldState D) (terminal : List String)
    (t : LedgerEventType) (data : Payload)
    (h : t = .orderSubmitted → ∀ coid, present data "client_order_id" = some coid →
      (coid.pyStr ∈ terminal ↔ coid.pyStr ∈ s.res.terminal)) :
    applyReservation (s.withTerminal terminal) t data =
      ((applyReservation s t data).1.withTerminal
        ((releasedId t data).elim terminal (trackTerminal terminal)),
        (applyReservation s t data).2) := by
  unfold applyReservation releasedId
  cases hcoid : present data "client_order_id" with
  | none => simp [FoldState.withTerminal]
  | some coid =>
    by_cases hsub : t = .orderSubmitted ∧ data.has "reserved"
    · have hrel : releasesReservation t = false := by rw [hsub.1]; rfl
      simp only [hsub, and_self, if_true]
      rw [← hsub.1, hrel]
      exact reserve_withTerminal s terminal coid.pyStr data (h hsub.1 coid hcoid)
    · simp only [hsub, if_false]
      by_cases hrel : releasesReservation t
      · simpa [hrel] using release_withTerminal s terminal coid.pyStr
      · simp [hrel, FoldState.withTerminal]

theorem applyEvent_withTerminal (s : FoldState D) (terminal : List String) (ev : LedgerEvent)
    (h : ∀ coid, submittedId ev = some coid → (coid ∈ terminal ↔ coid ∈ s.res.terminal)) :
    applyEvent (s.withTerminal terminal) ev =
      ((applyEvent s ev).1.withTerminal (nextTerminal D terminal ev), (applyEvent s ev).2) := by
  unfold applyEvent nextTerminal terminalId
  cases ht : LedgerEventType.coerce ev.eventType with
  | error e => rfl
  | ok t =>
    cases hp : validatedPostings (D := D) t ev.data with
    | error e => simp [hp, FoldState.withTerminal]
    | ok postings =>
      have hres := applyReservation_withTerminal s terminal t ev.data (by
        rintro rfl coid hcoid
        exact h coid.pyStr (by simp [submittedId, ht, hcoid]))
      simp only [Attempt.guarded_ok, hp, hres]
      obtain ⟨s₁, err⟩ := applyReservation s t ev.data
      cases err <;> rfl

/-- Folding an event commutes with a change of the terminal list. -/
theorem foldEvent_withTerminal (s : FoldState D) (terminal : List String) (ev : LedgerEvent)
    (h : ∀ coid, submittedId ev = some coid → (coid ∈ terminal ↔ coid ∈ s.res.terminal)) :
    foldEvent (s.withTerminal terminal) ev =
      (foldEvent s ev).withTerminal (nextTerminal D terminal ev) := by
  unfold foldEvent
  rw [applyEvent_withTerminal s terminal ev h]
  obtain ⟨s₁, err⟩ := applyEvent s ev
  cases err <;> rfl

/-- The tracked ids evolve by the recorded ids alone. -/
theorem foldEvent_terminal (s : FoldState D) (ev : LedgerEvent) :
    (foldEvent s ev).res.terminal = nextTerminal D s.res.terminal ev := by
  have h := foldEvent_withTerminal s s.res.terminal ev fun _ _ => Iff.rfl
  rw [withTerminal_self] at h
  rw [h]
  rfl

variable (D) in
def terminalIds (events : List LedgerEvent) : List String := events.filterMap (terminalId D)

theorem foldInto_terminal (s : FoldState D) (events : List LedgerEvent) :
    (foldInto s events).res.terminal = (terminalIds D events).foldl trackTerminal s.res.terminal := by
  induction events generalizing s with
  | nil => rfl
  | cons ev events ih =>
    rw [foldInto_cons, ih, foldEvent_terminal, terminalIds, nextTerminal]
    cases h : terminalId D ev <;> simp [terminalIds, h]

/-- Without submissions the terminal list plays no role in the fold. -/
theorem foldInto_withTerminal (s : FoldState D) (terminal : List String)
    (events : List LedgerEvent) (h : ∀ ev ∈ events, submittedId ev = none) :
    foldInto (s.withTerminal terminal) events =
      (foldInto s events).withTerminal ((terminalIds D events).foldl trackTerminal terminal) := by
  induction events generalizing s terminal with
  | nil => rfl
  | cons ev events ih =>
    obtain ⟨hev, hevents⟩ := List.forall_mem_cons.mp h
    rw [foldInto_cons, foldInto_cons, foldEvent_withTerminal s terminal ev (by simp [hev]),
      ih _ _ hevents, nextTerminal, terminalIds]
    cases hid : terminalId D ev <;> simp [terminalIds, hid]

end Terminal

/-! ## The bounded list of terminal ids -/

theorem trackTerminal_of_mem {terminal : List String} {coid : String} (hmem : coid ∈ terminal)
    (hlen : terminal.length ≤ terminalTracked) : trackTerminal terminal coid = terminal := by
  simp [trackTerminal, hmem, Nat.not_lt.mpr hlen]

theorem trackTerminal_of_notMem {terminal : List String} {coid : String} (hmem : coid ∉ terminal)
    (hlen : terminal.length ≤ terminalTracked) :
    trackTerminal terminal coid =
      (terminal ++ [coid]).drop (terminal.length + 1 - terminalTracked) := by
  simp only [trackTerminal, hmem, if_false, List.length_append, List.length_singleton]
  split_ifs with h
  · have hone : terminal.length + 1 - terminalTracked = 1 := by omega
    rw [hone, List.drop_one]
  · have hzero : terminal.length + 1 - terminalTracked = 0 := by omega
    rw [hzero, List.drop_zero]

/-- The tracked ids are distinct and bounded in number. -/
structure Tracked (terminal : List String) : Prop where
  nodup : terminal.Nodup
  length_le : terminal.length ≤ terminalTracked

theorem mem_foldl_trackTerminal {terminal ids : List String} {c : String}
    (h : c ∈ ids.foldl trackTerminal terminal) : c ∈ terminal ∨ c ∈ ids := by
  induction ids generalizing terminal with
  | nil => exact .inl h
  | cons coid ids ih =>
    rcases ih h with h | h
    · have hmem : c ∈ terminal ++ [coid] := by
        simp only [trackTerminal] at h
        split_ifs at h
        · exact List.mem_append_left _ (List.mem_of_mem_tail h)
        · exact List.mem_append_left _ h
        · exact List.mem_of_mem_tail h
        · exact h
      rcases List.mem_append.mp hmem with h | h
      · exact .inl h
      · exact .inr (by simp [List.mem_singleton.mp h])
    · exact .inr (List.mem_cons_of_mem _ h)

theorem tracked_nil : Tracked [] := ⟨List.nodup_nil, Nat.zero_le _⟩

theorem Tracked.track {terminal : List String} (h : Tracked terminal) (coid : String) :
    Tracked (trackTerminal terminal coid) := by
  by_cases hmem : coid ∈ terminal
  · rwa [trackTerminal_of_mem hmem h.length_le]
  · have hnodup : (terminal ++ [coid]).Nodup :=
      List.nodup_append_comm.mp (List.nodup_cons.mpr ⟨hmem, h.nodup⟩)
    rw [trackTerminal_of_notMem hmem h.length_le]
    refine ⟨hnodup.sublist (List.drop_sublist _ _), ?_⟩
    rw [List.length_drop, List.length_append, List.length_singleton]
    omega

theorem Tracked.foldl {terminal : List String} (h : Tracked terminal) (ids : List String) :
    Tracked (ids.foldl trackTerminal terminal) := by
  induction ids generalizing terminal with
  | nil => exact h
  | cons coid ids ih => exact ih (h.track coid)

/-- New ids push the oldest ones out, as many as exceed the bound. -/
theorem foldl_trackTerminal_fresh {terminal ids : List String} (h : (terminal ++ ids).Nodup)
    (hlen : terminal.length ≤ terminalTracked) :
    ids.foldl trackTerminal terminal =
      (terminal ++ ids).drop (terminal.length + ids.length - terminalTracked) := by
  induction ids generalizing terminal with
  | nil =>
    have hzero : terminal.length - terminalTracked = 0 := by omega
    simp [hzero]
  | cons coid ids ih =>
    have hmem : coid ∉ terminal := by
      intro hm
      exact (List.disjoint_of_nodup_append h) hm (by simp)
    have hdrop : ∀ k ≤ terminal.length + 1,
        (terminal ++ [coid]).drop k ++ ids = (terminal ++ coid :: ids).drop k := by
      intro k hk
      rw [← List.drop_append_of_le_length (by simpa using hk)]
      simp
    have hnext := hdrop (terminal.length + 1 - terminalTracked) (Nat.sub_le _ _)
    rw [List.foldl_cons, trackTerminal_of_notMem hmem hlen, ih, hnext, List.drop_drop]
    · refine congrArg (List.drop · _) ?_
      simp only [List.length_drop, List.length_append, List.length_cons, List.length_nil]
      omega
    · rw [hnext]
      exact h.sublist (List.drop_sublist _ _)
    · simp only [List.length_drop, List.length_append, List.length_singleton]
      omega

/-- An id that is not tracked yet leaves room, when all ids together fit into the bound. -/
theorem Tracked.length_lt {T : List String} (hT : Tracked T) {U : Finset String}
    (hU : U.card ≤ terminalTracked) (hsub : ∀ c ∈ T, c ∈ U) {coid : String} (hcoid : coid ∈ U)
    (hmem : coid ∉ T) : T.length < terminalTracked := by
  have hcard : (insert coid T.toFinset).card ≤ U.card := by
    apply Finset.card_le_card
    intro c hc
    rcases Finset.mem_insert.mp hc with rfl | hc
    · exact hcoid
    · exact hsub c (List.mem_toFinset.mp hc)
  rw [Finset.card_insert_of_notMem (by simpa using hmem),
    List.toFinset_card_of_nodup hT.nodup] at hcard
  omega

theorem trackTerminal_of_lt {T : List String} {coid : String} (hmem : coid ∉ T)
    (hlen : T.length < terminalTracked) : trackTerminal T coid = T ++ [coid] := by
  have hzero : T.length + 1 - terminalTracked = 0 := by omega
  rw [trackTerminal_of_notMem hmem hlen.le, hzero, List.drop_zero]

/-- With room for all ids none is forgotten. -/
theorem mem_trackTerminal {T : List String} (hT : Tracked T) {U : Finset String}
    (hU : U.card ≤ terminalTracked) (hsub : ∀ c ∈ T, c ∈ U) {coid : String} (hcoid : coid ∈ U)
    (c : String) : c ∈ trackTerminal T coid ↔ c ∈ T ∨ c = coid := by
  by_cases hmem : coid ∈ T
  · rw [trackTerminal_of_mem hmem hT.length_le]
    refine ⟨.inl, ?_⟩
    rintro (h | rfl)
    · exact h
    · exact hmem
  · rw [trackTerminal_of_lt hmem (hT.length_lt hU hsub hcoid hmem), List.mem_append,
      List.mem_singleton]

theorem mem_foldl_trackTerminal_of_room {T ids : List String} (hT : Tracked T) {U : Finset String}
    (hU : U.card ≤ terminalTracked) (hsub : ∀ c ∈ T, c ∈ U) (hids : ∀ c ∈ ids, c ∈ U) (c : String) :
    c ∈ ids.foldl trackTerminal T ↔ c ∈ T ∨ c ∈ ids := by
  induction ids generalizing T with
  | nil => simp
  | cons coid ids ih =>
    obtain ⟨hcoid, hids⟩ := List.forall_mem_cons.mp hids
    have hmem := mem_trackTerminal hT hU hsub hcoid
    rw [List.foldl_cons, ih (hT.track coid) ?_ hids, hmem, List.mem_cons, or_assoc]
    intro x hx
    rcases (hmem x).mp hx with hx | rfl
    · exact hsub x hx
    · exact hcoid

/-- With room for all ids, tracking an id keeps two orders of the same ids the same. -/
theorem trackTerminal_perm {T T' : List String} (hperm : T'.Perm T) (hT : Tracked T)
    {U : Finset String} (hU : U.card ≤ terminalTracked) (hsub : ∀ c ∈ T, c ∈ U) {coid : String}
    (hcoid : coid ∈ U) :
    (trackTerminal T' coid).Perm (trackTerminal T coid) ∧ ∀ c ∈ trackTerminal T coid, c ∈ U := by
  constructor
  · by_cases hmem : coid ∈ T
    · rw [trackTerminal_of_mem hmem hT.length_le,
        trackTerminal_of_mem (hperm.mem_iff.mpr hmem) (hperm.length_eq ▸ hT.length_le)]
      exact hperm
    · have hlen := hT.length_lt hU hsub hcoid hmem
      rw [trackTerminal_of_lt hmem hlen,
        trackTerminal_of_lt (fun hm => hmem (hperm.mem_iff.mp hm)) (hperm.length_eq ▸ hlen)]
      exact hperm.append_right _
  · intro c hc
    rcases (mem_trackTerminal hT hU hsub hcoid c).mp hc with hc | rfl
    · exact hsub c hc
    · exact hcoid

section Same

variable {D : Type}

/-- Two fold states that differ at most in the order of the tracked ids. -/
def FoldState.Same (s t : FoldState D) : Prop :=
  ∃ terminal, terminal.Perm t.res.terminal ∧ s = t.withTerminal terminal

theorem FoldState.Same.refl (s : FoldState D) : s.Same s := ⟨_, List.Perm.refl _, rfl⟩

theorem FoldState.Same.acc_eq {s t : FoldState D} (h : s.Same t) : s.acc = t.acc := by
  obtain ⟨terminal, -, rfl⟩ := h
  rfl

theorem FoldState.Same.trans {s t u : FoldState D} (h : s.Same t) (h' : t.Same u) : s.Same u := by
  obtain ⟨T, hT, rfl⟩ := h
  obtain ⟨T', hT', rfl⟩ := h'
  exact ⟨T, hT.trans hT', rfl⟩

theorem FoldState.Same.tracked {s t : FoldState D} (h : s.Same t)
    (ht : Tracked t.res.terminal) : Tracked s.res.terminal := by
  obtain ⟨terminal, hperm, rfl⟩ := h
  exact ⟨hperm.nodup_iff.mpr ht.nodup, hperm.length_eq ▸ ht.length_le⟩

end Same

/-! ## Resuming -/

section Restart

variable {D : Type} [Arithmetic D]

/-- The balance fold and the lot fold of a stream. -/
def foldBoth (s : FoldState D × LotBook D) (events : List LedgerEvent) :
    FoldState D × LotBook D :=
  (foldInto s.1 events, foldLotsInto s.2 events)

def foldAll (events : List LedgerEvent) : FoldState D × LotBook D := foldBoth (.empty, ∅) events

/-- Fold the first part of a stream, save the checkpoint, load it and fold the rest.
When the row cannot be read the whole stream is folded again. -/
def restart (done rest : List LedgerEvent) : FoldState D × LotBook D :=
  match loadState (savedState (foldAll done).1 (foldAll (D := D) done).2) with
  | some s => foldBoth s rest
  | none => foldAll (done ++ rest)

/-- The same projection, pending reservations and lot book. -/
def SameBalances (r r' : FoldState D × LotBook D) : Prop :=
  r.1.acc = r'.1.acc ∧ r.1.res.pending = r'.1.res.pending ∧ r.2 = r'.2

variable (D) in
/-- The terminal ids tracked after a stream, oldest first. -/
def trackedIds (events : List LedgerEvent) : List String :=
  (terminalIds D events).foldl trackTerminal []

theorem foldAll_terminal (events : List LedgerEvent) :
    (foldAll (D := D) events).1.res.terminal = trackedIds D events :=
  foldInto_terminal _ events

theorem tracked_trackedIds (events : List LedgerEvent) : Tracked (trackedIds D events) :=
  tracked_nil.foldl _

theorem foldAll_append (done rest : List LedgerEvent) :
    foldAll (D := D) (done ++ rest) = foldBoth (foldAll done) rest := by
  simp [foldAll, foldBoth, foldInto_append, foldLotsInto_append]

variable (D) in
/-- All amounts at the end of a stream are finite. -/
def FiniteAfter (events : List LedgerEvent) : Prop :=
  (foldAll (D := D) events).1.Finite ∧ (foldAll (D := D) events).2.Finite

theorem restart_of_finite {done : List LedgerEvent} (h : FiniteAfter D done)
    (rest : List LedgerEvent) :
    restart done rest =
      foldBoth ((foldAll (D := D) done).1.withTerminal (sortText (trackedIds D done)),
        (foldAll done).2) rest := by
  have hnodup : (foldAll (D := D) done).1.res.terminal.Nodup := by
    rw [foldAll_terminal]
    exact (tracked_trackedIds done).nodup
  have hload := (loadState_savedState hnodup (foldAll (D := D) done).2 _).mpr ⟨rfl, h⟩
  rw [restart, hload, foldAll_terminal]
  rfl

theorem restart_of_not_finite {done : List LedgerEvent} (h : ¬ FiniteAfter D done)
    (rest : List LedgerEvent) : restart (D := D) done rest = foldAll (done ++ rest) := by
  have hnodup : (foldAll (D := D) done).1.res.terminal.Nodup := by
    rw [foldAll_terminal]
    exact (tracked_trackedIds done).nodup
  have hload : loadState (D := D)
      (savedState (foldAll (D := D) done).1 (foldAll done).2) = none := by
    rw [Option.eq_none_iff_forall_ne_some]
    intro r hr
    exact h ((loadState_savedState hnodup _ r).mp hr).2
  rw [restart, hload]

/-- As long as all terminal ids together fit into the bound, their order is irrelevant. -/
theorem foldInto_withTerminal_perm (s : FoldState D) {terminal : List String}
    (hperm : terminal.Perm s.res.terminal) (htracked : Tracked s.res.terminal)
    {U : Finset String} (hU : U.card ≤ terminalTracked) (hsub : ∀ c ∈ s.res.terminal, c ∈ U)
    (events : List LedgerEvent) (hevents : ∀ c ∈ terminalIds D events, c ∈ U) :
    ∃ terminal', terminal'.Perm (foldInto s events).res.terminal ∧
      foldInto (s.withTerminal terminal) events = (foldInto s events).withTerminal terminal' := by
  induction events generalizing s terminal with
  | nil => exact ⟨terminal, hperm, rfl⟩
  | cons ev events ih =>
    have hstep := foldEvent_withTerminal s terminal ev fun c _ => hperm.mem_iff
    rw [foldInto_cons, foldInto_cons, hstep]
    cases hid : terminalId D ev with
    | none =>
      have hnext : ∀ T, nextTerminal D T ev = T := fun T => by simp [nextTerminal, hid]
      have hterm : (foldEvent s ev).res.terminal = s.res.terminal := by
        rw [foldEvent_terminal, hnext]
      rw [hnext]
      apply ih
      · rwa [hterm]
      · rwa [hterm]
      · rwa [hterm]
      · simpa [terminalIds, hid] using hevents
    | some coid =>
      have hnext : ∀ T, nextTerminal D T ev = trackTerminal T coid := fun T => by
        simp [nextTerminal, hid]
      have hterm : (foldEvent s ev).res.terminal = trackTerminal s.res.terminal coid := by
        rw [foldEvent_terminal, hnext]
      have hids : coid ∈ U ∧ ∀ c ∈ terminalIds D events, c ∈ U := by
        simpa [terminalIds, hid] using hevents
      obtain ⟨hperm', hsub'⟩ := trackTerminal_perm hperm htracked hU hsub hids.1
      rw [hnext]
      apply ih
      · rwa [hterm]
      · rw [hterm]
        exact htracked.track coid
      · rwa [hterm]
      · exact hids.2

theorem foldInto_tracked {s : FoldState D} (h : Tracked s.res.terminal)
    (events : List LedgerEvent) : Tracked (foldInto s events).res.terminal := by
  rw [foldInto_terminal]
  exact h.foldl _

theorem mem_foldInto_terminal {events : List LedgerEvent} {c : String}
    (h : c ∈ (foldInto (D := D) .empty events).res.terminal) : c ∈ terminalIds D events := by
  rw [foldInto_terminal] at h
  rcases mem_foldl_trackTerminal h with h | h
  · cases h
  · exact h

/-- With room for all terminal ids the tracked ones are those of the stream. -/
theorem mem_foldInto_terminal_iff {events : List LedgerEvent}
    (hroom : (terminalIds D events).toFinset.card ≤ terminalTracked) (c : String) :
    c ∈ (foldInto (D := D) .empty events).res.terminal ↔ c ∈ terminalIds D events := by
  have hiff := mem_foldl_trackTerminal_of_room tracked_nil hroom (by simp)
    (fun c hc => List.mem_toFinset.mpr hc) c
  rw [foldInto_terminal]
  exact hiff.trans (by simp)

/-- Resuming from a state that agrees up to the order of the tracked ids agrees up to
that order, as long as the terminal ids of the whole stream fit into the bound. -/
theorem FoldState.Same.foldInto {s : FoldState D} {done : List LedgerEvent}
    (h : s.Same (foldInto .empty done)) (rest : List LedgerEvent)
    (hroom : (terminalIds D (done ++ rest)).toFinset.card ≤ terminalTracked) :
    (LlamaTrade.foldInto s rest).Same (LlamaTrade.foldInto .empty (done ++ rest)) := by
  obtain ⟨terminal, hperm, rfl⟩ := h
  have hids : terminalIds D (done ++ rest) = terminalIds D done ++ terminalIds D rest :=
    List.filterMap_append
  obtain ⟨terminal', hperm', hfold⟩ := foldInto_withTerminal_perm _ hperm
    (foldInto_tracked tracked_nil done) hroom
    (fun c hc => by simp [hids, mem_foldInto_terminal hc]) rest
    (fun c hc => by simp [hids, hc])
  rw [hfold, foldInto_append]
  exact ⟨terminal', hperm', rfl⟩

/-- A checkpoint that loads agrees with the saved one up to the order of the tracked ids. -/
theorem loadState_savedState_same {s : FoldState D} (h : Tracked s.res.terminal)
    {book : LotBook D} {r : FoldState D × LotBook D}
    (hload : loadState (savedState s book) = some r) : r.1.Same s ∧ r.2 = book := by
  obtain ⟨rfl, -⟩ := (loadState_savedState h.nodup book r).mp hload
  exact ⟨⟨_, sortText_perm _, rfl⟩, rfl⟩

/-- A restart agrees whenever the stream has no more terminal ids than are tracked. -/
theorem restart_sameBalances_of_room {done rest : List LedgerEvent}
    (h : (terminalIds D (done ++ rest)).toFinset.card ≤ terminalTracked) :
    SameBalances (restart (D := D) done rest) (foldAll (done ++ rest)) := by
  by_cases hfin : FiniteAfter D done
  · have hsame : ((foldAll (D := D) done).1.withTerminal (sortText (trackedIds D done))).Same
        (foldInto .empty done) := by
      refine ⟨_, ?_, rfl⟩
      rw [foldInto_terminal]
      exact sortText_perm _
    obtain ⟨terminal, -, hfold⟩ := hsame.foldInto rest h
    rw [restart_of_finite hfin, foldAll_append]
    refine ⟨?_, ?_, rfl⟩
    · simp only [foldBoth, hfold, foldInto_append]
      rfl
    · simp only [foldBoth, hfold, foldInto_append]
      rfl
  · rw [restart_of_not_finite hfin]
    exact ⟨rfl, rfl, rfl⟩

end Restart

/-! ## Streams that tell two orders of the terminal ids apart -/

def cancelEvent (seq : ℕ) (coid : String) : LedgerEvent :=
  ⟨seq, "order_cancelled", [("client_order_id", .str coid)]⟩

def submitEvent (seq : ℕ) (coid sleeve reserved : String) : LedgerEvent :=
  ⟨seq, "order_submitted",
    [("client_order_id", .str coid), ("sleeve_id", .str sleeve), ("reserved", .str reserved)]⟩

def cancelEvents (seq : ℕ) : List String → List LedgerEvent
  | [] => []
  | coid :: coids => cancelEvent seq coid :: cancelEvents (seq + 1) coids

theorem submittedId_of_mem_cancelEvents {seq : ℕ} {coids : List String} {ev : LedgerEvent}
    (h : ev ∈ cancelEvents seq coids) : submittedId ev = none := by
  induction coids generalizing seq with
  | nil => simp [cancelEvents] at h
  | cons coid coids ih =>
    rcases List.mem_cons.mp h with rfl | h
    · rfl
    · exact ih h

@[simp] theorem terminalIds_cancelEvents (seq : ℕ) (coids : List String) :
    terminalIds Decimal (cancelEvents seq coids) = coids := by
  induction coids generalizing seq with
  | nil => rfl
  | cons coid coids ih =>
    have hid : terminalId Decimal (cancelEvent seq coid) = some coid := rfl
    have hrest : (cancelEvents (seq + 1) coids).filterMap (terminalId Decimal) = coids :=
      ih (seq + 1)
    simp [cancelEvents, terminalIds, hid, hrest]

theorem le_sequence_of_mem_cancelEvents {seq : ℕ} {coids : List String} {ev : LedgerEvent}
    (h : ev ∈ cancelEvents seq coids) : seq ≤ ev.sequence ∧ ev.sequence < seq + coids.length := by
  induction coids generalizing seq with
  | nil => simp [cancelEvents] at h
  | cons coid coids ih =>
    rcases List.mem_cons.mp h with rfl | h
    · simp [cancelEvent]
    · have hseq := ih h
      simp only [List.length_cons]
      omega

theorem sequenced_cancelEvents (seq : ℕ) (coids : List String) :
    Sequenced (cancelEvents seq coids) := by
  induction coids generalizing seq with
  | nil => exact List.Pairwise.nil
  | cons coid coids ih =>
    refine List.pairwise_cons.mpr ⟨fun ev hev => ?_, ih (seq + 1)⟩
    exact (le_sequence_of_mem_cancelEvents hev).1

private theorem applyEvent_submitEvent (s : FoldState Decimal) (seq : ℕ)
    (coid sleeve reserved : String) :
    applyEvent s (submitEvent seq coid sleeve reserved) =
      reserve s coid (submitEvent seq coid sleeve reserved).data := by
  have hstep : applyEvent s (submitEvent seq coid sleeve reserved) =
      (reserve s coid (submitEvent seq coid sleeve reserved).data).andThen fun s => (s, none) := rfl
  rw [hstep]
  rcases reserve s coid (submitEvent seq coid sleeve reserved).data with ⟨s₁, _ | e⟩ <;> rfl

/-- A submission after its terminal event is ignored while the id is tracked. -/
theorem foldEvent_submitEvent_of_mem {s : FoldState Decimal} {coid : String}
    (h : coid ∈ s.res.terminal) (seq : ℕ) (sleeve reserved : String) :
    foldEvent s (submitEvent seq coid sleeve reserved) = s := by
  rw [foldEvent, applyEvent_submitEvent, reserve, if_pos h]

/-- A submission of an id that is no longer tracked opens a reservation. -/
theorem foldEvent_submitEvent_of_notMem {s : FoldState Decimal} {coid : String}
    (h : coid ∉ s.res.terminal) (seq : ℕ) {sleeve : String}
    (hsleeve : s.acc.sleeves[sleeve]? = none) :
    (foldEvent s (submitEvent seq coid sleeve "100")).res.pending[coid]? =
        some (sleeve, .finite false 100 0) ∧
      (foldEvent s (submitEvent seq coid sleeve "100")).acc.sleeves[sleeve]?.isSome := by
  have hempty : s.acc.sleeve sleeve = .empty := by
    simp [AccountProjection.sleeve, Std.ExtTreeMap.getD_eq_getD_getElem?, hsleeve]
  have hpresent : present (submitEvent seq coid sleeve "100").data "sleeve_id" =
      some (.str sleeve) := rfl
  have hparse : Arithmetic.parse (D := Decimal)
      ((submitEvent seq coid sleeve "100").data.get "reserved").pyStr =
      .ok (.finite false 100 0) := by
    change Arithmetic.parse "100" = _
    rfl
  have hadd : Arithmetic.add (SleeveProjection.empty (D := Decimal)).reserved
      (.finite false 100 0) = .ok (.finite false 100 0) := by decide
  rw [foldEvent, applyEvent_submitEvent, reserve, if_neg h]
  simp only [hpresent, hparse, Attempt.guarded_ok, Json.pyStr_str, hempty, hadd]
  simp [AccountProjection.setSleeve]

theorem exists_first_difference {T S : List String} (hlen : S.length = T.length) (hne : S ≠ T) :
    ∃ p a b r r', T = p ++ a :: r ∧ S = p ++ b :: r' ∧ a ≠ b := by
  induction T generalizing S with
  | nil => exact absurd (List.length_eq_zero_iff.mp hlen) hne
  | cons a T ih =>
    cases S with
    | nil => simp at hlen
    | cons b S =>
      by_cases hab : a = b
      · subst hab
        obtain ⟨p, x, y, r, r', rfl, rfl, hxy⟩ := ih (by simpa using hlen) (by simpa using hne)
        exact ⟨a :: p, x, y, r, r', rfl, rfl, hxy⟩
      · exact ⟨[], a, b, T, S, rfl, rfl, hab⟩

theorem exists_fresh (used : List String) (n : ℕ) :
    ∃ coids : List String, coids.length = n ∧ coids.Nodup ∧ ∀ c ∈ coids, c ∉ used := by
  obtain ⟨t, hsub, hcard⟩ := (used.finite_toSet.infinite_compl).exists_subset_card_eq n
  refine ⟨t.toList, by simpa using hcard, t.nodup_toList, ?_⟩
  intro c hc
  exact hsub (by simpa using hc)

/-- New ids push out everything up to a given tracked id. -/
theorem foldl_trackTerminal_cut {p t coids : List String} {x : String}
    (hnodup : (p ++ x :: t ++ coids).Nodup)
    (hlen : (p ++ x :: t).length ≤ terminalTracked)
    (hcount : coids.length = terminalTracked - (p ++ x :: t).length + (p.length + 1)) :
    coids.foldl trackTerminal (p ++ x :: t) = t ++ coids := by
  have hcut : (p ++ x :: t).length + coids.length - terminalTracked = p.length + 1 := by omega
  have happ : p ++ x :: t ++ coids = (p ++ [x]) ++ (t ++ coids) := by simp
  rw [foldl_trackTerminal_fresh hnodup hlen, hcut, happ, List.drop_left' (by simp)]

section Distinguish

variable {s : FoldState Decimal} {p r t coids : List String} {a b : String}

/-- Two orders of the tracked ids that first differ at `a` and `b`: after enough new
terminal ids, a late submission of `a` is honoured in one fold and ignored in the other. -/
theorem foldInto_late_submission (htracked : Tracked s.res.terminal)
    (hT : s.res.terminal = p ++ a :: r) (hperm : (p ++ b :: t).Perm s.res.terminal)
    (hab : a ≠ b)
    (hcount : coids.length = terminalTracked - s.res.terminal.length + (p.length + 1))
    (hnodup : coids.Nodup) (hfresh : ∀ c ∈ coids, c ∉ s.res.terminal) (seq seq' : ℕ)
    (sleeve : String)
    (hsleeve : (foldInto s (cancelEvents seq coids)).acc.sleeves[sleeve]? = none) :
    (foldInto s (cancelEvents seq coids ++
        [submitEvent seq' a sleeve "100"])).acc.sleeves[sleeve]?.isSome ∧
      (foldInto (s.withTerminal (p ++ b :: t)) (cancelEvents seq coids ++
        [submitEvent seq' a sleeve "100"])).acc.sleeves[sleeve]? = none := by
  have hall : ∀ T : List String, T.Perm s.res.terminal → (T ++ coids).Nodup := by
    intro T hp
    rw [List.nodup_append']
    refine ⟨hp.nodup_iff.mpr htracked.nodup, hnodup, ?_⟩
    intro c hc hc'
    exact hfresh c hc' (hp.mem_iff.mp hc)
  have hfull : (foldInto s (cancelEvents seq coids)).res.terminal = r ++ coids := by
    rw [foldInto_terminal, terminalIds_cancelEvents, hT]
    apply foldl_trackTerminal_cut
    · exact hall _ (by rw [hT])
    · exact hT ▸ htracked.length_le
    · rw [← hT, hcount]
  have hresumed : foldInto (s.withTerminal (p ++ b :: t)) (cancelEvents seq coids) =
      (foldInto s (cancelEvents seq coids)).withTerminal (t ++ coids) := by
    rw [foldInto_withTerminal _ _ _ fun ev hev => submittedId_of_mem_cancelEvents hev,
      terminalIds_cancelEvents]
    congr 1
    apply foldl_trackTerminal_cut
    · exact hall _ hperm
    · exact hperm.length_eq ▸ htracked.length_le
    · rw [hperm.length_eq, hcount]
  have haT : a ∈ s.res.terminal := by simp [hT]
  have hanodup : a ∉ p ∧ a ∉ r := by
    have h := htracked.nodup
    rw [hT, List.nodup_append', List.nodup_cons] at h
    exact ⟨fun hm => h.2.2 hm (by simp), h.2.1.1⟩
  have hacoids : a ∉ coids := fun hm => hfresh a hm haT
  have hat : a ∈ t := by
    have hmem := hperm.mem_iff.mpr haT
    simpa [hanodup.1, hab] using hmem
  rw [foldInto_append, foldInto_append, hresumed, foldInto_cons, foldInto_cons, foldInto_nil,
    foldInto_nil]
  constructor
  · exact (foldEvent_submitEvent_of_notMem (by simp [hfull, hanodup.2, hacoids]) seq' hsleeve).2
  · rw [foldEvent_submitEvent_of_mem (by simp [FoldState.withTerminal, hat])]
    exact hsleeve

/-- Two different orders of the tracked ids are told apart by some stream. -/
theorem exists_distinguishing_events (htracked : Tracked s.res.terminal) {S : List String}
    (hperm : S.Perm s.res.terminal) (hne : S ≠ s.res.terminal) (seq : ℕ) :
    ∃ rest, Sequenced rest ∧ (∀ ev ∈ rest, seq ≤ ev.sequence) ∧
      (foldInto (s.withTerminal S) rest).acc ≠ (foldInto s rest).acc := by
  obtain ⟨p, a, b, r, r', hT, rfl, hab⟩ := exists_first_difference hperm.length_eq hne
  obtain ⟨coids, hcount, hnodup, hfresh⟩ :=
    exists_fresh s.res.terminal (terminalTracked - s.res.terminal.length + (p.length + 1))
  obtain ⟨sleeve, hsleeve⟩ := Infinite.exists_notMem_finset
    (foldInto s (cancelEvents seq coids)).acc.sleeves.keys.toFinset
  have hnone : (foldInto s (cancelEvents seq coids)).acc.sleeves[sleeve]? = none := by
    simpa using hsleeve
  have hlate := foldInto_late_submission htracked hT hperm hab hcount hnodup hfresh seq
    (seq + coids.length) sleeve hnone
  refine ⟨cancelEvents seq coids ++ [submitEvent (seq + coids.length) a sleeve "100"], ?_, ?_, ?_⟩
  · refine List.pairwise_append.mpr ⟨sequenced_cancelEvents seq coids, by simp, ?_⟩
    intro ev hev ev' hev'
    rw [List.mem_singleton.mp hev']
    exact (le_sequence_of_mem_cancelEvents hev).2
  · intro ev hev
    rcases List.mem_append.mp hev with hev | hev
    · exact (le_sequence_of_mem_cancelEvents hev).1
    · rw [List.mem_singleton.mp hev]
      exact Nat.le_add_right _ _
  · intro heq
    rw [heq] at hlate
    rw [hlate.2] at hlate
    exact absurd hlate.1 (by simp)

end Distinguish

/-- **Restart equivalence.** Every continuation of a stream agrees after a restart
exactly when the checkpoint is unreadable, so that everything is folded again, or the
terminal ids tracked at the checkpoint are in ascending order. -/
theorem restart_sameBalances_iff {done : List LedgerEvent} (hdone : Sequenced done) :
    (∀ rest, Sequenced (done ++ rest) →
        SameBalances (restart (D := Decimal) done rest) (foldAll (done ++ rest))) ↔
      (FiniteAfter Decimal done → (trackedIds Decimal done).Pairwise (· ≤ ·)) := by
  have hterm := foldAll_terminal (D := Decimal) done
  constructor
  · intro hall hfin
    by_contra hsorted
    have hne : sortText (trackedIds Decimal done) ≠ trackedIds Decimal done := by
      intro heq
      apply hsorted
      rw [← heq]
      exact List.pairwise_insertionSort _ _
    obtain ⟨rest, hseq, hlow, hdiff⟩ :=
      exists_distinguishing_events (s := (foldAll done).1) (hterm ▸ tracked_trackedIds done)
        (hterm ▸ sortText_perm _) (hterm ▸ hne) (maxSequence done + 1)
    have hsplit : Sequenced (done ++ rest) := by
      refine List.pairwise_append.mpr ⟨hdone, hseq, ?_⟩
      intro ev hev ev' hev'
      have hle := sequence_le_maxSequence hev
      have hlt := hlow ev' hev'
      omega
    have hsame := (hall rest hsplit).1
    rw [restart_of_finite hfin, foldAll_append] at hsame
    exact hdiff (by rw [hterm]; exact hsame)
  · intro hcond rest _
    by_cases hfin : FiniteAfter Decimal done
    · have hsort : sortText (trackedIds Decimal done) = trackedIds Decimal done :=
        (hcond hfin).insertionSort_eq
      rw [restart_of_finite hfin, foldAll_append, hsort, ← hterm, withTerminal_self]
      exact ⟨rfl, rfl, rfl⟩
    · rw [restart_of_not_finite hfin]
      exact ⟨rfl, rfl, rfl⟩

theorem restart_sameBalances_two_orders :
    Sequenced [cancelEvent 1 "a", cancelEvent 2 "b"] ∧
      ((∀ rest, Sequenced ([cancelEvent 1 "a", cancelEvent 2 "b"] ++ rest) →
          SameBalances (restart (D := Decimal) [cancelEvent 1 "a", cancelEvent 2 "b"] rest)
            (foldAll ([cancelEvent 1 "a", cancelEvent 2 "b"] ++ rest))) ↔
        (FiniteAfter Decimal [cancelEvent 1 "a", cancelEvent 2 "b"] →
          (trackedIds Decimal [cancelEvent 1 "a", cancelEvent 2 "b"]).Pairwise (· ≤ ·))) := by
  have hseq : Sequenced [cancelEvent 1 "a", cancelEvent 2 "b"] := sequenced_cancelEvents 1 ["a", "b"]
  exact ⟨hseq, restart_sameBalances_iff hseq⟩

/-- Orders `b` and then `a` are cancelled before the checkpoint. -/
def cancelledBeforeCheckpoint : List LedgerEvent := cancelEvents 1 ["b", "a"]

/-- The order ids `0`, `1` and so on. -/
def numberedOrders (n : ℕ) : List String := (List.range n).map fun k : ℕ => PyText.intText k

/-- Enough further cancellations to forget one of the two, and a late submission of `b`. -/
def lateSubmission : List LedgerEvent :=
  cancelEvents 3 (numberedOrders 4095) ++ [submitEvent 4098 "b" "sleeve" "100"]

@[simp] theorem length_numberedOrders (n : ℕ) : (numberedOrders n).length = n := by
  simp [numberedOrders]

theorem nodup_numberedOrders (n : ℕ) : (numberedOrders n).Nodup := by
  refine List.Nodup.map ?_ List.nodup_range
  intro i j hij
  have hparse : PyText.parseInt (PyText.intText i) = PyText.parseInt (PyText.intText j) :=
    congrArg _ hij
  rw [PyText.parseInt_intText, PyText.parseInt_intText] at hparse
  simpa using hparse

theorem notMem_numberedOrders {c : String} {e : PyError} (h : PyText.parseInt c = .error e)
    (n : ℕ) : c ∉ numberedOrders n := by
  intro hc
  obtain ⟨k, -, rfl⟩ := List.mem_map.mp hc
  rw [PyText.parseInt_intText] at h
  cases h

/-- Cancellations without open reservations only record their ids. -/
theorem foldInto_cancelEvents {s : FoldState Decimal} (h : s.res.pending = ∅) (seq : ℕ)
    (coids : List String) :
    foldInto s (cancelEvents seq coids) =
      s.withTerminal (coids.foldl trackTerminal s.res.terminal) := by
  induction coids generalizing s seq with
  | nil => rfl
  | cons coid coids ih =>
    have hstep : applyEvent s (cancelEvent seq coid) =
        (release s coid).andThen fun s => (s, none) := rfl
    have hrelease : release s coid = (s.withTerminal (trackTerminal s.res.terminal coid), none) := by
      simp [release, h, FoldState.withTerminal]
    rw [cancelEvents, foldInto_cons, foldEvent, hstep, hrelease, Attempt.andThen_none]
    exact ih (s := s.withTerminal (trackTerminal s.res.terminal coid)) h (seq + 1)

theorem foldLotsInto_cancelEvents (book : LotBook Decimal) (seq : ℕ) (coids : List String) :
    foldLotsInto book (cancelEvents seq coids) = book := by
  induction coids generalizing seq with
  | nil => rfl
  | cons coid coids ih =>
    have hstep : foldLotsEvent book (cancelEvent seq coid) = book := rfl
    rw [cancelEvents, foldLotsInto_cons, hstep, ih]

theorem trackedIds_cancelledBeforeCheckpoint :
    trackedIds Decimal cancelledBeforeCheckpoint = ["b", "a"] := by
  simp [trackedIds, cancelledBeforeCheckpoint, trackTerminal, terminalTracked]

theorem foldAll_cancelledBeforeCheckpoint :
    foldAll (D := Decimal) cancelledBeforeCheckpoint =
      (FoldState.empty.withTerminal (trackedIds Decimal cancelledBeforeCheckpoint), ∅) := by
  unfold foldAll foldBoth cancelledBeforeCheckpoint trackedIds
  rw [foldInto_cancelEvents rfl, foldLotsInto_cancelEvents, terminalIds_cancelEvents]
  rfl

theorem finiteAfter_cancelledBeforeCheckpoint :
    FiniteAfter Decimal cancelledBeforeCheckpoint := by
  have hempty : ∀ {α : Type} (P : α → Prop), Dict.All P ∅ := by
    intro α P key x hx
    simp at hx
  unfold FiniteAfter
  rw [foldAll_cancelledBeforeCheckpoint]
  exact ⟨⟨hempty _, hempty _⟩, hempty _⟩

theorem restart_differs_at_late_submission :
    Sequenced (cancelledBeforeCheckpoint ++ lateSubmission) ∧
      ¬ SameBalances (restart (D := Decimal) cancelledBeforeCheckpoint lateSubmission)
        (foldAll (cancelledBeforeCheckpoint ++ lateSubmission)) := by
  have hterm := foldAll_terminal (D := Decimal) cancelledBeforeCheckpoint
  have hids := trackedIds_cancelledBeforeCheckpoint
  constructor
  · refine List.pairwise_append.mpr ⟨sequenced_cancelEvents 1 _, ?_, ?_⟩
    · refine List.pairwise_append.mpr ⟨sequenced_cancelEvents 3 _, by simp, ?_⟩
      intro ev hev ev' hev'
      have hlt := (le_sequence_of_mem_cancelEvents hev).2
      rw [length_numberedOrders] at hlt
      rw [List.mem_singleton.mp hev']
      exact hlt
    · intro ev hev ev' hev'
      have hlt := (le_sequence_of_mem_cancelEvents hev).2
      simp only [List.length_cons, List.length_nil] at hlt
      rcases List.mem_append.mp hev' with hev' | hev'
      · have hle := (le_sequence_of_mem_cancelEvents hev').1
        omega
      · rw [List.mem_singleton.mp hev']
        simp only [submitEvent]
        omega
  · intro hsame
    have hsort : sortText (trackedIds Decimal cancelledBeforeCheckpoint) = ["a", "b"] := by
      rw [hids]
      decide
    have hlate := foldInto_late_submission
      (s := (foldAll cancelledBeforeCheckpoint).1) (p := []) (a := "b") (r := ["a"]) (b := "a")
      (t := ["b"]) (hterm ▸ tracked_trackedIds _) (hterm ▸ hids) ?_ (by decide) ?_
      (nodup_numberedOrders 4095) ?_ 3 4098 "sleeve" ?_
    · rw [restart_of_finite finiteAfter_cancelledBeforeCheckpoint, foldAll_append, hsort] at hsame
      have hacc := hsame.1
      simp only [foldBoth, lateSubmission] at hacc
      rw [← hacc, List.nil_append, hlate.2] at hlate
      exact absurd hlate.1 (by simp)
    · rw [hterm, hids]
      decide
    · rw [hterm, hids, length_numberedOrders, terminalTracked]
      rfl
    · intro c hc
      rw [hterm, hids]
      rintro (_ | ⟨_, _ | ⟨_, ⟨⟩⟩⟩)
      · exact notMem_numberedOrders rfl _ hc
      · exact notMem_numberedOrders rfl _ hc
    · rw [foldAll_cancelledBeforeCheckpoint, foldInto_cancelEvents rfl]
      rfl

end LlamaTrade
