import LlamaTrade.TransitionRuns
import Mathlib.Data.List.Basic

/-!
# Stream consumers

`StreamConsumer` (`consumer.py`) over the Kafka transport (`transport/kafka.py`). The members of
a group read the partitions of a topic, each from the group's committed offset on, and handle
one entry at a time. An acknowledgement commits the offset after the entry, which also covers
every entry before it; what is not committed is delivered again only to a member that is
assigned the partition anew. A brand-new group begins at the start of the log.

A member can crash at any point, partitions can be assigned anew at any point, also while a
member is busy with an entry, and a commit may or may not take effect.
-/

namespace LlamaTrade

/-- The verdict of `classify` on a handler's exception. -/
inductive ErrorDisposition where
  | transient
  | poison
  deriving DecidableEq

/-- `BoundedRetry` and `RetryForever`. -/
inductive RetryPolicy (ε : Type) where
  | bounded (maxAttempts : ℕ)
  | forever (classify : ε → ErrorDisposition)

/-- The consumer's arguments: how entries are decoded (`decode_envelope`), the id of an event,
whether there is a `DedupStore`, and the policy. -/
structure ConsumerSetup (Raw Env ε : Type) where
  decode : Raw → Option Env
  eventId : Env → String
  dedup : Bool
  policy : RetryPolicy ε

/-- `"partition:offset"`. -/
structure Cursor where
  partition : ℕ
  offset : ℕ
  deriving DecidableEq

/-- What became of an entry. -/
inductive EntryFate where
  | handled
  | skipped
  | parked
  | quarantined
  deriving DecidableEq

/-- Where a member is in `_handle_one`. -/
inductive ConsumerPhase (Raw Env : Type) where
  | idle
  | received (cursor : Cursor) (raw : Raw)
  | handling (cursor : Cursor) (env : Env)
  -- `_dead_letter` and `_quarantine`
  | parking (cursor : Cursor) (env : Option Env)
  | quarantining (cursor : Cursor)
  | acking (cursor : Cursor) (env : Option Env)

structure ConsumerMember (Raw Env : Type) where
  /-- The next offset of each partition that is assigned to the member. -/
  position : ℕ → Option ℕ
  attempts : String → ℕ
  phase : ConsumerPhase Raw Env
  /-- An entry of the partition was left un-acked since the partition was assigned. -/
  left : ℕ → Bool

structure ConsumerWorld (Raw Env : Type) where
  log : ℕ → List Raw
  committed : ℕ → ℕ
  fates : List (Cursor × EntryFate)
  members : ℕ → ConsumerMember Raw Env

/-- What a handler does with an entry. -/
inductive HandlerOutcome (ε : Type) where
  | returns
  | poison
  | raises (error : ε)

inductive MemberAction (ε : Type) where
  | assign (partition : ℕ)
  | revoke (partition : ℕ)
  | deliver (partition : ℕ)
  /-- Decoding, and the answer of the dedup store. -/
  | inspect (seen : Bool)
  | handle (outcome : HandlerOutcome ε)
  | park
  /-- The quarantine handler may fail; the entry is acknowledged all the same. -/
  | quarantine (ok : Bool)
  /-- `ack`; without a live consumer, or for a member that has lost the partition, nothing is
  committed. -/
  | ack (commits : Bool)
  | crash

inductive ConsumerAction (Raw ε : Type) where
  | publish (partition : ℕ) (raw : Raw)
  | member (m : ℕ) (action : MemberAction ε)

section Model

variable {Raw Env ε : Type}

/-- A process that has just been started. -/
def ConsumerMember.fresh : ConsumerMember Raw Env :=
  ⟨fun _ => none, fun _ => 0, .idle, fun _ => false⟩

/-- The entry that the member is busy with. -/
def ConsumerPhase.cursor : ConsumerPhase Raw Env → Option Cursor
  | .idle => none
  | .received cursor _ | .handling cursor _ | .parking cursor _ | .quarantining cursor
  | .acking cursor _ => some cursor

def ConsumerMember.goTo (m : ConsumerMember Raw Env) (phase : ConsumerPhase Raw Env) :
    ConsumerMember Raw Env :=
  { m with phase }

def ConsumerMember.seek (m : ConsumerMember Raw Env) (p : ℕ) (offset : Option ℕ) :
    ConsumerMember Raw Env :=
  { m with position := Function.update m.position p offset }

def ConsumerMember.count (m : ConsumerMember Raw Env) (id : String) (attempts : ℕ) :
    ConsumerMember Raw Env :=
  { m with attempts := Function.update m.attempts id attempts }

/-- The event's count of attempts is dropped. -/
def ConsumerMember.forget (m : ConsumerMember Raw Env) (eventId : Env → String) :
    Option Env → ConsumerMember Raw Env
  | some env => m.count (eventId env) 0
  | none => m

/-- What a step of a member leaves: the member, an entry that is settled, and an entry whose
acknowledgement is committed. -/
structure MemberEffect (Raw Env : Type) where
  member : ConsumerMember Raw Env
  settles : Option (Cursor × EntryFate)
  commits : Option Cursor

/-- The handler's outcome under the policy of the consumer. -/
def afterHandler (setup : ConsumerSetup Raw Env ε) (m : ConsumerMember Raw Env) (cursor : Cursor)
    (env : Env) (outcome : HandlerOutcome ε) : MemberEffect Raw Env :=
  match setup.policy, outcome with
  | _, .returns => ⟨m.goTo (.acking cursor (some env)), some (cursor, .handled), none⟩
  | .bounded _, .poison => ⟨m.goTo (.parking cursor (some env)), none, none⟩
  | .forever _, .poison => ⟨m.goTo (.quarantining cursor), none, none⟩
  | .bounded maxAttempts, .raises _ =>
    -- `_on_failure`
    let attempts := m.attempts (setup.eventId env) + 1
    let m := m.count (setup.eventId env) attempts
    if maxAttempts ≤ attempts then ⟨m.goTo (.parking cursor (some env)), none, none⟩
    else ⟨{ m.goTo .idle with left := Function.update m.left cursor.partition true }, none, none⟩
  | .forever classify, .raises error =>
    match classify error with
    | .poison => ⟨m.goTo (.quarantining cursor), none, none⟩
    | .transient => ⟨m, none, none⟩

/-- One step of a member; `none` when it is not enabled. -/
def memberStep (setup : ConsumerSetup Raw Env ε) (log : ℕ → List Raw) (committed : ℕ → ℕ)
    (m : ConsumerMember Raw Env) : MemberAction ε → Option (MemberEffect Raw Env)
  | .assign p =>
    let busy := m.phase.cursor.any fun cursor => cursor.partition = p
    some ⟨{ m.seek p (some (committed p)) with
      left := Function.update m.left p (m.left p && busy) }, none, none⟩
  | .revoke p => some ⟨m.seek p none, none, none⟩
  | .deliver p =>
    match m.phase, m.position p with
    | .idle, some offset => ((log p)[offset]?).map fun raw =>
      ⟨(m.seek p (some (offset + 1))).goTo (.received ⟨p, offset⟩ raw), none, none⟩
    | _, _ => none
  | .inspect seen =>
    match m.phase with
    | .received cursor raw =>
      match setup.decode raw, setup.policy with
      | none, .bounded _ => some ⟨m.goTo (.parking cursor none), none, none⟩
      | none, .forever _ => some ⟨m.goTo (.quarantining cursor), none, none⟩
      | some env, _ =>
        if setup.dedup && seen then
          some ⟨m.goTo (.acking cursor none), some (cursor, .skipped), none⟩
        else some ⟨m.goTo (.handling cursor env), none, none⟩
    | _ => none
  | .handle outcome =>
    match m.phase with
    | .handling cursor env => some (afterHandler setup m cursor env outcome)
    | _ => none
  | .park =>
    match m.phase with
    | .parking cursor env =>
      some ⟨m.goTo (.acking cursor env), some (cursor, .parked), none⟩
    | _ => none
  | .quarantine _ =>
    match m.phase with
    | .quarantining cursor =>
      some ⟨m.goTo (.acking cursor none), some (cursor, .quarantined), none⟩
    | _ => none
  | .ack commits =>
    match m.phase with
    | .acking cursor env =>
      some ⟨(m.forget setup.eventId env).goTo .idle, none, if commits then some cursor else none⟩
    | _ => none
  | .crash => some ⟨.fresh, none, none⟩

/-- The world after a step of a member. -/
def ConsumerWorld.apply (w : ConsumerWorld Raw Env) (m : ℕ) (effect : MemberEffect Raw Env) :
    ConsumerWorld Raw Env :=
  { w with
    committed := match effect.commits with
      | some cursor => Function.update w.committed cursor.partition (cursor.offset + 1)
      | none => w.committed
    fates := w.fates ++ effect.settles.toList
    members := Function.update w.members m effect.member }

def consumerStep (setup : ConsumerSetup Raw Env ε) (w : ConsumerWorld Raw Env) :
    ConsumerAction Raw ε → Option (ConsumerWorld Raw Env)
  | .publish p raw => some { w with log := Function.update w.log p (w.log p ++ [raw]) }
  | .member m action =>
    (memberStep setup w.log w.committed (w.members m) action).map (w.apply m)

/-- A group that nothing has been committed for. -/
structure NewGroup (w : ConsumerWorld Raw Env) : Prop where
  committed : ∀ p, w.committed p = 0
  fates : w.fates = []
  members : ∀ m, w.members m = .fresh

/-! ## What is settled below an offset -/

/-- An entry that was handled, skipped as a duplicate, parked or handed to quarantine. -/
def ConsumerWorld.Settled (w : ConsumerWorld Raw Env) (cursor : Cursor) : Prop :=
  ∃ fate, (cursor, fate) ∈ w.fates

/-- A member that has left no entry of a partition un-acked has settled all that it has read
of it, but for the entry that it is busy with. -/
structure MemberSettles (settled : Cursor → Prop) (m : ConsumerMember Raw Env) : Prop where
  read : ∀ p offset, m.left p = false → m.position p = some offset →
    ∀ k < offset, settled ⟨p, k⟩ ∨ m.phase.cursor = some ⟨p, k⟩
  busy : ∀ cursor, m.left cursor.partition = false → m.phase.cursor = some cursor →
    ∀ k < cursor.offset, settled ⟨cursor.partition, k⟩
  acking : ∀ cursor env, m.phase = .acking cursor env → settled cursor

/-- Nothing is committed for a partition of which an entry was left un-acked. -/
def CommitsNothingLeft (setup : ConsumerSetup Raw Env ε) (w : ConsumerWorld Raw Env) :
    ConsumerAction Raw ε → Prop
  | .member m (.ack true) => (∃ maxAttempts, setup.policy = .bounded maxAttempts) →
      ∀ cursor, (w.members m).phase.cursor = some cursor → (w.members m).left cursor.partition = false
  | _ => True

/-- Only entries that are settled are below a committed offset. -/
structure CommitsSettled (setup : ConsumerSetup Raw Env ε) (w : ConsumerWorld Raw Env) : Prop where
  committed : ∀ p, ∀ k < w.committed p, w.Settled ⟨p, k⟩
  members : ∀ m, MemberSettles w.Settled (w.members m)
  forever : ∀ classify, setup.policy = .forever classify → ∀ m p, (w.members m).left p = false

variable {setup : ConsumerSetup Raw Env ε} {w w' : ConsumerWorld Raw Env} {settled settled' : Cursor → Prop}
  {m : ConsumerMember Raw Env} {effect : MemberEffect Raw Env}

theorem MemberSettles.mono (h : MemberSettles settled m) (hmono : ∀ cursor, settled cursor → settled' cursor) :
    MemberSettles settled' m where
  read p offset hleft hposition k hk := (h.read p offset hleft hposition k hk).imp_left (hmono _)
  busy cursor hleft hbusy k hk := hmono _ (h.busy cursor hleft hbusy k hk)
  acking cursor env hphase := hmono _ (h.acking cursor env hphase)

theorem memberSettles_fresh : MemberSettles settled (.fresh : ConsumerMember Raw Env) where
  read p offset _ hposition := by cases hposition
  busy cursor _ hbusy := by cases hbusy
  acking cursor env hphase := by cases hphase

/-- The member goes on with the same entry. -/
theorem MemberSettles.goOn (h : MemberSettles settled m) {phase : ConsumerPhase Raw Env}
    (hcursor : phase.cursor = m.phase.cursor) (hacking : ∀ cursor env, phase ≠ .acking cursor env) :
    MemberSettles settled (m.goTo phase) where
  read p offset hleft hposition k hk := by
    have hread := h.read p offset hleft hposition k hk
    rwa [← hcursor] at hread
  busy cursor hleft hbusy := h.busy cursor hleft (hcursor ▸ hbusy)
  acking cursor env hphase := absurd hphase (hacking cursor env)

/-- The member settles the entry it is busy with. -/
theorem MemberSettles.settle (h : MemberSettles settled m) {cursor : Cursor} {env : Option Env}
    (hbusy : m.phase.cursor = some cursor) (hmono : ∀ cursor, settled cursor → settled' cursor)
    (hsettled : settled' cursor) : MemberSettles settled' (m.goTo (.acking cursor env)) where
  read p offset hleft hposition k hk := by
    obtain hread | hself := h.read p offset hleft hposition k hk
    · exact .inl (hmono _ hread)
    · rw [hbusy] at hself
      exact .inr hself
  busy cursor' hleft hbusy' k hk := by
    cases hbusy'
    exact hmono _ (h.busy cursor hleft hbusy k hk)
  acking cursor' env' hphase := by
    cases hphase
    exact hsettled

/-- A member that has settled its entry is done with it. -/
theorem MemberSettles.finish (h : MemberSettles settled m) {cursor : Cursor} {env : Option Env}
    (hphase : m.phase = .acking cursor env) : MemberSettles settled (m.goTo .idle) where
  read p offset hleft hposition k hk := by
    obtain hread | hself := h.read p offset hleft hposition k hk
    · exact .inl hread
    · rw [hphase] at hself
      cases hself
      exact .inl (h.acking _ _ hphase)
  busy cursor' _ hbusy := by cases hbusy
  acking cursor' env' hidle := by cases hidle

theorem MemberSettles.count (h : MemberSettles settled m) (id : String) (attempts : ℕ) :
    MemberSettles settled (m.count id attempts) :=
  ⟨h.read, h.busy, h.acking⟩

/-- A member that leaves its entry un-acked promises nothing for the partition. -/
theorem MemberSettles.leave (h : MemberSettles settled m) {cursor : Cursor}
    (hbusy : m.phase.cursor = some cursor) :
    MemberSettles settled
      { m.goTo .idle with left := Function.update m.left cursor.partition true } where
  read p offset hleft hposition k hk := by
    by_cases hp : p = cursor.partition
    · subst hp
      simp at hleft
    · have hkept : m.left p = false := by simpa [hp] using hleft
      obtain hread | hself := h.read p offset hkept hposition k hk
      · exact .inl hread
      · rw [hbusy, Option.some.injEq] at hself
        exact absurd (congrArg Cursor.partition hself).symm hp
  busy cursor' _ hbusy' := by cases hbusy'
  acking cursor' env' hidle := by cases hidle

/-- A partition is read from its committed offset on. -/
theorem MemberSettles.assign (h : MemberSettles settled m) {p offset : ℕ}
    (hcommitted : ∀ k < offset, settled ⟨p, k⟩) :
    MemberSettles settled { m.seek p (some offset) with
      left := Function.update m.left p
        (m.left p && m.phase.cursor.any fun cursor => cursor.partition = p) } where
  read p' offset' hleft hposition k hk := by
    have hposition : Function.update m.position p (some offset) p' = some offset' := hposition
    by_cases hp : p' = p
    · subst hp
      rw [Function.update_self, Option.some.injEq] at hposition
      subst hposition
      exact .inl (hcommitted k hk)
    · have hkept : m.left p' = false := by simpa [hp] using hleft
      exact h.read p' offset' hkept (by simpa [hp] using hposition) k hk
  busy cursor hleft hbusy k hk := by
    refine h.busy cursor ?_ hbusy k hk
    by_cases hp : cursor.partition = p
    · subst hp
      have hbusy' : m.phase.cursor = some cursor := hbusy
      simpa [hbusy'] using hleft
    · simpa [hp] using hleft
  acking := h.acking

theorem MemberSettles.revoke (h : MemberSettles settled m) {p : ℕ} :
    MemberSettles settled (m.seek p none) where
  read p' offset hleft hposition := by
    have hposition : Function.update m.position p none p' = some offset := hposition
    by_cases hp : p' = p
    · subst hp
      rw [Function.update_self] at hposition
      cases hposition
    · exact h.read p' offset hleft (by simpa [hp] using hposition)
  busy := h.busy
  acking := h.acking

/-- The next entry is delivered to a member that is not busy. -/
theorem MemberSettles.deliver (h : MemberSettles settled m) {p offset : ℕ} {raw : Raw}
    (hidle : m.phase = .idle) (hposition : m.position p = some offset) :
    MemberSettles settled ((m.seek p (some (offset + 1))).goTo (.received ⟨p, offset⟩ raw)) where
  read p' offset' hleft hposition' k hk := by
    have hposition' : Function.update m.position p (some (offset + 1)) p' = some offset' := hposition'
    by_cases hp : p' = p
    · subst hp
      rw [Function.update_self, Option.some.injEq] at hposition'
      subst hposition'
      obtain hbefore | hself := Nat.lt_succ_iff_lt_or_eq.mp hk
      · obtain hread | hbusy := h.read p' offset hleft hposition k hbefore
        · exact .inl hread
        · rw [hidle] at hbusy
          cases hbusy
      · exact .inr (by rw [hself]; rfl)
    · obtain hread | hbusy := h.read p' offset' hleft (by simpa [hp] using hposition') k hk
      · exact .inl hread
      · rw [hidle] at hbusy
        cases hbusy
  busy cursor hleft hbusy k hk := by
    cases hbusy
    obtain hread | hbusy := h.read p offset hleft hposition k hk
    · exact hread
    · rw [hidle] at hbusy
      cases hbusy
  acking cursor env hphase := by cases hphase

/-- The world settles what it had settled, and what the step settles. -/
theorem settled_apply {cursor : Cursor} (w : ConsumerWorld Raw Env) (i : ℕ)
    (effect : MemberEffect Raw Env) (h : w.Settled cursor) : (w.apply i effect).Settled cursor := by
  obtain ⟨fate, hfate⟩ := h
  exact ⟨fate, List.mem_append_left _ hfate⟩

theorem settled_apply_self {cursor : Cursor} {fate : EntryFate} (w : ConsumerWorld Raw Env) (i : ℕ)
    (effect : MemberEffect Raw Env) (h : effect.settles = some (cursor, fate)) :
    (w.apply i effect).Settled cursor :=
  ⟨fate, List.mem_append_right _ (by rw [h]; exact List.mem_singleton.mpr rfl)⟩

/-- What one step of a member does: the member keeps its promise in the world after the step,
what it commits is settled up to there, and it leaves an entry behind only under bounded
retries. -/
structure StepSettles (setup : ConsumerSetup Raw Env ε) (w : ConsumerWorld Raw Env) (i : ℕ)
    (action : MemberAction ε) (effect : MemberEffect Raw Env) : Prop where
  member : MemberSettles (w.apply i effect).Settled effect.member
  commits : ∀ cursor, effect.commits = some cursor →
    action = .ack true ∧ (w.members i).phase.cursor = some cursor ∧ w.Settled cursor
  left : (∀ maxAttempts, setup.policy ≠ .bounded maxAttempts) → (∀ p, (w.members i).left p = false) →
    ∀ p, effect.member.left p = false

/-- A step that settles and commits nothing. -/
theorem stepSettles_plain {i : ℕ} {action : MemberAction ε} (h : MemberSettles w.Settled m)
    (hleft : (∀ maxAttempts, setup.policy ≠ .bounded maxAttempts) →
      (∀ p, (w.members i).left p = false) → ∀ p, m.left p = false) :
    StepSettles setup w i action ⟨m, none, none⟩ where
  member := h.mono fun _ => settled_apply w i _
  commits cursor hcommits := by cases hcommits
  left := hleft

/-- A step that settles the entry that the member is busy with. -/
theorem stepSettles_settle {i : ℕ} {action : MemberAction ε}
    (h : MemberSettles w.Settled (w.members i)) {cursor : Cursor} {env : Option Env} {fate : EntryFate} (hbusy : (w.members i).phase.cursor = some cursor) :
    StepSettles setup w i action
      ⟨(w.members i).goTo (.acking cursor env), some (cursor, fate), none⟩ where
  member := h.settle hbusy (fun _ => settled_apply w i _) (settled_apply_self w i _ rfl)
  commits cursor hcommits := by cases hcommits
  left _ hleft := hleft

theorem afterHandler_settles {i : ℕ} (h : MemberSettles w.Settled (w.members i)) {cursor : Cursor}
    {env : Env} (hphase : (w.members i).phase = .handling cursor env) (outcome : HandlerOutcome ε) :
    StepSettles setup w i (.handle outcome) (afterHandler setup (w.members i) cursor env outcome) := by
  have hbusy : (w.members i).phase.cursor = some cursor := by rw [hphase]; rfl
  unfold afterHandler
  split
  · exact stepSettles_settle h hbusy
  · exact stepSettles_plain (h.goOn hbusy.symm fun _ _ hacking => by cases hacking) fun _ => id
  · exact stepSettles_plain (h.goOn hbusy.symm fun _ _ hacking => by cases hacking) fun _ => id
  · rename_i maxAttempts _ hpolicy
    dsimp only
    split_ifs with hlast
    · exact stepSettles_plain
        ((h.count _ _).goOn hbusy.symm fun _ _ hacking => by cases hacking) fun _ => id
    · exact stepSettles_plain ((h.count _ _).leave hbusy)
        fun hunbounded => absurd hpolicy (hunbounded maxAttempts)
  · split
    · exact stepSettles_plain (h.goOn hbusy.symm fun _ _ hacking => by cases hacking) fun _ => id
    · exact stepSettles_plain h fun _ => id

theorem memberStep_settles {i : ℕ} (hcommitted : ∀ p, ∀ k < w.committed p, w.Settled ⟨p, k⟩)
    (h : MemberSettles w.Settled (w.members i)) {action : MemberAction ε}
    (hstep : memberStep setup w.log w.committed (w.members i) action = some effect) :
    StepSettles setup w i action effect := by
  cases action with
  | assign p =>
    cases hstep
    refine stepSettles_plain (h.assign (hcommitted p)) fun _ hleft p' => ?_
    by_cases hp : p' = p
    · subst hp
      simp [hleft]
    · simpa [hp] using hleft p'
  | revoke p =>
    cases hstep
    exact stepSettles_plain h.revoke fun _ => id
  | deliver p =>
    simp only [memberStep] at hstep
    split at hstep
    · rename_i offset hidle hposition
      obtain ⟨raw, -, rfl⟩ := Option.map_eq_some_iff.mp hstep
      exact stepSettles_plain (h.deliver hidle hposition) fun _ => id
    · cases hstep
  | inspect seen =>
    simp only [memberStep] at hstep
    split at hstep
    · rename_i cursor raw hphase
      have hbusy : (w.members i).phase.cursor = some cursor := by rw [hphase]; rfl
      split at hstep
      · cases hstep
        exact stepSettles_plain (h.goOn hbusy.symm fun _ _ hacking => by cases hacking) fun _ => id
      · cases hstep
        exact stepSettles_plain (h.goOn hbusy.symm fun _ _ hacking => by cases hacking) fun _ => id
      · split_ifs at hstep
        · cases hstep
          exact stepSettles_settle h hbusy
        · cases hstep
          exact stepSettles_plain (h.goOn hbusy.symm fun _ _ hacking => by cases hacking) fun _ => id
    · cases hstep
  | handle outcome =>
    simp only [memberStep] at hstep
    split at hstep
    · rename_i hphase
      cases hstep
      exact afterHandler_settles h hphase outcome
    · cases hstep
  | park =>
    simp only [memberStep] at hstep
    split at hstep
    · rename_i hphase
      cases hstep
      exact stepSettles_settle h (by rw [hphase]; rfl)
    · cases hstep
  | quarantine ok =>
    simp only [memberStep] at hstep
    split at hstep
    · rename_i hphase
      cases hstep
      exact stepSettles_settle h (by rw [hphase]; rfl)
    · cases hstep
  | ack commits =>
    simp only [memberStep] at hstep
    split at hstep
    · rename_i cursor env hphase
      cases hstep
      refine ⟨?_, fun cursor' hcommits => ?_, fun _ hleft => ?_⟩
      · have hfinished := (h.finish hphase).mono fun _ => settled_apply w i
          ⟨((w.members i).forget setup.eventId env).goTo .idle, none,
            if commits then some cursor else none⟩
        cases env with
        | none => exact hfinished
        | some env => exact hfinished.count _ _
      · cases commits with
        | false => cases hcommits
        | true =>
          cases hcommits
          exact ⟨rfl, by rw [hphase]; rfl, h.acking _ _ hphase⟩
      · cases env with
        | none => exact hleft
        | some env => exact hleft
    · cases hstep
  | crash =>
    cases hstep
    exact stepSettles_plain memberSettles_fresh fun _ _ _ => rfl

/-- A member that commits has left nothing of the partition behind. -/
theorem CommitsSettled.left_eq_false (h : CommitsSettled setup w) {i : ℕ}
    (hok : CommitsNothingLeft setup w (.member i (.ack true))) {cursor : Cursor}
    (hbusy : (w.members i).phase.cursor = some cursor) : (w.members i).left cursor.partition = false := by
  cases hpolicy : setup.policy with
  | bounded maxAttempts => exact hok ⟨maxAttempts, hpolicy⟩ cursor hbusy
  | forever classify => exact h.forever classify hpolicy i cursor.partition

/-- Every step that commits nothing over an entry left un-acked keeps the invariant. -/
theorem commitsSettled_step (h : CommitsSettled setup w) {action : ConsumerAction Raw ε}
    (hok : CommitsNothingLeft setup w action) (hstep : consumerStep setup w action = some w') :
    CommitsSettled setup w' := by
  cases action with
  | publish p raw =>
    cases hstep
    exact ⟨h.committed, h.members, h.forever⟩
  | member i action =>
    obtain ⟨effect, hmember, rfl⟩ := Option.map_eq_some_iff.mp hstep
    have hsettles := memberStep_settles h.committed (h.members i) hmember
    refine ⟨fun p k hk => ?_, fun j => ?_, fun classify hpolicy j p => ?_⟩
    · refine settled_apply w i effect ?_
      cases hcommits : effect.commits with
      | none => exact h.committed p k (by simpa [ConsumerWorld.apply, hcommits] using hk)
      | some cursor =>
        obtain ⟨rfl, hbusy, hsettled⟩ := hsettles.commits cursor hcommits
        simp only [ConsumerWorld.apply, hcommits] at hk
        by_cases hp : p = cursor.partition
        · subst hp
          rw [Function.update_self] at hk
          obtain hbefore | rfl := Nat.lt_succ_iff_lt_or_eq.mp hk
          · exact (h.members i).busy cursor (h.left_eq_false hok hbusy) hbusy k hbefore
          · exact hsettled
        · rw [Function.update_of_ne hp] at hk
          exact h.committed p k hk
    · by_cases hj : j = i
      · subst hj
        simpa [ConsumerWorld.apply] using hsettles.member
      · simpa [ConsumerWorld.apply, hj] using (h.members j).mono fun _ => settled_apply w i effect
    · have hunbounded : ∀ maxAttempts, setup.policy ≠ .bounded maxAttempts := by
        rw [hpolicy]
        exact fun _ hbounded => by cases hbounded
      by_cases hj : j = i
      · subst hj
        simpa [ConsumerWorld.apply] using hsettles.left hunbounded (h.forever classify hpolicy j) p
      · simpa [ConsumerWorld.apply, hj] using h.forever classify hpolicy j p

/-- **The consumer never commits past an unhandled entry.** In every run of a group from its
start, over any number of members and partitions, with crashes and assignments at any point,
every entry below a committed offset was handled, skipped as a duplicate, parked or handed to
quarantine; under bounded retries in those runs in which no member commits in a partition that
it has left an entry of un-acked since it was assigned. -/
theorem commits_only_settled {actions : List (ConsumerAction Raw ε)} (hnew : NewGroup w)
    (hmeets : Transition.Meets (consumerStep setup) (CommitsNothingLeft setup) w actions)
    (hrun : Transition.run (consumerStep setup) w actions = some w') (p : ℕ) {k : ℕ}
    (hk : k < w'.committed p) : ∃ fate, (⟨p, k⟩, fate) ∈ w'.fates := by
  have hinit : CommitsSettled setup w := by
    refine ⟨fun p k hk => ?_, fun m => ?_, fun _ _ m p => ?_⟩
    · rw [hnew.committed p] at hk
      cases hk
    · rw [hnew.members m]
      exact memberSettles_fresh
    · rw [hnew.members m]
      rfl
  exact (Transition.run_invariant (fun _ _ _ h hok hstep => commitsSettled_step h hok hstep) hinit
    hmeets hrun).committed p k hk

end Model

namespace Sample

/-- A consumer of texts with the default policy. -/
def textConsumer : ConsumerSetup String String Unit :=
  ⟨fun raw => some raw, fun env => env, false, .bounded 5⟩

def textGroup : ConsumerWorld String String := ⟨fun _ => [], fun _ => 0, [], fun _ => .fresh⟩

theorem textGroup_new : NewGroup textGroup := ⟨fun _ => rfl, rfl, fun _ => rfl⟩

/-- The next entry is delivered, and the handler has its outcome. -/
def nextEntry (outcome : HandlerOutcome Unit) : List (ConsumerAction String Unit) :=
  [.member 0 (.deliver 0), .member 0 (.inspect false), .member 0 (.handle outcome)]

/-- The first entry fails; the process is restarted, and handles it. -/
def failedThenRestarted : List (ConsumerAction String Unit) :=
  [.publish 0 "a", .publish 0 "b", .member 0 (.assign 0)] ++ nextEntry (.raises ()) ++
    [.member 0 .crash, .member 0 (.assign 0)] ++ nextEntry .returns ++ [.member 0 (.ack true)]

/-- The first entry fails and is left un-acked; the second is handled and acknowledged. -/
def failedThenPassed : List (ConsumerAction String Unit) :=
  [.publish 0 "a", .publish 0 "b", .member 0 (.assign 0)] ++ nextEntry (.raises ()) ++
    nextEntry .returns ++ [.member 0 (.ack true)]

end Sample

theorem commits_only_settled_restarted :
    ∃ w', Transition.run (consumerStep Sample.textConsumer) Sample.textGroup
        Sample.failedThenRestarted = some w' ∧ 0 < w'.committed 0 ∧
      ∃ fate, (⟨0, 0⟩, fate) ∈ w'.fates := by
  have hmeets : Transition.Meets (consumerStep Sample.textConsumer)
      (CommitsNothingLeft Sample.textConsumer) Sample.textGroup Sample.failedThenRestarted := by
    iterate 11 refine Transition.meets_cons rfl trivial ?_
    refine Transition.meets_cons rfl (fun _ cursor hbusy => ?_) trivial
    cases hbusy
    rfl
  exact ⟨_, rfl, Nat.one_pos, commits_only_settled Sample.textGroup_new hmeets rfl 0 Nat.one_pos⟩

/-- The commit of the second entry covers the first, which nobody has handled or parked. -/
theorem commit_covers_failed_entry :
    ∃ w', Transition.run (consumerStep Sample.textConsumer) Sample.textGroup
        Sample.failedThenPassed = some w' ∧ 0 < w'.committed 0 ∧
      ¬∃ fate, (⟨0, 0⟩, fate) ∈ w'.fates := by
  refine ⟨_, rfl, Nat.two_pos, ?_⟩
  rintro ⟨fate, hfate⟩
  have hentry := congrArg (fun e => e.1.offset) (List.mem_singleton.mp hfate)
  cases hentry

end LlamaTrade
