import LlamaTrade.KafkaTails
import Mathlib.Algebra.BigOperators.Group.Finset.Basic

/-!
# Replay of dead letters

`replay_dlq` (`tasks/dlq_replay.py`) tails the dead-letter topic from its beginning, publishes
each entry on the main stream again and in the end deletes each partition up to the highest
offset that it has read there. Consumers park further entries meanwhile. A reconnect of the
tail leaves a partition that it did not resume in at its end; if a later entry of that
partition is then read, the delete goes over those that were passed by. Where each reconnect
finds the other partitions read, nothing is deleted that was not replayed.
-/

namespace LlamaTrade

/-- Entries are bytes; a null or an empty entry has no payload. -/
abbrev EntryBytes := List UInt8

inductive ReplayPhase where
  | reading
  /-- The partitions still to be purged. -/
  | purging
  /-- `publish_raw` has raised, or the run is over. -/
  | ended
  deriving DecidableEq

structure ReplayWorld where
  dlq : Topic EntryBytes
  reader : TailReader
  phase : ReplayPhase
  target : ℕ
  read : ℕ
  /-- The highest offset read in each partition. -/
  highWater : ℕ → Option ℕ
  republished : List Cursor

inductive ReplayAction where
  /-- A consumer parks an entry. -/
  | park (p : ℕ) (record : TopicRecord EntryBytes)
  | connect
  | fail
  /-- The tail reads the next record of a partition; republishing what it yields may raise. -/
  | fetch (p : ℕ) (published : Bool)
  | purge (p : ℕ)
  | finish

/-- `bus.length`: the entries of the partitions. -/
def dlqLength (partitions : ℕ) (topic : Topic EntryBytes) : ℕ :=
  ∑ p ∈ Finset.range partitions, ((topic.log p).length - topic.start p)

/-- `replay_dlq` as it begins to tail. -/
def beginReplay (partitions maxEntries : ℕ) (topic : Topic EntryBytes) : ReplayWorld where
  dlq := topic
  reader := ⟨.beginning, false, topic.start⟩
  phase := if dlqLength partitions topic = 0 then .ended else .reading
  target := min (dlqLength partitions topic) maxEntries
  read := 0
  highWater _ := none
  republished := []

/-- The highest offset with a further one. -/
def raiseHighWater (highWater : ℕ → Option ℕ) (cursor : Cursor) : ℕ → Option ℕ :=
  match highWater cursor.partition with
  | some highest =>
    if highest < cursor.offset then Function.update highWater cursor.partition (some cursor.offset)
    else highWater
  | none => Function.update highWater cursor.partition (some cursor.offset)

/-- The body of the loop for an entry. The loop ends when enough entries have been read. -/
def ReplayWorld.replay (w : ReplayWorld) (published : Bool) (entry : Cursor × EntryBytes) :
    ReplayWorld :=
  let read := w.read + 1
  let w := { w with
    read
    highWater := raiseHighWater w.highWater entry.1
    phase := if w.target ≤ read then .purging else .reading }
  if entry.2 = [] then w
  else if published then { w with republished := w.republished ++ [entry.1] }
  else { w with phase := .ended }

/-- The tail has read a record, and yields it to the loop or not. -/
def ReplayWorld.advance (w : ReplayWorld) (published : Bool) (reader : TailReader) :
    Option (Cursor × EntryBytes) → ReplayWorld
  | some entry => { w with reader }.replay published entry
  | none => { w with reader }

/-- `purge` of a partition up to and with an offset. -/
def Topic.purge (topic : Topic EntryBytes) (p offset : ℕ) : Topic EntryBytes :=
  { topic with start := Function.update topic.start p (max (topic.start p) (offset + 1)) }

/-- One step; `none` when it is not enabled. -/
def replayStep (w : ReplayWorld) : ReplayAction → Option ReplayWorld
  | .park p record => some { w with dlq := w.dlq.publish p record }
  | .connect =>
    if w.phase = .reading ∧ w.reader.connected = false then
      some { w with reader := w.reader.connect w.dlq }
    else none
  | .fail => some { w with reader := w.reader.disconnect }
  | .fetch p published =>
    if w.phase = .reading then
      (w.reader.next w.dlq none p).map fun next => w.advance published next.1 next.2
    else none
  | .purge p =>
    match w.phase, w.highWater p with
    | .purging, some highest => some { w with dlq := w.dlq.purge p highest }
    | _, _ => none
  | .finish => if w.phase = .purging then some { w with phase := .ended } else none

/-- The record has nothing to replay. -/
def TopicRecord.Empty (record : TopicRecord EntryBytes) : Prop :=
  record.value = none ∨ record.value = some []

/-- A reconnect after the first entry leaves nothing unread in the partitions that it does not
resume in. -/
def ResumesRead (w : ReplayWorld) : ReplayAction → Prop
  | .connect => ∀ cursor, w.reader.resume = .after cursor → ∀ p ≠ cursor.partition,
      ∀ record ∈ (w.dlq.log p).drop (w.reader.position p), record.Empty
  | _ => True

/-- The entry was published again in this run, or has no payload. -/
def ReplayWorld.Replayed (w : ReplayWorld) (p offset : ℕ) : Prop :=
  ⟨p, offset⟩ ∈ w.republished ∨ ∃ record, (w.dlq.log p)[offset]? = some record ∧ record.Empty

/-- What the run has read and what it has purged was replayed. -/
structure ReadReplayed (start : ℕ → ℕ) (w : ReplayWorld) : Prop where
  -- a run whose publish has raised purges nothing
  read : w.phase ≠ .ended → ∀ p offset, start p ≤ offset → offset < w.reader.position p →
    w.Replayed p offset
  highWater : w.phase ≠ .ended → ∀ p highest, w.highWater p = some highest →
    ∀ offset, start p ≤ offset → offset ≤ highest → w.Replayed p offset
  purged : ∀ p offset, start p ≤ offset → offset < w.dlq.start p → w.Replayed p offset
  resume : w.reader.resume = .beginning ∨
    ∃ cursor, w.reader.resume = .after cursor ∧ cursor.offset < w.reader.position cursor.partition

section Steps

variable {start : ℕ → ℕ} {w w' : ReplayWorld}

theorem Replayed.mono {p offset : ℕ} (h : w.Replayed p offset)
    (hrepublished : ∀ cursor ∈ w.republished, cursor ∈ w'.republished)
    (hlog : ∀ record, (w.dlq.log p)[offset]? = some record → (w'.dlq.log p)[offset]? = some record) :
    w'.Replayed p offset := by
  obtain hagain | ⟨record, hrecord, hempty⟩ := h
  · exact .inl (hrepublished _ hagain)
  · exact .inr ⟨record, hlog record hrecord, hempty⟩

theorem publish_getElem? {topic : Topic EntryBytes} {q p offset : ℕ} {record record' : TopicRecord EntryBytes}
    (h : (topic.log p)[offset]? = some record) :
    ((topic.publish q record').log p)[offset]? = some record := by
  by_cases hp : p = q
  · subst hp
    have hlt : offset < (topic.log p).length := (List.getElem?_eq_some_iff.mp h).1
    simpa [Topic.publish, List.getElem?_append_left hlt] using h
  · simpa [Topic.publish, hp] using h

/-- Consumers park behind what has been read. -/
theorem ReadReplayed.park (h : ReadReplayed start w) (q : ℕ) (record : TopicRecord EntryBytes) :
    ReadReplayed start { w with dlq := w.dlq.publish q record } where
  read hphase p offset hstart hlt :=
    Replayed.mono (h.read hphase p offset hstart hlt) (fun _ => id) fun _ => publish_getElem?
  highWater hphase p highest hhighest offset hstart hle :=
    Replayed.mono (h.highWater hphase p highest hhighest offset hstart hle) (fun _ => id)
      fun _ => publish_getElem?
  purged p offset hstart hlt :=
    Replayed.mono (h.purged p offset hstart hlt) (fun _ => id) fun _ => publish_getElem?
  resume := h.resume

/-- A reconnect passes by records without a payload only. -/
theorem ReadReplayed.connect (h : ReadReplayed start w) (hphase : w.phase = .reading)
    (hok : ResumesRead w .connect) :
    ReadReplayed start { w with reader := w.reader.connect w.dlq } := by
  have hopen : w.phase ≠ .ended := by rw [hphase]; decide
  refine ⟨fun _ p offset hstart hlt => ?_, h.highWater, h.purged, ?_⟩
  · obtain hbeginning | ⟨cursor, hafter, hread⟩ := h.resume
    · refine h.purged p offset hstart ?_
      simpa [TailReader.connect, ResumePoint.position, hbeginning] using hlt
    · by_cases hold : offset < w.reader.position p
      · exact h.read hopen p offset hstart hold
      · by_cases hp : p = cursor.partition
        · subst hp
          simp only [TailReader.connect, ResumePoint.position, hafter, if_true] at hlt
          omega
        · simp only [TailReader.connect, ResumePoint.position, hafter, if_neg hp] at hlt
          refine .inr ⟨(w.dlq.log p)[offset], List.getElem?_eq_getElem hlt, ?_⟩
          refine hok cursor hafter p hp _ (List.mem_drop_iff_getElem.mpr ?_)
          refine ⟨offset - w.reader.position p, by omega, ?_⟩
          congr 1
          omega
  · obtain hbeginning | ⟨cursor, hafter, hread⟩ := h.resume
    · exact .inl hbeginning
    · refine .inr ⟨cursor, hafter, ?_⟩
      simp [TailReader.connect, ResumePoint.position, hafter]

theorem raiseHighWater_cases {highWater : ℕ → Option ℕ} {cursor : Cursor} {p highest : ℕ}
    (h : raiseHighWater highWater cursor p = some highest) :
    highWater p = some highest ∨ p = cursor.partition ∧ highest = cursor.offset := by
  have hupdated : ∀ {p}, Function.update highWater cursor.partition (some cursor.offset) p = some highest →
      highWater p = some highest ∨ p = cursor.partition ∧ highest = cursor.offset := by
    intro p h
    by_cases hp : p = cursor.partition
    · subst hp
      rw [Function.update_self, Option.some.injEq] at h
      exact .inr ⟨rfl, h.symm⟩
    · rw [Function.update_of_ne hp] at h
      exact .inl h
  cases hcurrent : highWater cursor.partition with
  | none =>
    simp only [raiseHighWater, hcurrent] at h
    exact hupdated h
  | some current =>
    simp only [raiseHighWater, hcurrent] at h
    split_ifs at h
    · exact hupdated h
    · exact .inl h

/-- The next record of a partition is read, and replayed unless the run ends. -/
theorem ReadReplayed.readNext (h : ReadReplayed start w) (hphase : w.phase = .reading) {q : ℕ}
    (hdlq : w'.dlq = w.dlq) (hrepublished : ∀ cursor ∈ w.republished, cursor ∈ w'.republished)
    (hposition : w'.reader.position =
      Function.update w.reader.position q (w.reader.position q + 1))
    (hreplayed : w'.phase ≠ .ended → w'.Replayed q (w.reader.position q))
    (hhighWater : w'.highWater = w.highWater ∨
      w'.highWater = raiseHighWater w.highWater ⟨q, w.reader.position q⟩)
    (hresume : w'.reader.resume = w.reader.resume ∨
      w'.reader.resume = .after ⟨q, w.reader.position q⟩) : ReadReplayed start w' := by
  have hopen : w.phase ≠ .ended := by rw [hphase]; decide
  have hkept : ∀ p offset, w.Replayed p offset → w'.Replayed p offset := fun p offset hold =>
    Replayed.mono hold hrepublished fun record hrecord => by rwa [hdlq]
  have hread : w'.phase ≠ .ended → ∀ offset, start q ≤ offset → offset ≤ w.reader.position q →
      w'.Replayed q offset := by
    intro hphase' offset hstart hle
    obtain hlt | rfl := Nat.lt_or_eq_of_le hle
    · exact hkept q offset (h.read hopen q offset hstart hlt)
    · exact hreplayed hphase'
  refine ⟨fun hphase' p offset hstart hlt => ?_, fun hphase' p highest hhighest offset hstart hle => ?_,
    fun p offset hstart hlt => ?_, ?_⟩
  · rw [hposition] at hlt
    by_cases hp : p = q
    · subst hp
      rw [Function.update_self] at hlt
      exact hread hphase' offset hstart (Nat.le_of_lt_succ hlt)
    · rw [Function.update_of_ne hp] at hlt
      exact hkept p offset (h.read hopen p offset hstart hlt)
  · obtain hsame | hraised := hhighWater
    · rw [hsame] at hhighest
      exact hkept p offset (h.highWater hopen p highest hhighest offset hstart hle)
    · rw [hraised] at hhighest
      obtain hold | ⟨rfl, rfl⟩ := raiseHighWater_cases hhighest
      · exact hkept p offset (h.highWater hopen p highest hold offset hstart hle)
      · exact hread hphase' offset hstart hle
  · rw [hdlq] at hlt
    exact hkept p offset (h.purged p offset hstart hlt)
  · obtain hsame | hmoved := hresume
    · rw [hsame]
      obtain hbeginning | ⟨cursor, hafter, hbehind⟩ := h.resume
      · exact .inl hbeginning
      · refine .inr ⟨cursor, hafter, ?_⟩
        rw [hposition]
        by_cases hp : cursor.partition = q
        · rw [hp] at hbehind ⊢
          rw [Function.update_self]
          exact Nat.lt_succ_of_lt hbehind
        · rwa [Function.update_of_ne hp]
    · refine .inr ⟨_, hmoved, ?_⟩
      rw [hposition, Function.update_self]
      exact Nat.lt_succ_self _

theorem ReadReplayed.fetch (h : ReadReplayed start w) (hphase : w.phase = .reading) {q : ℕ}
    {published : Bool} {reader : TailReader} {yields : Option (Cursor × EntryBytes)}
    (hnext : w.reader.next w.dlq none q = some (reader, yields)) :
    ReadReplayed start (w.advance published reader yields) := by
  obtain ⟨record, hrecord, hposition, ⟨hnull, hresume, rfl⟩ | ⟨value, hvalue, hresume, hyields⟩⟩ :=
    TailReader.next_cases hnext
  · exact h.readNext hphase rfl (fun _ => id) hposition
      (fun _ => .inr ⟨record, hrecord, .inl hnull⟩) (.inl rfl) (.inl hresume)
  · rw [if_pos (.inl rfl)] at hyields
    subst hyields
    by_cases hempty : value = []
    · subst hempty
      exact h.readNext hphase rfl (fun _ => id) hposition
        (fun _ => .inr ⟨record, hrecord, .inr hvalue⟩) (.inr rfl) (.inr hresume)
    · cases published with
      | true =>
        simp only [ReplayWorld.advance, ReplayWorld.replay, if_neg hempty, if_true]
        exact h.readNext hphase rfl (fun _ hold => List.mem_append_left _ hold) hposition
          (fun _ => .inl (List.mem_append_right _ (List.mem_singleton.mpr rfl))) (.inr rfl)
          (.inr hresume)
      | false =>
        simp only [ReplayWorld.advance, ReplayWorld.replay, if_neg hempty, Bool.false_eq_true, if_false]
        exact h.readNext hphase rfl (fun _ => id) hposition (fun hended => absurd rfl hended) (.inr rfl)
          (.inr hresume)

theorem readReplayed_step {action : ReplayAction} (h : ReadReplayed start w)
    (hok : ResumesRead w action) (hstep : replayStep w action = some w') : ReadReplayed start w' := by
  cases action with
  | park p record =>
    cases hstep
    exact h.park p record
  | connect =>
    simp only [replayStep, Option.ite_none_right_eq_some, Option.some.injEq] at hstep
    obtain ⟨⟨hphase, -⟩, rfl⟩ := hstep
    exact h.connect hphase hok
  | fail =>
    cases hstep
    exact ⟨h.read, h.highWater, h.purged, h.resume⟩
  | fetch p published =>
    simp only [replayStep, Option.ite_none_right_eq_some] at hstep
    obtain ⟨hphase, hstep⟩ := hstep
    obtain ⟨⟨reader, yields⟩, hnext, rfl⟩ := Option.map_eq_some_iff.mp hstep
    exact h.fetch hphase hnext
  | purge p =>
    simp only [replayStep] at hstep
    split at hstep
    · rename_i highest hphase hhighest
      cases hstep
      refine ⟨h.read, h.highWater, fun p' offset hstart hlt => ?_, h.resume⟩
      by_cases hp : p' = p
      · subst hp
        simp only [Topic.purge, Function.update_self, lt_max_iff] at hlt
        obtain hold | hnew := hlt
        · exact h.purged p' offset hstart hold
        · exact h.highWater (by rw [hphase]; decide) p' highest hhighest offset hstart
            (Nat.le_of_lt_succ hnew)
      · simp only [Topic.purge, Function.update_of_ne hp] at hlt
        exact h.purged p' offset hstart hlt
    · cases hstep
  | finish =>
    simp only [replayStep, Option.ite_none_right_eq_some, Option.some.injEq] at hstep
    obtain ⟨-, rfl⟩ := hstep
    exact ⟨fun hended => absurd rfl hended, fun hended => absurd rfl hended, h.purged, h.resume⟩

end Steps

/-- **Replay deletes only what it has replayed.** In every run of `replay_dlq` over any topic
whose reconnects leave nothing unread in the partitions that they do not resume in: an entry
that the run has purged was published on the main stream again, or has no payload. -/
theorem purged_was_replayed {partitions maxEntries : ℕ} {topic : Topic EntryBytes} {w' : ReplayWorld}
    {actions : List ReplayAction}
    (hmeets : Transition.Meets replayStep ResumesRead (beginReplay partitions maxEntries topic) actions)
    (hrun : Transition.run replayStep (beginReplay partitions maxEntries topic) actions = some w')
    {p offset : ℕ} (hstart : topic.start p ≤ offset) (hpurged : offset < w'.dlq.start p) :
    ⟨p, offset⟩ ∈ w'.republished ∨
      ∃ record, (w'.dlq.log p)[offset]? = some record ∧ record.Empty := by
  have hinit : ReadReplayed topic.start (beginReplay partitions maxEntries topic) := by
    refine ⟨fun _ p offset hstart hlt => ?_, fun _ p highest hhighest => ?_,
      fun p offset hstart hlt => ?_, .inl rfl⟩
    · exact absurd hlt (Nat.not_lt.mpr hstart)
    · cases hhighest
    · exact absurd hlt (Nat.not_lt.mpr hstart)
  exact (Transition.run_invariant (fun _ _ _ h hok hstep => readReplayed_step h hok hstep) hinit hmeets
    hrun).purged p offset hstart hpurged

namespace Sample

def parked (byte : UInt8) : TopicRecord EntryBytes := ⟨none, some [byte]⟩

/-- Two entries on the first partition and one on the second. -/
def parkedThree : Topic EntryBytes :=
  ⟨fun _ => 0, fun p => if p = 0 then [parked 1, parked 2] else if p = 1 then [parked 3] else []⟩

/-- The tail is cut off after the second partition was read to its end. -/
def replayedAll : List ReplayAction :=
  [.connect, .fetch 1 true, .fetch 0 true, .fail, .connect, .fetch 0 true, .purge 0, .purge 1]

/-- It is cut off after the first entry; a further entry is parked on the second partition. -/
def replayedPast : List ReplayAction :=
  [.connect, .fetch 0 true, .fail, .connect, .park 1 (parked 4), .fetch 0 true, .fetch 1 true,
    .purge 0, .purge 1]

end Sample

theorem purged_was_replayed_all :
    ∃ w', Transition.run replayStep (beginReplay 2 1000 Sample.parkedThree) Sample.replayedAll =
        some w' ∧ 0 < w'.dlq.start 1 ∧
      (⟨1, 0⟩ ∈ w'.republished ∨ ∃ record, (w'.dlq.log 1)[0]? = some record ∧ record.Empty) := by
  have hmeets : Transition.Meets replayStep ResumesRead (beginReplay 2 1000 Sample.parkedThree)
      Sample.replayedAll := by
    refine Transition.meets_cons rfl (fun cursor hafter => by cases hafter) ?_
    iterate 3 refine Transition.meets_cons rfl trivial ?_
    refine Transition.meets_cons rfl (fun cursor hafter p hp record hrecord => ?_) ?_
    · cases hafter
      match p, hp, hrecord with
      | 0, hp, _ => exact absurd rfl hp
      | 1, _, hrecord => cases hrecord
      | p + 2, _, hrecord => cases hrecord
    · iterate 3 refine Transition.meets_cons rfl trivial ?_
      trivial
  exact ⟨_, rfl, Nat.one_pos, purged_was_replayed hmeets rfl (Nat.zero_le _) Nat.one_pos⟩

/-- The entry on the second partition is gone and was not replayed. -/
theorem replay_loses_entry :
    ∃ w', Transition.run replayStep (beginReplay 2 1000 Sample.parkedThree) Sample.replayedPast =
        some w' ∧ 0 < w'.dlq.start 1 ∧
      ¬(⟨1, 0⟩ ∈ w'.republished ∨ ∃ record, (w'.dlq.log 1)[0]? = some record ∧ record.Empty) := by
  refine ⟨_, rfl, Nat.two_pos, ?_⟩
  rintro (hagain | ⟨record, hrecord, hempty⟩)
  · revert hagain
    decide
  · cases hrecord
    obtain hnull | hblank := hempty
    · cases hnull
    · cases hblank

end LlamaTrade
