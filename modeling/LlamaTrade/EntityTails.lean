import LlamaTrade.KafkaTails
import Mathlib.Order.MinMax

/-!
# Tails of one entity

A per-entity stream is a key of a topic that many entities share: the key fixes the partition,
and the tail drops the records of other keys. The cursor moves with the dropped records too,
also with those of other partitions, from which a reconnect does not come back to the entity's
partition. Where each reconnect after the first record resumes in the entity's partition, or
finds nothing of the entity unread there, the tail yields the entity's records without a gap.
-/

namespace LlamaTrade

/-- The topic, a tail of one entity's stream, and what it has yielded. -/
structure TailWorld (V : Type) where
  topic : Topic V
  reader : TailReader
  yielded : List (Cursor × V)

inductive TailAction (V : Type) where
  | publish (p : ℕ) (record : TopicRecord V)
  | connect
  | fail
  | fetch (p : ℕ)

section Entity

variable {V : Type}

/-- One step; a record with a key goes to the partition of the key. -/
def tailStep (route : String → ℕ) (entity : String) (w : TailWorld V) :
    TailAction V → Option (TailWorld V)
  | .publish p record =>
    if ∀ key ∈ record.key, p = route key then some { w with topic := w.topic.publish p record }
    else none
  | .connect => if w.reader.connected then none else some { w with reader := w.reader.connect w.topic }
  | .fail => some { w with reader := w.reader.disconnect }
  | .fetch p => (w.reader.next w.topic (some entity) p).map fun next =>
    { w with reader := next.1, yielded := w.yielded ++ next.2.toList }

/-- The values of the entity's records. -/
def entityValues (entity : String) (log : List (TopicRecord V)) : List V :=
  log.filterMap fun record => if record.key = some entity then record.value else none

/-- The records with keys are in the partitions of their keys, and the tail has not begun. -/
structure NewTail (route : String → ℕ) (w : TailWorld V) : Prop where
  routed : ∀ p, ∀ record ∈ w.topic.log p, ∀ key ∈ record.key, p = route key
  disconnected : w.reader.connected = false
  yielded : w.yielded = []

/-- A reconnect after the first record resumes in the entity's partition, or the entity has no
record there that is still to be read. -/
def ResumesEntity (route : String → ℕ) (entity : String) (w : TailWorld V) : TailAction V → Prop
  | .connect => w.yielded ≠ [] →
      (∃ offset, w.reader.resume = .after ⟨route entity, offset⟩) ∨
        entityValues entity ((w.topic.log (route entity)).drop (w.reader.position (route entity))) = []
  | _ => True

/-- What has been yielded is what the entity's partition has between two offsets, the second of
which is the reader's position. -/
structure Contiguous (entity : String) (log : List (TopicRecord V)) (reader : TailReader) (p : ℕ)
    (yielded : List V) (first : ℕ) : Prop where
  bound : first ≤ reader.position p ∧ reader.position p ≤ log.length
  values : yielded = entityValues entity ((log.take (reader.position p)).drop first)
  -- nothing with a value has been read since the cursor, if it is in the partition
  resume : ∃ cursor, reader.resume = .after cursor ∧ (cursor.partition = p →
    first ≤ cursor.offset + 1 ∧ cursor.offset + 1 ≤ reader.position p ∧
      entityValues entity ((log.take (reader.position p)).drop (cursor.offset + 1)) = [])

structure TailSound (route : String → ℕ) (entity : String) (w : TailWorld V) : Prop where
  routed : ∀ p, ∀ record ∈ w.topic.log p, ∀ key ∈ record.key, p = route key
  contiguous : w.yielded = [] ∨ ∃ first, Contiguous entity (w.topic.log (route entity)) w.reader
    (route entity) (w.yielded.map Prod.snd) first

variable {route : String → ℕ} {entity : String} {log : List (TopicRecord V)} {reader : TailReader}
  {p first : ℕ} {yielded : List V} {w w' : TailWorld V}

theorem entityValues_append (log log' : List (TopicRecord V)) :
    entityValues entity (log ++ log') = entityValues entity log ++ entityValues entity log' :=
  List.filterMap_append

/-- The records between two offsets, split at a third. -/
theorem take_drop_split {a b c : ℕ} (hab : a ≤ b) (hbc : b ≤ c) (hc : c ≤ log.length) :
    (log.take c).drop a = (log.take b).drop a ++ (log.take c).drop b := by
  have hsplit : log.take c = log.take b ++ (log.take c).drop b := by
    conv_lhs => rw [← List.take_append_drop b (log.take c), List.take_take, min_eq_left hbc]
  rw [hsplit, List.drop_append_of_le_length (by rw [List.length_take]; omega)]
  congr 1
  rw [← hsplit]

theorem values_split {a b c : ℕ} (hab : a ≤ b) (hbc : b ≤ c) (hc : c ≤ log.length) :
    entityValues entity ((log.take c).drop a) =
      entityValues entity ((log.take b).drop a) ++ entityValues entity ((log.take c).drop b) := by
  rw [take_drop_split hab hbc hc, entityValues_append]

/-- What a partition has up to an offset does not change when it grows. -/
theorem Contiguous.publish (h : Contiguous entity log reader p yielded first)
    (record : TopicRecord V) : Contiguous entity (log ++ [record]) reader p yielded first := by
  have hsame : (log ++ [record]).take (reader.position p) = log.take (reader.position p) :=
    List.take_append_of_le_length h.bound.2
  refine ⟨⟨h.bound.1, ?_⟩, ?_, ?_⟩
  · rw [List.length_append]
    exact Nat.le_add_right_of_le h.bound.2
  · rw [hsame]
    exact h.values
  · rw [hsame]
    exact h.resume

/-- A step that leaves the reader in the partition, with its cursor in another. -/
theorem Contiguous.elsewhere (h : Contiguous entity log reader p yielded first) {reader' : TailReader}
    (hposition : reader'.position p = reader.position p)
    (hresume : reader'.resume = reader.resume ∨
      ∃ cursor, reader'.resume = .after cursor ∧ cursor.partition ≠ p) :
    Contiguous entity log reader' p yielded first := by
  refine ⟨?_, ?_, ?_⟩
  · rw [hposition]
    exact h.bound
  · rw [hposition]
    exact h.values
  · rw [hposition]
    obtain hsame | ⟨cursor, hafter, hother⟩ := hresume
    · rw [hsame]
      exact h.resume
    · exact ⟨cursor, hafter, fun hp => absurd hp hother⟩

/-- A reconnect that resumes in the partition. -/
theorem Contiguous.resumed (h : Contiguous entity log reader p yielded first) {reader' : TailReader}
    {offset : ℕ} (hcursor : reader.resume = .after ⟨p, offset⟩) (hresume : reader'.resume = reader.resume)
    (hposition : reader'.position p = offset + 1) :
    Contiguous entity log reader' p yielded first := by
  obtain ⟨cursor, hafter, hread⟩ := h.resume
  rw [hcursor] at hafter
  cases hafter
  obtain ⟨hfirst, hbehind, hnone⟩ := hread rfl
  have hvalues : entityValues entity _ = _ := values_split hfirst hbehind h.bound.2
  rw [hnone, List.append_nil, ← h.values] at hvalues
  refine ⟨?_, ?_, ⟨⟨p, offset⟩, hresume.trans hcursor, fun _ => ?_⟩⟩
  · rw [hposition]
    exact ⟨hfirst, hbehind.trans h.bound.2⟩
  · rw [hposition]
    exact hvalues
  · rw [hposition]
    exact ⟨hfirst, le_rfl, by rw [List.drop_take_self]; rfl⟩

/-- A reconnect that goes to the end of the partition, with nothing of the entity unread. -/
theorem Contiguous.skipped (h : Contiguous entity log reader p yielded first) {reader' : TailReader}
    {cursor : Cursor} (hcursor : reader.resume = .after cursor) (hother : cursor.partition ≠ p)
    (hresume : reader'.resume = reader.resume) (hposition : reader'.position p = log.length)
    (hread : entityValues entity (log.drop (reader.position p)) = []) :
    Contiguous entity log reader' p yielded first := by
  have hvalues : entityValues entity _ = _ := values_split h.bound.1 h.bound.2 le_rfl
  rw [← h.values, List.take_length, hread, List.append_nil] at hvalues
  refine ⟨?_, ?_, ⟨cursor, hresume.trans hcursor, fun hp => absurd hp hother⟩⟩
  · rw [hposition]
    exact ⟨h.bound.1.trans h.bound.2, le_rfl⟩
  · rw [hposition, List.take_length]
    exact hvalues.symm

/-- The next record of the partition, which may be one of the entity. -/
theorem Contiguous.next (h : Contiguous entity log reader p yielded first) {record : TopicRecord V}
    (hrecord : log[reader.position p]? = some record) {reader' : TailReader}
    (hposition : reader'.position p = reader.position p + 1)
    (hresume : record.value = none ∧ reader'.resume = reader.resume ∨
      reader'.resume = .after ⟨p, reader.position p⟩) :
    Contiguous entity log reader' p (yielded ++ entityValues entity [record]) first := by
  have hlt : reader.position p < log.length := (List.getElem?_eq_some_iff.mp hrecord).1
  have htake : log.take (reader.position p + 1) = log.take (reader.position p) ++ [record] := by
    rw [List.take_add_one, hrecord]
    rfl
  have hdrop : ∀ a ≤ reader.position p, (log.take (reader.position p + 1)).drop a =
      (log.take (reader.position p)).drop a ++ [record] := fun a ha => by
    rw [htake, List.drop_append_of_le_length (by rw [List.length_take]; omega)]
  refine ⟨?_, ?_, ?_⟩
  · rw [hposition]
    exact ⟨Nat.le_succ_of_le h.bound.1, hlt⟩
  · rw [hposition, hdrop first h.bound.1, entityValues_append, ← h.values]
  · obtain ⟨hnull, hsame⟩ | hmoved := hresume
    · obtain ⟨cursor, hafter, hread⟩ := h.resume
      refine ⟨cursor, hsame.trans hafter, fun hp => ?_⟩
      obtain ⟨hfirst, hbehind, hnone⟩ := hread hp
      rw [hposition, hdrop _ hbehind, entityValues_append, hnone]
      refine ⟨hfirst, Nat.le_succ_of_le hbehind, ?_⟩
      simp [entityValues, hnull]
    · refine ⟨_, hmoved, fun _ => ?_⟩
      rw [hposition]
      exact ⟨Nat.le_succ_of_le h.bound.1, le_rfl, by rw [List.drop_take_self]; rfl⟩

/-- The first record that is yielded. -/
theorem contiguous_first {record : TopicRecord V} (hrecord : log[reader.position p]? = some record)
    {reader' : TailReader} (hposition : reader'.position p = reader.position p + 1)
    (hresume : reader'.resume = .after ⟨p, reader.position p⟩) :
    Contiguous entity log reader' p (entityValues entity [record]) (reader.position p) := by
  have hlt : reader.position p < log.length := (List.getElem?_eq_some_iff.mp hrecord).1
  have htake : log.take (reader.position p + 1) = log.take (reader.position p) ++ [record] := by
    rw [List.take_add_one, hrecord]
    rfl
  refine ⟨?_, ?_, ⟨_, hresume, fun _ => ?_⟩⟩
  · rw [hposition]
    exact ⟨Nat.le_succ _, hlt⟩
  · rw [hposition, htake, List.drop_append_of_le_length (by rw [List.length_take]; omega),
      List.drop_take_self]
    rfl
  · rw [hposition]
    exact ⟨Nat.le_succ _, le_rfl, by rw [List.drop_take_self]; rfl⟩

/-- A record of another partition is not the entity's. -/
theorem entityValues_elsewhere {record : TopicRecord V} (hp : p ≠ route entity)
    (hrouted : ∀ key ∈ record.key, p = route key) : record.key ≠ some entity :=
  fun hkey => hp (hrouted entity hkey)

theorem TailSound.fetch (h : TailSound route entity w) {q : ℕ} {reader : TailReader}
    {yields : Option (Cursor × V)}
    (hnext : w.reader.next w.topic (some entity) q = some (reader, yields)) :
    TailSound route entity { w with reader, yielded := w.yielded ++ yields.toList } := by
  obtain ⟨record, hrecord, hposition, hread⟩ := TailReader.next_cases hnext
  refine ⟨h.routed, ?_⟩
  have hvalues : yields.toList.map Prod.snd = entityValues entity [record] := by
    obtain ⟨hnull, -, rfl⟩ | ⟨value, hvalue, -, rfl⟩ := hread
    · simp [entityValues, hnull]
    · by_cases hkey : record.key = some entity
      · simp [entityValues, hkey, hvalue]
      · simp [entityValues, hkey]
  by_cases hq : q = route entity
  · subst hq
    have hmoved : reader.position (route entity) = w.reader.position (route entity) + 1 := by
      rw [hposition, Function.update_self]
    obtain hnone | ⟨first, hcontiguous⟩ := h.contiguous
    · obtain ⟨-, -, rfl⟩ | ⟨value, -, hresume, -⟩ := hread
      · exact .inl (by simp [hnone])
      · refine .inr ⟨w.reader.position (route entity), ?_⟩
        rw [hnone, List.nil_append, hvalues]
        exact contiguous_first hrecord hmoved hresume
    · refine .inr ⟨first, ?_⟩
      rw [List.map_append, hvalues]
      refine hcontiguous.next hrecord hmoved ?_
      obtain ⟨hnull, hsame, -⟩ | ⟨value, -, hresume, -⟩ := hread
      · exact .inl ⟨hnull, hsame⟩
      · exact .inr hresume
  · have hkey : record.key ≠ some entity :=
      entityValues_elsewhere hq (h.routed q record (List.mem_of_getElem? hrecord))
    have hnothing : yields = none := by
      obtain ⟨-, -, hyields⟩ | ⟨value, -, -, hyields⟩ := hread
      · exact hyields
      · simpa [hkey] using hyields
    rw [hnothing, Option.toList_none, List.append_nil]
    refine h.contiguous.imp_right fun hcontiguous => ?_
    obtain ⟨first, hcontiguous⟩ := hcontiguous
    refine ⟨first, hcontiguous.elsewhere ?_ ?_⟩
    · rw [hposition, Function.update_of_ne (Ne.symm hq)]
    · obtain ⟨-, hsame, -⟩ | ⟨value, -, hresume, -⟩ := hread
      · exact .inl hsame
      · exact .inr ⟨_, hresume, hq⟩

theorem TailSound.connect (h : TailSound route entity w) (hok : ResumesEntity route entity w .connect) :
    TailSound route entity { w with reader := w.reader.connect w.topic } := by
  refine ⟨h.routed, ?_⟩
  obtain hnone | ⟨first, hcontiguous⟩ := h.contiguous
  · exact .inl hnone
  · by_cases hnone : w.yielded = []
    · exact .inl hnone
    · refine .inr ⟨first, ?_⟩
      obtain ⟨cursor, hafter, -⟩ := hcontiguous.resume
      obtain ⟨q, offset⟩ := cursor
      by_cases hq : q = route entity
      · subst hq
        exact hcontiguous.resumed hafter rfl (by simp [TailReader.connect, ResumePoint.position, hafter])
      · obtain ⟨offset', hcursor⟩ | hread := hok hnone
        · rw [hafter] at hcursor
          cases hcursor
          exact absurd rfl hq
        · refine hcontiguous.skipped hafter hq rfl ?_ hread
          simp [TailReader.connect, ResumePoint.position, hafter, Ne.symm hq]

theorem tailSound_step {action : TailAction V} (h : TailSound route entity w)
    (hok : ResumesEntity route entity w action) (hstep : tailStep route entity w action = some w') :
    TailSound route entity w' := by
  cases action with
  | publish p record =>
    simp only [tailStep, Option.ite_none_right_eq_some, Option.some.injEq] at hstep
    obtain ⟨hroute, rfl⟩ := hstep
    refine ⟨fun p' record' hrecord' => ?_, h.contiguous.imp_right fun hcontiguous => ?_⟩
    · by_cases hp : p' = p
      · subst hp
        simp only [Topic.publish, Function.update_self, List.mem_append, List.mem_singleton] at hrecord'
        obtain hold | rfl := hrecord'
        · exact h.routed p' record' hold
        · exact hroute
      · simp only [Topic.publish, Function.update_of_ne hp] at hrecord'
        exact h.routed p' record' hrecord'
    · obtain ⟨first, hcontiguous⟩ := hcontiguous
      refine ⟨first, ?_⟩
      by_cases hp : route entity = p
      · subst hp
        simpa [Topic.publish] using hcontiguous.publish record
      · simpa [Topic.publish, hp] using hcontiguous
  | connect =>
    simp only [tailStep, Option.ite_none_left_eq_some, Option.some.injEq] at hstep
    obtain ⟨-, rfl⟩ := hstep
    exact h.connect hok
  | fail =>
    cases hstep
    refine ⟨h.routed, h.contiguous.imp_right fun hcontiguous => ?_⟩
    obtain ⟨first, hcontiguous⟩ := hcontiguous
    exact ⟨first, hcontiguous.elsewhere rfl (.inl rfl)⟩
  | fetch p =>
    obtain ⟨⟨reader, yields⟩, hnext, rfl⟩ := Option.map_eq_some_iff.mp hstep
    exact h.fetch hnext

/-- **A tail of an entity has no gaps.** In every run of a tail of one entity's stream whose
reconnects each resume in the entity's partition, or leave nothing of the entity unread there:
what it has yielded are consecutive records of the entity, each once and in order. -/
theorem entity_tail_contiguous {actions : List (TailAction V)} (hnew : NewTail route w)
    (hmeets : Transition.Meets (tailStep route entity) (ResumesEntity route entity) w actions)
    (hrun : Transition.run (tailStep route entity) w actions = some w') :
    ∃ before after, entityValues entity (w'.topic.log (route entity)) =
      before ++ w'.yielded.map Prod.snd ++ after := by
  have hsound : TailSound route entity w' :=
    Transition.run_invariant (fun _ _ _ h hok hstep => tailSound_step h hok hstep)
      ⟨hnew.routed, .inl hnew.yielded⟩ hmeets hrun
  obtain hnone | ⟨first, hcontiguous⟩ := hsound.contiguous
  · exact ⟨entityValues entity (w'.topic.log (route entity)), [], by simp [hnone]⟩
  · refine ⟨entityValues entity ((w'.topic.log (route entity)).take first),
      entityValues entity ((w'.topic.log (route entity)).drop (w'.reader.position (route entity))), ?_⟩
    have hbefore : ((w'.topic.log (route entity)).take (w'.reader.position (route entity))).take first =
        (w'.topic.log (route entity)).take first := by
      rw [List.take_take, min_eq_left hcontiguous.bound.1]
    rw [hcontiguous.values, ← entityValues_append, ← entityValues_append, ← hbefore,
      List.take_append_drop, List.take_append_drop]

end Entity

namespace Sample

/-- Two entities on two partitions. -/
def twoPartitions (key : String) : ℕ := if key = "a" then 0 else 1

def quietTail : TailWorld ℕ := ⟨⟨fun _ => 0, fun _ => []⟩, ⟨.new, false, fun _ => 0⟩, []⟩

theorem quietTail_new : NewTail twoPartitions quietTail where
  routed _ _ hrecord := by cases hrecord
  disconnected := rfl
  yielded := rfl

/-- The tail reads a record of the entity, is cut off, and misses nothing. -/
def resumedInPlace : List (TailAction ℕ) :=
  [.connect, .publish 0 ⟨some "a", some 1⟩, .fetch 0, .fail, .publish 0 ⟨some "a", some 2⟩, .connect,
    .fetch 0]

/-- It reads a record of the entity and then one of the other entity; while it is cut off, the
entity gets a second record. -/
def resumedElsewhere : List (TailAction ℕ) :=
  [.connect, .publish 0 ⟨some "a", some 1⟩, .fetch 0, .publish 1 ⟨some "b", some 7⟩, .fetch 1, .fail,
    .publish 0 ⟨some "a", some 2⟩, .connect, .publish 0 ⟨some "a", some 3⟩, .fetch 0]

end Sample

theorem entity_tail_contiguous_resumed :
    ∃ w', Transition.run (tailStep Sample.twoPartitions "a") Sample.quietTail Sample.resumedInPlace =
        some w' ∧ w'.yielded.map Prod.snd = [1, 2] ∧
      ∃ before after, entityValues "a" (w'.topic.log (Sample.twoPartitions "a")) =
        before ++ w'.yielded.map Prod.snd ++ after := by
  have hmeets : Transition.Meets (tailStep Sample.twoPartitions "a")
      (ResumesEntity Sample.twoPartitions "a") Sample.quietTail Sample.resumedInPlace := by
    refine Transition.meets_cons rfl (fun hsome => absurd rfl hsome) ?_
    iterate 4 refine Transition.meets_cons rfl trivial ?_
    refine Transition.meets_cons rfl (fun _ => .inl ⟨0, rfl⟩) ?_
    exact Transition.meets_cons rfl trivial trivial
  exact ⟨_, rfl, rfl, entity_tail_contiguous Sample.quietTail_new hmeets rfl⟩

/-- The second record of the entity is not among the values yielded, the third is. -/
theorem entity_tail_skips_record :
    ∃ w', Transition.run (tailStep Sample.twoPartitions "a") Sample.quietTail
        Sample.resumedElsewhere = some w' ∧
      ¬∃ before after, entityValues "a" (w'.topic.log (Sample.twoPartitions "a")) =
        before ++ w'.yielded.map Prod.snd ++ after := by
  refine ⟨_, rfl, ?_⟩
  have hskipped : ¬[1, 3] <:+: [1, 2, 3] := by decide
  rintro ⟨before, after, hvalues⟩
  exact hskipped ⟨before, after, hvalues.symm⟩

end LlamaTrade
