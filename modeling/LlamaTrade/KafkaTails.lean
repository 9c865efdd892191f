import LlamaTrade.StreamConsumers

/-!
# Tails of Kafka topics

`KafkaTransport.tail` (`transport/kafka.py`): a reader outside any group that goes through all
partitions of a topic, each in the order of its offsets. After a broker error it connects again
and resumes from the cursor of the record that it has read last. The cursor names one
partition, which is read on after its offset; every other partition is read from its end.
-/

namespace LlamaTrade

/-- A record of a topic; `value` may be null. -/
structure TopicRecord (V : Type) where
  key : Option String
  value : Option V

/-- The partitions of a topic. Records before the start of a partition have been deleted. -/
structure Topic (V : Type) where
  start : ℕ → ℕ
  log : ℕ → List (TopicRecord V)

/-- `CURSOR_NEW`, `CURSOR_BEGIN` or the cursor of a record. -/
inductive ResumePoint where
  | new
  | beginning
  | after (cursor : Cursor)
  deriving DecidableEq

/-- The reader: where it resumes, whether it is connected, and the next offset of each
partition, which is kept when the connection is lost. -/
structure TailReader where
  resume : ResumePoint
  connected : Bool
  position : ℕ → ℕ

section Tails

variable {V : Type}

/-- Where a consumer begins that resumes there (`_tail_consumer`, `_seek_to_cursor`). -/
def ResumePoint.position (topic : Topic V) : ResumePoint → ℕ → ℕ
  | .new, p => (topic.log p).length
  | .beginning, p => topic.start p
  | .after cursor, p => if p = cursor.partition then cursor.offset + 1 else (topic.log p).length

def Topic.publish (topic : Topic V) (p : ℕ) (record : TopicRecord V) : Topic V :=
  { topic with log := Function.update topic.log p (topic.log p ++ [record]) }

def TailReader.connect (reader : TailReader) (topic : Topic V) : TailReader :=
  { reader with connected := true, position := reader.resume.position topic }

def TailReader.disconnect (reader : TailReader) : TailReader := { reader with connected := false }

/-- The next record of a partition: the reader after it, and what it yields to a tail of the
key, or to one of all keys. A record without a value does not move the cursor. -/
def TailReader.next (reader : TailReader) (topic : Topic V) (routingKey : Option String) (p : ℕ) :
    Option (TailReader × Option (Cursor × V)) :=
  if reader.connected then
    ((topic.log p)[reader.position p]?).map fun record =>
      let cursor := ⟨p, reader.position p⟩
      let moved := Function.update reader.position p (reader.position p + 1)
      match record.value with
      | none => ({ reader with position := moved }, none)
      | some value =>
        ({ reader with resume := .after cursor, position := moved },
          if routingKey = none ∨ record.key = routingKey then some (cursor, value) else none)
  else none

/-- What is read: a record without a value moves the position only. -/
theorem TailReader.next_cases {reader reader' : TailReader} {topic : Topic V}
    {routingKey : Option String} {p : ℕ} {yields : Option (Cursor × V)}
    (h : reader.next topic routingKey p = some (reader', yields)) :
    ∃ record, (topic.log p)[reader.position p]? = some record ∧
      reader'.position = Function.update reader.position p (reader.position p + 1) ∧
      (record.value = none ∧ reader'.resume = reader.resume ∧ yields = none ∨
        ∃ value, record.value = some value ∧ reader'.resume = .after ⟨p, reader.position p⟩ ∧
          yields = if routingKey = none ∨ record.key = routingKey then
            some (⟨p, reader.position p⟩, value) else none) := by
  unfold TailReader.next at h
  split_ifs at h
  obtain ⟨record, hrecord, h⟩ := Option.map_eq_some_iff.mp h
  refine ⟨record, hrecord, ?_⟩
  cases hvalue : record.value with
  | none =>
    simp only [hvalue] at h
    cases h
    exact ⟨rfl, .inl ⟨rfl, rfl, rfl⟩⟩
  | some value =>
    simp only [hvalue] at h
    cases h
    exact ⟨rfl, .inr ⟨value, rfl, rfl, rfl⟩⟩

end Tails

end LlamaTrade
