import LlamaTrade.TransitionRuns
import Mathlib.Data.List.Nodup

/-!
# Bar ingestion

The write-through of live minute bars (`BarIngestor` in `ingest/stream.py`). Bars are buffered
and flushed in batches, to the store and then to the bus. The calls take turns under one lock,
which is held over a whole flush. A flush empties the buffer before it writes, so a bar is kept
exactly as long as no flush loses one of its rows.
-/

namespace LlamaTrade

/-- How a write of several rows ends: it may raise after some of them got through. -/
inductive BatchWrite (α : Type) where
  | ok
  | raises (through : α → Bool)

def BatchWrite.isOk {α : Type} : BatchWrite α → Bool
  | ok => true
  | raises _ => false

/-- The rows that got through. -/
def BatchWrite.through {α : Type} (rows : List α) : BatchWrite α → List α
  | ok => rows
  | raises through => rows.filter through

/-- A buffered row, with its place in the order in which the bars were handed over. -/
structure BufferedRow (BarRow : Type) where
  number : ℕ
  row : BarRow

/-- `BarIngestor`, with what the store and the bus have received from it. -/
structure BarIngestor (BarRow : Type) where
  maxBuffer : ℕ
  buffer : List (BufferedRow BarRow)
  /-- The number of bars handed to `handle_bar`. -/
  handed : ℕ
  persisted : List (BufferedRow BarRow)
  published : List (BufferedRow BarRow)

/-- How the writes of a flush end. -/
structure FlushWrites (BarRow : Type) where
  upsert : BatchWrite (BufferedRow BarRow)
  publish : BatchWrite (BufferedRow BarRow)

inductive IngestorCall (BarRow : Type) where
  | handleBar (row : BarRow) (writes : FlushWrites BarRow)
  | flush (writes : FlushWrites BarRow)

namespace BarIngestor

variable {BarRow : Type}

/-- A new ingestor. -/
def start (maxBuffer : ℕ) : BarIngestor BarRow where
  maxBuffer := maxBuffer
  buffer := []
  handed := 0
  persisted := []
  published := []

/-- `_flush_locked`. -/
def flushLocked (ingestor : BarIngestor BarRow) (writes : FlushWrites BarRow) :
    BarIngestor BarRow :=
  if ingestor.buffer.isEmpty then ingestor
  else
    let rows := ingestor.buffer
    let persisted := ingestor.persisted ++ writes.upsert.through rows
    match writes.upsert with
    | .ok => { ingestor with
        buffer := []
        persisted := persisted
        published := ingestor.published ++ writes.publish.through rows }
    | .raises _ => { ingestor with buffer := [], persisted := persisted }

/-- The first lines of `handle_bar`. -/
def append (ingestor : BarIngestor BarRow) (row : BarRow) : BarIngestor BarRow :=
  { ingestor with
    buffer := ingestor.buffer ++ [⟨ingestor.handed, row⟩]
    handed := ingestor.handed + 1 }

/-- `handle_bar`. -/
def handleBar (ingestor : BarIngestor BarRow) (row : BarRow) (writes : FlushWrites BarRow) :
    BarIngestor BarRow :=
  let ingestor := ingestor.append row
  if ingestor.maxBuffer ≤ ingestor.buffer.length then ingestor.flushLocked writes else ingestor

/-- One call; a raised exception leaves the state as it is then. -/
def step (ingestor : BarIngestor BarRow) : IngestorCall BarRow → Option (BarIngestor BarRow)
  | .handleBar row writes => some (ingestor.handleBar row writes)
  | .flush writes => some (ingestor.flushLocked writes)

/-- Every bar that was handed over is in the buffer, or persisted and published. -/
def Keeps (ingestor : BarIngestor BarRow) : Prop :=
  ∀ n < ingestor.handed, n ∈ ingestor.buffer.map (·.number) ∨
    n ∈ ingestor.persisted.map (·.number) ∧ n ∈ ingestor.published.map (·.number)

/-! ## Flushes -/

/-- The store takes the rows, and the bus receives all of them, even if it raises then. -/
def Deliver (writes : FlushWrites BarRow) (rows : List (BufferedRow BarRow)) : Prop :=
  writes.upsert.isOk = true ∧ ∀ row ∈ rows, row ∈ writes.publish.through rows

/-- If the call flushes anything, the flush delivers its rows. -/
def Delivers (ingestor : BarIngestor BarRow) : IngestorCall BarRow → Prop
  | .handleBar row writes =>
    ingestor.maxBuffer ≤ (ingestor.append row).buffer.length →
      Deliver writes (ingestor.append row).buffer
  | .flush writes => ingestor.buffer ≠ [] → Deliver writes ingestor.buffer

/-- The numbers of the rows, which are given in order. -/
structure Numbered (ingestor : BarIngestor BarRow) : Prop where
  nodup : (ingestor.buffer.map (·.number)).Nodup
  lt : ∀ row ∈ ingestor.buffer, row.number < ingestor.handed
  published : ∀ row ∈ ingestor.published, row.number < ingestor.handed ∧
    row.number ∉ ingestor.buffer.map (·.number)

/-- A bar that is neither buffered nor delivered. -/
def Lost (ingestor : BarIngestor BarRow) (n : ℕ) : Prop :=
  n < ingestor.handed ∧ n ∉ ingestor.buffer.map (·.number) ∧
    n ∉ ingestor.published.map (·.number)

section Flushes

variable {ingestor : BarIngestor BarRow} {writes : FlushWrites BarRow} {row : BarRow} {n : ℕ}

theorem through_sublist {α : Type} (rows : List α) (write : BatchWrite α) :
    (write.through rows).Sublist rows := by
  cases write with
  | ok => exact List.Sublist.refl rows
  | raises through => exact List.filter_sublist

/-- What a flush of a buffer that is not empty leaves. -/
theorem flushLocked_of_ne_nil (h : ingestor.buffer ≠ []) :
    (ingestor.flushLocked writes).buffer = [] ∧
      (ingestor.flushLocked writes).handed = ingestor.handed ∧
      (ingestor.flushLocked writes).persisted =
        ingestor.persisted ++ writes.upsert.through ingestor.buffer ∧
      (ingestor.flushLocked writes).published = ingestor.published ++
        if writes.upsert.isOk then writes.publish.through ingestor.buffer else [] := by
  rw [flushLocked, if_neg (by simpa using h)]
  cases hupsert : writes.upsert with
  | ok => simp [BatchWrite.isOk]
  | raises through => simp [BatchWrite.isOk]

theorem flushLocked_nil (h : ingestor.buffer = []) : ingestor.flushLocked writes = ingestor := by
  rw [flushLocked, h]
  rfl

theorem Numbered.append (h : ingestor.Numbered) : (ingestor.append row).Numbered := by
  constructor
  · simp only [BarIngestor.append, List.map_append, List.map_cons, List.map_nil]
    refine h.nodup.append (List.nodup_singleton _) ?_
    intro m hm hm'
    obtain ⟨r, hr, rfl⟩ := List.mem_map.mp hm
    exact Nat.ne_of_lt (h.lt r hr) (List.mem_singleton.mp hm')
  · intro r hr
    obtain hr | hr := List.mem_append.mp hr
    · exact Nat.lt_succ_of_lt (h.lt r hr)
    · rw [List.mem_singleton.mp hr]
      exact Nat.lt_succ_self _
  · intro r hr
    obtain ⟨hlt, hnot⟩ := h.published r hr
    refine ⟨Nat.lt_succ_of_lt hlt, ?_⟩
    simp only [BarIngestor.append, List.map_append, List.mem_append, List.map_cons, List.map_nil,
      List.mem_singleton, not_or]
    exact ⟨hnot, Nat.ne_of_lt hlt⟩

theorem Numbered.flushLocked (h : ingestor.Numbered) : (ingestor.flushLocked writes).Numbered := by
  by_cases hempty : ingestor.buffer = []
  · rwa [flushLocked_nil hempty]
  · obtain ⟨hbuffer, hhanded, -, hpublished⟩ := @flushLocked_of_ne_nil _ _ writes hempty
    refine ⟨by simp [hbuffer], by simp [hbuffer], fun r hr => ?_⟩
    rw [hhanded, hbuffer]
    refine ⟨?_, List.not_mem_nil⟩
    rw [hpublished] at hr
    obtain hr | hr := List.mem_append.mp hr
    · exact (h.published r hr).1
    · split_ifs at hr
      · exact h.lt r ((through_sublist _ _).subset hr)
      · exact absurd hr List.not_mem_nil

/-- A lost bar does not come back. -/
theorem Lost.append (h : ingestor.Lost n) : (ingestor.append row).Lost n := by
  obtain ⟨hlt, hbuffer, hpublished⟩ := h
  refine ⟨Nat.lt_succ_of_lt hlt, ?_, hpublished⟩
  simp only [BarIngestor.append, List.map_append, List.mem_append, List.map_cons, List.map_nil,
    List.mem_singleton, not_or]
  exact ⟨hbuffer, Nat.ne_of_lt hlt⟩

theorem Lost.flushLocked (h : ingestor.Lost n) : (ingestor.flushLocked writes).Lost n := by
  by_cases hempty : ingestor.buffer = []
  · rwa [flushLocked_nil hempty]
  · obtain ⟨hlt, hnot, hpublished⟩ := h
    obtain ⟨hbuffer, hhanded, -, hafter⟩ := @flushLocked_of_ne_nil _ _ writes hempty
    refine ⟨hhanded ▸ hlt, by simp [hbuffer], ?_⟩
    rw [hafter, List.map_append, List.mem_append, not_or]
    refine ⟨hpublished, ?_⟩
    split_ifs
    · exact fun hmem => hnot (((through_sublist _ _).map _).subset hmem)
    · exact List.not_mem_nil

theorem Keeps.append (h : ingestor.Keeps) : (ingestor.append row).Keeps := by
  intro m hm
  simp only [BarIngestor.append, List.map_append, List.mem_append, List.map_cons, List.map_nil,
    List.mem_singleton]
  obtain hlt | rfl := Nat.lt_succ_iff_lt_or_eq.mp hm
  · obtain hbuffer | hdelivered := h m hlt
    · exact .inl (.inl hbuffer)
    · exact .inr hdelivered
  · exact .inl (.inr rfl)

/-- A flush that delivers its rows keeps the bars. -/
theorem Keeps.flushLocked (h : ingestor.Keeps)
    (hdeliver : ingestor.buffer ≠ [] → Deliver writes ingestor.buffer) :
    (ingestor.flushLocked writes).Keeps := by
  by_cases hempty : ingestor.buffer = []
  · rwa [flushLocked_nil hempty]
  · obtain ⟨hupsert, hpublish⟩ := hdeliver hempty
    obtain ⟨-, hhanded, hpersisted, hpublished⟩ := @flushLocked_of_ne_nil _ _ writes hempty
    intro m hm
    right
    have hall : writes.upsert.through ingestor.buffer = ingestor.buffer := by
      cases hwrite : writes.upsert with
      | ok => rfl
      | raises through => simp [hwrite, BatchWrite.isOk] at hupsert
    rw [hpersisted, hpublished, if_pos hupsert, hall]
    simp only [List.map_append, List.mem_append]
    obtain hbuffer | ⟨hstore, hbus⟩ := h m (hhanded ▸ hm)
    · obtain ⟨r, hr, rfl⟩ := List.mem_map.mp hbuffer
      exact ⟨.inr (List.mem_map_of_mem hr), .inr (List.mem_map_of_mem (hpublish r hr))⟩
    · exact ⟨.inl hstore, .inl hbus⟩

/-- A flush that does not deliver its rows loses a bar. -/
theorem exists_lost (h : ingestor.Numbered) (hempty : ingestor.buffer ≠ [])
    (hdeliver : ¬ Deliver writes ingestor.buffer) : ∃ n, (ingestor.flushLocked writes).Lost n := by
  obtain ⟨hbuffer, hhanded, -, hpublished⟩ := @flushLocked_of_ne_nil _ _ writes hempty
  have hnot (r : BufferedRow BarRow) (hr : r ∈ ingestor.buffer) :
      r.number ∉ ingestor.published.map (·.number) := by
    intro hmem
    obtain ⟨r', hr', heq⟩ := List.mem_map.mp hmem
    exact (h.published r' hr').2 (heq ▸ List.mem_map_of_mem hr)
  have hlost (r : BufferedRow BarRow) (hr : r ∈ ingestor.buffer)
      (hmissing : r.number ∉ (if writes.upsert.isOk then writes.publish.through ingestor.buffer
        else []).map (·.number)) : (ingestor.flushLocked writes).Lost r.number := by
    refine ⟨hhanded ▸ h.lt r hr, by simp [hbuffer], ?_⟩
    rw [hpublished, List.map_append, List.mem_append, not_or]
    exact ⟨hnot r hr, hmissing⟩
  by_cases hupsert : writes.upsert.isOk = true
  · simp only [Deliver, hupsert, true_and, not_forall] at hdeliver
    obtain ⟨r, hr, hthrough⟩ := hdeliver
    refine ⟨r.number, hlost r hr ?_⟩
    rw [if_pos hupsert]
    intro hmem
    obtain ⟨r', hr', heq⟩ := List.mem_map.mp hmem
    have hsame := List.inj_on_of_nodup_map h.nodup ((through_sublist _ _).subset hr') hr heq
    exact hthrough (hsame ▸ hr')
  · obtain ⟨r, hr⟩ := List.exists_mem_of_ne_nil _ hempty
    exact ⟨r.number, hlost r hr (by simp [hupsert])⟩

end Flushes

/-! ## Runs -/

section Runs

variable {ingestor ingestor' : BarIngestor BarRow} {call : IngestorCall BarRow}
  {calls : List (IngestorCall BarRow)}

theorem Numbered.after (h : ingestor.Numbered) (hstep : ingestor.step call = some ingestor') :
    ingestor'.Numbered := by
  cases call with
  | handleBar row writes =>
    cases hstep
    rw [handleBar]
    split_ifs
    · exact h.append.flushLocked
    · exact h.append
  | flush writes =>
    cases hstep
    exact h.flushLocked

theorem Lost.after {n : ℕ} (h : ingestor.Lost n) (hstep : ingestor.step call = some ingestor') :
    ingestor'.Lost n := by
  cases call with
  | handleBar row writes =>
    cases hstep
    rw [handleBar]
    split_ifs
    · exact h.append.flushLocked
    · exact h.append
  | flush writes =>
    cases hstep
    exact h.flushLocked

theorem Keeps.after (h : ingestor.Keeps) (hok : ingestor.Delivers call)
    (hstep : ingestor.step call = some ingestor') : ingestor'.Keeps := by
  cases call with
  | handleBar row writes =>
    cases hstep
    rw [handleBar]
    split_ifs with hfull
    · exact h.append.flushLocked fun _ => hok hfull
    · exact h.append
  | flush writes =>
    cases hstep
    exact h.flushLocked hok

theorem exists_lost_step (h : ingestor.Numbered) (hok : ¬ ingestor.Delivers call)
    (hstep : ingestor.step call = some ingestor') : ∃ n, ingestor'.Lost n := by
  cases call with
  | handleBar row writes =>
    cases hstep
    simp only [Delivers, not_forall] at hok
    obtain ⟨hfull, hdeliver⟩ := hok
    rw [handleBar, if_pos (show (ingestor.append row).maxBuffer ≤ _ from hfull)]
    exact exists_lost h.append (by simp [append]) hdeliver
  | flush writes =>
    cases hstep
    simp only [Delivers, not_forall] at hok
    obtain ⟨hempty, hdeliver⟩ := hok
    exact exists_lost h hempty hdeliver

theorem Lost.afterRun {n : ℕ} (h : ingestor.Lost n)
    (hrun : Transition.run step ingestor calls = some ingestor') : ingestor'.Lost n := by
  have hmeets : Transition.Meets step (fun _ _ => True) ingestor calls :=
    Transition.meets_of_forall (fun _ _ _ => trivial) _
  exact Transition.run_invariant (I := fun s => s.Lost n) (fun _ _ _ hlost _ hs => hlost.after hs)
    h hmeets hrun

theorem kept_iff (hnumbered : ingestor.Numbered) (hkeeps : ingestor.Keeps)
    (hrun : Transition.run step ingestor calls = some ingestor') :
    ingestor'.Keeps ↔ Transition.Meets step Delivers ingestor calls := by
  refine ⟨fun hkept => ?_, fun hmeets => Transition.run_invariant
    (fun _ _ _ h hok hs => h.after hok hs) hkeeps hmeets hrun⟩
  induction calls generalizing ingestor with
  | nil => trivial
  | cons call calls ih =>
    rw [Transition.run, Option.bind_eq_some_iff] at hrun
    obtain ⟨next, hstep, hrest⟩ := hrun
    by_cases hok : ingestor.Delivers call
    · exact Transition.meets_cons hstep hok
        (ih (hnumbered.after hstep) (hkeeps.after hok hstep) hrest)
    · -- The lost bar is still lost at the end.
      obtain ⟨n, hlost⟩ := exists_lost_step hnumbered hok hstep
      obtain ⟨hlt, hbuffer, hpublished⟩ := hlost.afterRun hrest
      exact absurd (hkept n hlt) (by simp only [hbuffer, hpublished, and_false, or_self, not_false_iff])

/-- A run of calls keeps every bar if and only if every flush in it delivers its rows. -/
theorem kept_iff_delivered (maxBuffer : ℕ)
    (hrun : Transition.run step (start maxBuffer) calls = some ingestor') :
    ingestor'.Keeps ↔ Transition.Meets step Delivers (start maxBuffer) calls := by
  refine kept_iff ⟨List.nodup_nil, ?_, ?_⟩ ?_ hrun
  · exact fun _ h => absurd h List.not_mem_nil
  · exact fun _ h => absurd h List.not_mem_nil
  · exact fun _ h => absurd h (Nat.not_lt_zero _)

end Runs

end BarIngestor

namespace Sample

/-- A flush that goes through. -/
def goodWrites : FlushWrites ℕ := ⟨.ok, .ok⟩

/-- A flush whose rows the store does not take. -/
def storeDown : FlushWrites ℕ := ⟨.raises fun _ => false, .ok⟩

/-- A flush whose first row the bus still receives. -/
def busFailsAfterFirst : FlushWrites ℕ := ⟨.ok, .raises fun row => row.number = 0⟩

end Sample

theorem BarIngestor.kept_iff_delivered_bus_down :
    ∃ ingestor : BarIngestor ℕ, Transition.run BarIngestor.step (.start 3)
        [.handleBar 7 Sample.goodWrites, .flush Sample.busFailsAfterFirst] = some ingestor ∧
      (ingestor.Keeps ↔ Transition.Meets BarIngestor.step BarIngestor.Delivers (.start 3)
        [.handleBar 7 Sample.goodWrites, .flush Sample.busFailsAfterFirst]) :=
  ⟨_, rfl, BarIngestor.kept_iff_delivered 3 rfl⟩

/-- The buffer is emptied before the store is asked: a bar that it does not take is gone. -/
theorem BarIngestor.failed_upsert_loses_bar :
    ∃ ingestor : BarIngestor ℕ, Transition.run BarIngestor.step (.start 1000)
        [.handleBar 7 Sample.goodWrites, .flush Sample.storeDown] = some ingestor ∧
      ingestor.buffer = [] ∧ ingestor.persisted = [] ∧ ¬ ingestor.Keeps := by
  refine ⟨_, rfl, rfl, rfl, fun hkeeps => ?_⟩
  obtain h | ⟨h, -⟩ := hkeeps 0 Nat.one_pos
  · cases h
  · cases h

end LlamaTrade
