import Mathlib.Data.List.Infix
import Mathlib.Data.List.Lemmas

/-!
# The thinking splitter

`ThinkingSplitter` (`llm/thinking.py`) routes the text of a stream to two channels and holds back
what may become a tag. What it emits is described by a scan of the whole text, whatever the deltas.
-/

namespace LlamaTrade

inductive TextChannel where
  | thinking
  | content
  deriving DecidableEq

/-- A piece of text with its channel. -/
abbrev TextSegment := TextChannel × List Char

def openTag : List Char := "<thinking>".toList

def closeTag : List Char := "</thinking>".toList

/-- `str.find`: the place of the first occurrence. -/
def findTag (tag : List Char) : List Char → Option ℕ
  | [] => if tag = [] then some 0 else none
  | c :: rest => if tag <+: c :: rest then some 0 else (findTag tag rest).map (· + 1)

/-- The loop of `_partial_tag_suffix` from a length down. -/
def partialTagLoop (buf tag : List Char) : ℕ → ℕ
  | 0 => 0
  | k + 1 =>
    if buf.drop (buf.length - (k + 1)) = tag.take (k + 1) then k + 1 else partialTagLoop buf tag k

/-- `_partial_tag_suffix`. -/
def partialTagSuffix (buf tag : List Char) : ℕ :=
  partialTagLoop buf tag (min buf.length (tag.length - 1))

/-- The tag that ends the current state. -/
def watchedTag (inThinking : Bool) : List Char := if inThinking then closeTag else openTag

/-- The channel of the current state. -/
def textChannel (inThinking : Bool) : TextChannel := if inThinking then .thinking else .content

structure ThinkingSplitter where
  buffer : List Char
  inThinking : Bool

theorem watchedTag_length_pos (inThinking : Bool) : 0 < (watchedTag inThinking).length := by
  cases inThinking <;> decide

namespace ThinkingSplitter

def new : ThinkingSplitter := ⟨[], false⟩

/-- `_drain`. -/
def drain (final inThinking : Bool) (buffer : List Char) : List TextSegment × ThinkingSplitter :=
  if _ : buffer = [] then ([], ⟨[], inThinking⟩)
  else
    match findTag (watchedTag inThinking) buffer with
    | some idx =>
      let rest := drain final (!inThinking) (buffer.drop (idx + (watchedTag inThinking).length))
      ((if 0 < idx then [(textChannel inThinking, buffer.take idx)] else []) ++ rest.1, rest.2)
    | none =>
      let hold := if final then 0 else partialTagSuffix buffer (watchedTag inThinking)
      let emit := buffer.take (buffer.length - hold)
      (if emit ≠ [] then [(textChannel inThinking, emit)] else [],
        ⟨buffer.drop (buffer.length - hold), inThinking⟩)
termination_by buffer.length
decreasing_by
  have hpos := List.length_pos_of_ne_nil ‹¬buffer = []›
  have htag := watchedTag_length_pos inThinking
  rw [List.length_drop]
  omega

def feed (s : ThinkingSplitter) (text : List Char) : List TextSegment × ThinkingSplitter :=
  drain false s.inThinking (s.buffer ++ text)

def flush (s : ThinkingSplitter) : List TextSegment × ThinkingSplitter :=
  drain true s.inThinking s.buffer

def feedAll (s : ThinkingSplitter) : List (List Char) → List TextSegment × ThinkingSplitter
  | [] => ([], s)
  | delta :: deltas =>
    let first := s.feed delta
    let more := first.2.feedAll deltas
    (first.1 ++ more.1, more.2)

end ThinkingSplitter

/-- The segments of a stream: each delta is fed, and at the end the rest is flushed. -/
def splitText (deltas : List (List Char)) : List TextSegment :=
  let fed := ThinkingSplitter.new.feedAll deltas
  fed.1 ++ fed.2.flush.1

/-- The concatenated text of one channel. -/
def channelText (channel : TextChannel) (segments : List TextSegment) : List Char :=
  (segments.filter fun segment => segment.1 = channel).flatMap (·.2)

/-- The characters of the segments in order, with their channels. -/
def emitted (segments : List TextSegment) : List (TextChannel × Char) :=
  segments.flatMap fun segment => segment.2.map (Prod.mk segment.1)

/-- A text is read from left to right: where the tag of the current state stands it is dropped and
the state changes, every other character is emitted once. -/
inductive Scanned : Bool → List Char → List (TextChannel × Char) → Prop
  | done (inThinking : Bool) : Scanned inThinking [] []
  | tag (inThinking : Bool) (rest : List Char) (out : List (TextChannel × Char)) :
      Scanned (!inThinking) rest out → Scanned inThinking (watchedTag inThinking ++ rest) out
  | char (inThinking : Bool) (c : Char) (rest : List Char) (out : List (TextChannel × Char)) :
      ¬watchedTag inThinking <+: c :: rest → Scanned inThinking rest out →
        Scanned inThinking (c :: rest) ((textChannel inThinking, c) :: out)

/-! ## Searching -/

theorem findTag_eq_none {tag s : List Char} (h : findTag tag s = none) (i : ℕ) :
    ¬tag <+: s.drop i := by
  induction s generalizing i with
  | nil =>
    rw [findTag] at h
    split at h
    · cases h
    · rwa [List.drop_nil, List.prefix_nil]
  | cons c s ih =>
    rw [findTag] at h
    split at h
    · cases h
    · next hstart =>
      cases i with
      | zero => exact hstart
      | succ i => exact ih (Option.map_eq_none_iff.mp h) i

theorem findTag_eq_some {tag s : List Char} {idx : ℕ} (h : findTag tag s = some idx) :
    (∀ i < idx, ¬tag <+: s.drop i) ∧ tag <+: s.drop idx := by
  induction s generalizing idx with
  | nil =>
    rw [findTag] at h
    split at h
    · next htag =>
      cases h
      exact ⟨fun i hi => absurd hi (Nat.not_lt_zero i), htag ▸ List.nil_prefix⟩
    · cases h
  | cons c s ih =>
    rw [findTag] at h
    split at h
    · next hstart =>
      cases h
      exact ⟨fun i hi => absurd hi (Nat.not_lt_zero i), hstart⟩
    · next hstart =>
      obtain ⟨j, hj, rfl⟩ := Option.map_eq_some_iff.mp h
      obtain ⟨hbefore, hhere⟩ := ih hj
      refine ⟨fun i hi => ?_, hhere⟩
      cases i with
      | zero => exact hstart
      | succ i => exact hbefore i (Nat.lt_of_succ_lt_succ hi)

/-- The held length is the longest one that fits. -/
theorem le_partialTagLoop {buf tag : List Char} {n k : ℕ} (hk : k ≤ n)
    (hfit : buf.drop (buf.length - k) = tag.take k) : k ≤ partialTagLoop buf tag n := by
  induction n with
  | zero => exact hk
  | succ n ih =>
    rw [partialTagLoop]
    split
    · exact hk
    · next hnot =>
      have hne : k ≠ n + 1 := fun heq => hnot (heq ▸ hfit)
      exact ih (by omega)

/-- A tag that starts in the buffer and ends in the text to come starts in the held part. -/
theorem held_of_prefix {buf tag more : List Char} {i : ℕ} (hi : i ≤ buf.length)
    (hhere : ¬tag <+: buf.drop i) (hlater : tag <+: buf.drop i ++ more) :
    buf.length - i ≤ partialTagSuffix buf tag := by
  have hshort : (buf.drop i).length < tag.length := by
    by_contra hlong
    exact hhere (List.prefix_of_prefix_length_le hlater (List.prefix_append _ _)
      (not_lt.mp hlong))
  have hstart : buf.drop i <+: tag :=
    List.prefix_of_prefix_length_le (List.prefix_append _ _) hlater hshort.le
  rw [List.length_drop] at hshort
  refine le_partialTagLoop (by omega) ?_
  rw [Nat.sub_sub_self hi, ← List.length_drop]
  exact List.prefix_iff_eq_take.mp hstart

/-! ## The scan -/

theorem Scanned.append {inThinking : Bool} {before rest : List Char}
    {out : List (TextChannel × Char)}
    (hbefore : ∀ i < before.length, ¬watchedTag inThinking <+: (before ++ rest).drop i)
    (h : Scanned inThinking rest out) :
    Scanned inThinking (before ++ rest) (before.map (Prod.mk (textChannel inThinking)) ++ out) := by
  induction before with
  | nil => exact h
  | cons c before ih =>
    refine .char inThinking c _ _ (hbefore 0 (Nat.zero_lt_succ _)) (ih fun i hi => ?_)
    exact hbefore (i + 1) (Nat.succ_lt_succ hi)

theorem Scanned.unique {inThinking : Bool} {s : List Char} {out out' : List (TextChannel × Char)}
    (h : Scanned inThinking s out) (h' : Scanned inThinking s out') : out = out' := by
  induction h generalizing out' with
  | done inThinking =>
    generalize hs : ([] : List Char) = s at h'
    cases h' with
    | done => rfl
    | tag _ rest =>
      have hpos := watchedTag_length_pos inThinking
      simp [(List.append_eq_nil_iff.mp hs.symm).1] at hpos
    | char => cases hs
  | tag inThinking rest out _ ih =>
    generalize hs : watchedTag inThinking ++ rest = s at h'
    cases h' with
    | done =>
      have hpos := watchedTag_length_pos inThinking
      simp [(List.append_eq_nil_iff.mp hs).1] at hpos
    | tag _ rest' _ hrest' =>
      obtain rfl := List.append_cancel_left hs
      exact ih hrest'
    | char _ c rest' _ hnot => exact absurd ⟨rest, hs⟩ hnot
  | char inThinking c rest out hnot _ ih =>
    generalize hs : c :: rest = s at h'
    cases h' with
    | done => cases hs
    | tag _ rest' => exact absurd ⟨rest', hs.symm⟩ hnot
    | char _ c' rest' _ _ hrest' =>
      cases hs
      rw [ih hrest']

/-! ## The splitter -/

theorem emitted_append (a b : List TextSegment) : emitted (a ++ b) = emitted a ++ emitted b :=
  List.flatMap_append

theorem emitted_guarded (channel : TextChannel) {text : List Char} {p : Prop} [Decidable p]
    (h : ¬p → text = []) :
    emitted (if p then [(channel, text)] else []) = text.map (Prod.mk channel) := by
  by_cases hp : p
  · simp [emitted, hp]
  · simp [emitted, hp, h hp]

theorem channelText_eq (channel : TextChannel) (segments : List TextSegment) :
    channelText channel segments =
      ((emitted segments).filter fun c => c.1 = channel).map (·.2) := by
  induction segments with
  | nil => rfl
  | cons segment segments ih =>
    have hsame : ∀ text : List Char, ((text.map (Prod.mk segment.1)).filter
        fun c => c.1 = channel).map (·.2) = if segment.1 = channel then text else [] := by
      intro text
      by_cases hchannel : segment.1 = channel
      · simp [List.filter_map, Function.comp_def, hchannel]
      · simp [List.filter_map, Function.comp_def, hchannel]
    rw [emitted, List.flatMap_cons, List.filter_append, List.map_append, hsame, ← emitted, ← ih,
      channelText, channelText, List.filter_cons]
    by_cases hchannel : segment.1 = channel
    · simp [hchannel]
    · simp [hchannel]

namespace ThinkingSplitter

theorem drain_final_buffer (inThinking : Bool) (buffer : List Char) :
    (drain true inThinking buffer).2.buffer = [] := by
  induction hn : buffer.length using Nat.strong_induction_on generalizing inThinking buffer with
  | _ n ih =>
    rw [drain]
    split
    · rfl
    · next hbuffer =>
      split
      · next idx hidx =>
        have hpos := List.length_pos_of_ne_nil hbuffer
        have htag := watchedTag_length_pos inThinking
        exact ih _ (by rw [List.length_drop]; omega) _ _ rfl
      · simp

/-- What is drained now and what is scanned later make up one scan. -/
theorem scanned_drain {final : Bool} (inThinking : Bool) (buffer : List Char) {more : List Char}
    {out : List (TextChannel × Char)} (hfinal : final = true → more = [])
    (hmore : Scanned (drain final inThinking buffer).2.inThinking
      ((drain final inThinking buffer).2.buffer ++ more) out) :
    Scanned inThinking (buffer ++ more) (emitted (drain final inThinking buffer).1 ++ out) := by
  induction hn : buffer.length using Nat.strong_induction_on generalizing inThinking buffer with
  | _ n ih =>
    rw [drain] at hmore ⊢
    split at hmore
    · next hbuffer =>
      rw [dif_pos hbuffer, hbuffer]
      exact hmore
    · next hbuffer =>
      rw [dif_neg hbuffer]
      split at hmore
      · next idx hidx =>
        obtain ⟨hbefore, after, hafter⟩ := findTag_eq_some hidx
        have hpos := List.length_pos_of_ne_nil hbuffer
        have htag := watchedTag_length_pos inThinking
        have hrest := ih _ (by rw [List.length_drop]; omega) _ _ hmore rfl
        have hbuf : buffer = buffer.take idx ++ (watchedTag inThinking ++ after) := by
          rw [hafter, List.take_append_drop]
        have hdrop : buffer.drop (idx + (watchedTag inThinking).length) = after := by
          rw [← List.drop_drop, ← hafter, List.drop_left]
        rw [hdrop] at hrest
        simp only [hdrop]
        rw [emitted_append, emitted_guarded _ fun h => by simp [Nat.eq_zero_of_not_pos h],
          List.append_assoc]
        have hscan := Scanned.tag inThinking (after ++ more) _ hrest
        have hall : buffer ++ more =
            buffer.take idx ++ (watchedTag inThinking ++ (after ++ more)) := by
          conv_lhs => rw [hbuf]
          simp only [List.append_assoc]
        rw [hall]
        refine Scanned.append (fun i hi hstart => ?_) hscan
        rw [← hall] at hstart
        have hi : i < idx := hi.trans_le (List.length_take_le _ _)
        have hlong : (watchedTag inThinking).length ≤ (buffer.drop i).length := by
          have hlen := congrArg List.length hbuf
          rw [List.length_append, List.length_append, List.length_take] at hlen
          rw [List.length_drop]
          omega
        -- the first occurrence leaves no room for an earlier one that needs the text to come
        refine hbefore i hi (List.prefix_of_prefix_length_le hstart ?_ hlong)
        exact (List.prefix_append buffer more).drop i
      · next hidx =>
        set hold := if final then 0 else partialTagSuffix buffer (watchedTag inThinking) with hhold
        have hbuf := List.take_append_drop (buffer.length - hold) buffer
        rw [emitted_guarded _ fun h => not_not.mp h]
        conv_lhs => rw [← hbuf]
        rw [List.append_assoc]
        refine Scanned.append (fun i hi hstart => ?_) hmore
        rw [List.length_take] at hi
        rw [← List.append_assoc, hbuf, List.drop_append_of_le_length (by omega)] at hstart
        have hhere := findTag_eq_none hidx i
        cases final with
        | true =>
          rw [hfinal rfl, List.append_nil] at hstart
          exact hhere hstart
        | false =>
          have hheld := held_of_prefix (by omega) hhere hstart
          rw [if_neg Bool.false_ne_true] at hhold
          omega

theorem scanned_feedAll (s : ThinkingSplitter) (deltas : List (List Char)) {more : List Char}
    {out : List (TextChannel × Char)}
    (hmore : Scanned (s.feedAll deltas).2.inThinking ((s.feedAll deltas).2.buffer ++ more) out) :
    Scanned s.inThinking (s.buffer ++ (deltas.flatten ++ more))
      (emitted (s.feedAll deltas).1 ++ out) := by
  induction deltas generalizing s with
  | nil => exact hmore
  | cons delta deltas ih =>
    have hrest := ih (s.feed delta).2 hmore
    have hfirst := scanned_drain s.inThinking (s.buffer ++ delta) (by simp) hrest
    rw [feedAll, emitted_append, List.append_assoc, List.flatten_cons, List.append_assoc,
      ← List.append_assoc]
    exact hfirst

end ThinkingSplitter

/-- What a stream emits is what the scan of its whole text emits. -/
theorem scanned_splitText (deltas : List (List Char)) :
    Scanned false deltas.flatten (emitted (splitText deltas)) := by
  set fed := ThinkingSplitter.new.feedAll deltas with hfed
  have hflush : Scanned fed.2.inThinking (fed.2.buffer ++ []) (emitted fed.2.flush.1 ++ []) := by
    refine ThinkingSplitter.scanned_drain fed.2.inThinking fed.2.buffer (fun _ => rfl) ?_
    rw [ThinkingSplitter.drain_final_buffer]
    exact .done _
  rw [List.append_nil, List.append_nil] at hflush
  have hscan := ThinkingSplitter.scanned_feedAll ThinkingSplitter.new deltas
    (show Scanned _ (fed.2.buffer ++ []) _ by rw [List.append_nil]; exact hflush)
  rw [List.append_nil, ← emitted_append] at hscan
  exact hscan

/-- The texts of the two channels do not depend on how the stream is cut, and every character
outside the recognised tags is emitted once and in order. -/
theorem splitText_independent (deltas : List (List Char)) :
    (∀ channel, channelText channel (splitText deltas) =
      channelText channel (splitText [deltas.flatten])) ∧
      Scanned false deltas.flatten (emitted (splitText deltas)) := by
  have hscan := scanned_splitText deltas
  have hwhole := scanned_splitText [deltas.flatten]
  rw [List.flatten_singleton] at hwhole
  refine ⟨fun channel => ?_, hscan⟩
  rw [channelText_eq, channelText_eq, hscan.unique hwhole]

end LlamaTrade
