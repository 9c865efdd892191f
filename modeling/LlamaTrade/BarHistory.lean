import LlamaTrade.BarFeeds

/-!
# Retained bars

The history of one symbol as `CompiledStrategy.add_bars` keeps it: a bar that carries the timestamp
of the last one replaces it, and a history that is longer than the window loses its first bars.
-/

namespace LlamaTrade

variable {T K : Type}

/-- `del history[: -window]`, for a history that is longer. -/
def trimHistory (window : ℕ) (history : List (Bar T K)) : List (Bar T K) :=
  if history.length > window then
    if window = 0 then history else history.drop (history.length - window)
  else history

/-- The last bars of a history. -/
def lastBars (window : ℕ) (slots : List (Bar T K)) : List (Bar T K) :=
  slots.drop (slots.length - window)

theorem lastBars_concat {window : ℕ} (hwindow : 0 < window) (slots : List (Bar T K))
    (bar : Bar T K) :
    lastBars window (slots ++ [bar]) = slots.drop (slots.length + 1 - window) ++ [bar] := by
  have hle : slots.length + 1 - window ≤ slots.length := by omega
  rw [lastBars, List.length_append, List.length_singleton, List.drop_append_of_le_length hle]

theorem trimHistory_lastBars {window : ℕ} (hwindow : 0 < window) (slots : List (Bar T K))
    (bar : Bar T K) :
    trimHistory window (lastBars window slots ++ [bar]) = lastBars window (slots ++ [bar]) := by
  rw [lastBars_concat hwindow, trimHistory, if_neg (Nat.ne_of_gt hwindow), lastBars]
  simp only [List.length_append, List.length_drop, List.length_singleton]
  split_ifs with hlong
  · rw [List.drop_append_of_le_length (by rw [List.length_drop]; omega), List.drop_drop]
    congr 2
    omega
  · congr 2
    omega

variable [DecidableEq T]

/-- `CompiledStrategy.add_bars` for one symbol. -/
def addBar (window : ℕ) (history : List (Bar T K)) (bar : Bar T K) : List (Bar T K) :=
  if history.getLast?.map (·.timestamp) = some bar.timestamp then history.dropLast ++ [bar]
  else trimHistory window (history ++ [bar])

/-- `CompiledStrategy.add_bars` for one symbol, where the window may be `None`. -/
def storeBar (window : Option ℕ) (history : List (Bar T K)) (bar : Bar T K) : List (Bar T K) :=
  match window with
  | some window => addBar window history bar
  | none =>
    if history.getLast?.map (·.timestamp) = some bar.timestamp then history.dropLast ++ [bar]
    else history ++ [bar]

/-- A snapshot of a period that has no slot yet. -/
theorem addBar_new {window : ℕ} (hwindow : 0 < window) {slots : List (Bar T K)} {bar : Bar T K}
    (hnew : ∀ slot ∈ slots, slot.timestamp ≠ bar.timestamp) :
    addBar window (lastBars window slots) bar = lastBars window (slots ++ [bar]) := by
  rw [addBar, if_neg, trimHistory_lastBars hwindow]
  intro hsame
  obtain ⟨slot, hslot, hts⟩ := Option.map_eq_some_iff.mp hsame
  exact hnew slot (List.mem_of_mem_drop (List.mem_of_getLast? hslot)) hts

/-- A snapshot of the period in the last slot. -/
theorem addBar_replace {window : ℕ} (hwindow : 0 < window) {slots : List (Bar T K)}
    {old bar : Bar T K} (hsame : old.timestamp = bar.timestamp) :
    addBar window (lastBars window (slots ++ [old])) bar = lastBars window (slots ++ [bar]) := by
  rw [lastBars_concat hwindow, lastBars_concat hwindow, addBar, if_pos, List.dropLast_concat]
  rw [List.getLast?_concat, Option.map_some, hsame]

end LlamaTrade
