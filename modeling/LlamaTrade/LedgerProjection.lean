import LlamaTrade.LedgerPostings
import Std.Data.ExtTreeMap
import Mathlib.Order.Compare

/-!
# The projection of the ledger

Sleeve balances are derived by folding the event log (`ledger/projection.py`).
The fold mutates its state in place, so the model keeps the state that an
exception leaves behind: an `Attempt` is a state together with the exception that
stopped the update, if one did. Dictionaries are extensional maps; the code
depends on insertion order only for the terminal order ids, which are a list.
-/

namespace LlamaTrade

abbrev Dict (α : Type) := Std.ExtTreeMap String α

def Dict.All {α : Type} (P : α → Prop) (dict : Dict α) : Prop :=
  ∀ (key : String) (x : α), dict[key]? = some x → P x

/-- The state an in-place update leaves, and the exception that stopped it. -/
abbrev Attempt (σ : Type) := σ × Option PyError

namespace Attempt

variable {σ : Type}

def andThen (r : Attempt σ) (f : σ → Attempt σ) : Attempt σ :=
  match r with
  | (s, none) => f s
  | (s, some e) => (s, some e)

/-- Run a computation that does not touch the state, then go on with its value. -/
def guarded {α : Type} (s : σ) (x : Except PyError α) (f : α → Attempt σ) : Attempt σ :=
  match x with
  | .ok a => f a
  | .error e => (s, some e)

@[simp] theorem andThen_none (s : σ) (f : σ → Attempt σ) : andThen (s, none) f = f s := rfl
@[simp] theorem andThen_some (s : σ) (e : PyError) (f : σ → Attempt σ) :
    andThen (s, some e) f = (s, some e) := rfl
@[simp] theorem guarded_ok {α : Type} (s : σ) (a : α) (f : α → Attempt σ) :
    guarded s (.ok a) f = f a := rfl
@[simp] theorem guarded_error {α : Type} (s : σ) (e : PyError) (f : α → Attempt σ) :
    guarded s (.error e) f = (s, some e) := rfl

end Attempt

/-- The fields of an event row that the folds read. -/
structure LedgerEvent where
  sequence : ℕ
  eventType : String
  data : Payload

/-- The events of an account carry increasing sequence numbers. -/
def Sequenced (events : List LedgerEvent) : Prop :=
  events.Pairwise fun a b => a.sequence < b.sequence

structure PositionState (D : Type) where
  qty : D
  costBasis : D
  deriving DecidableEq

structure SleeveProjection (D : Type) where
  cash : D
  realizedPnl : D
  reserved : D
  positions : Dict (PositionState D)

structure AccountProjection (D : Type) where
  sleeves : Dict (SleeveProjection D)
  poisonEvents : ℤ

/-- Open reservations by client order id, and the client order ids that reached a
terminal event, oldest first. -/
structure ReservationState (D : Type) where
  pending : Dict (String × D)
  terminal : List String

/-- What `fold_into` updates: the projection and the reservation state. -/
structure FoldState (D : Type) where
  acc : AccountProjection D
  res : ReservationState D

/-- `_TERMINAL_TRACKED`. -/
@[irreducible] def terminalTracked : ℕ := 4096

section Fold

variable {D : Type} [Arithmetic D]

open Arithmetic

def PositionState.empty : PositionState D := ⟨zero, zero⟩

def SleeveProjection.empty : SleeveProjection D := ⟨zero, zero, zero, ∅⟩

def AccountProjection.empty : AccountProjection D := ⟨∅, 0⟩

def ReservationState.empty : ReservationState D := ⟨∅, []⟩

def FoldState.empty : FoldState D := ⟨.empty, .empty⟩

def SleeveProjection.position (s : SleeveProjection D) (symbol : String) : PositionState D :=
  s.positions.getD symbol .empty

def SleeveProjection.setPosition (s : SleeveProjection D) (symbol : String)
    (p : PositionState D) : SleeveProjection D :=
  { s with positions := s.positions.insert symbol p }

def AccountProjection.sleeve (acc : AccountProjection D) (id : String) : SleeveProjection D :=
  acc.sleeves.getD id .empty

def AccountProjection.setSleeve (acc : AccountProjection D) (id : String)
    (s : SleeveProjection D) : AccountProjection D :=
  { acc with sleeves := acc.sleeves.insert id s }

def AccountProjection.isComplete (acc : AccountProjection D) : Bool := acc.poisonEvents == 0

/-- One leg moves its sleeve. The entry of the sleeve, and of the position, is
created before the addition that may raise. -/
def applyPosting (acc : AccountProjection D) (p : Posting D) : Attempt (AccountProjection D) :=
  match p.sleeveId with
  | none => (acc, none)
  | some id =>
    let sleeve := acc.sleeve id
    let acc := acc.setSleeve id sleeve
    match p.bucket, p.symbol with
    | .cash, _ =>
      .guarded acc (add sleeve.cash p.amount) fun cash =>
        (acc.setSleeve id { sleeve with cash }, none)
    | .pnl, _ =>
      .guarded acc (neg p.amount >>= add sleeve.realizedPnl) fun realizedPnl =>
        (acc.setSleeve id { sleeve with realizedPnl }, none)
    | .position, some symbol =>
      let pos := sleeve.position symbol
      let acc := acc.setSleeve id (sleeve.setPosition symbol pos)
      .guarded acc (add pos.costBasis p.amount) fun costBasis =>
        let acc := acc.setSleeve id (sleeve.setPosition symbol { pos with costBasis })
        match p.qty with
        | none => (acc, none)
        | some qty =>
          .guarded acc (add pos.qty qty) fun qty =>
            (acc.setSleeve id (sleeve.setPosition symbol ⟨qty, costBasis⟩), none)
    | _, _ => (acc, none)

def applyPostings (acc : AccountProjection D) : List (Posting D) → Attempt (AccountProjection D)
  | [] => (acc, none)
  | p :: ps => (applyPosting acc p).andThen fun acc => applyPostings acc ps

/-- `_RESERVATION_RELEASES`. -/
def releasesReservation (t : LedgerEventType) : Bool :=
  t == .orderFilled || t == .orderCancelled || t == .orderRejected

/-- Track a terminal id; beyond the bound the oldest tracked one falls out. -/
def trackTerminal (terminal : List String) (coid : String) : List String :=
  let tracked := if coid ∈ terminal then terminal else terminal ++ [coid]
  if terminalTracked < tracked.length then tracked.tail else tracked

/-- `data.get(key)` when it is not `None`. -/
def present (data : Payload) (key : String) : Option Json :=
  match data.get key with
  | .null => none
  | x => some x

/-- `_apply_reservation` on a submission: earmark cash unless the order is
already known to be terminal. -/
def reserve (s : FoldState D) (coid : String) (data : Payload) : Attempt (FoldState D) :=
  if coid ∈ s.res.terminal then (s, none)
  else match present data "sleeve_id" with
    | none => (s, none)
    | some sleeveId =>
      let id := sleeveId.pyStr
      .guarded s (parse (data.get "reserved").pyStr) fun amount =>
        let sleeve := s.acc.sleeve id
        .guarded { s with acc := s.acc.setSleeve id sleeve } (add sleeve.reserved amount)
          fun reserved =>
            ({ acc := s.acc.setSleeve id { sleeve with reserved }
               res := { s.res with pending := s.res.pending.insert coid (id, amount) } }, none)

/-- `_apply_reservation` on a terminal event: the release amount comes from the
pending entry, which is gone before the subtraction that may raise. -/
def release (s : FoldState D) (coid : String) : Attempt (FoldState D) :=
  let terminal := trackTerminal s.res.terminal coid
  match s.res.pending[coid]? with
  | none => ({ s with res := { s.res with terminal } }, none)
  | some (id, amount) =>
    let sleeve := s.acc.sleeve id
    let res : ReservationState D := ⟨s.res.pending.erase coid, terminal⟩
    .guarded ⟨s.acc.setSleeve id sleeve, res⟩ (sub sleeve.reserved amount) fun reserved =>
      (⟨s.acc.setSleeve id { sleeve with reserved }, res⟩, none)

/-- `_apply_reservation`. -/
def applyReservation (s : FoldState D) (t : LedgerEventType) (data : Payload) :
    Attempt (FoldState D) :=
  match present data "client_order_id" with
  | none => (s, none)
  | some coid =>
    if t = .orderSubmitted ∧ data.has "reserved" then reserve s coid.pyStr data
    else if releasesReservation t then release s coid.pyStr
    else (s, none)

/-- The postings of an event, validated before anything is mutated. -/
def validatedPostings (t : LedgerEventType) (data : Payload) :
    Except PyError (List (Posting D)) := do
  let postings ← buildPostings t data
  if postings.isEmpty then return postings
  assertBalanced postings
  return postings

/-- The body of the loop of `fold_into`, up to its `except` clause. -/
def applyEvent (s : FoldState D) (ev : LedgerEvent) : Attempt (FoldState D) :=
  .guarded s (LedgerEventType.coerce ev.eventType) fun t =>
    .guarded s (validatedPostings t ev.data) fun postings =>
      (applyReservation s t ev.data).andThen fun s =>
        let r := applyPostings s.acc postings
        ({ s with acc := r.1 }, r.2)

/-- An event that raises is counted as poison and skipped. All exceptions the
body can raise are among those that the `except` clause names. -/
def foldEvent (s : FoldState D) (ev : LedgerEvent) : FoldState D :=
  match applyEvent s ev with
  | (s, none) => s
  | (s, some _) => { s with acc := { s.acc with poisonEvents := s.acc.poisonEvents + 1 } }

/-- `fold_into`, without its returned sequence number. -/
def foldInto (s : FoldState D) (events : List LedgerEvent) : FoldState D :=
  events.foldl foldEvent s

/-- The number `fold_into` and `fold_lots_into` return. -/
def maxSequence (events : List LedgerEvent) : ℕ :=
  events.foldl (fun m ev => max m ev.sequence) 0

/-- `fold`. -/
def fold (events : List LedgerEvent) : AccountProjection D := (foldInto .empty events).acc

theorem build_of_validated {t : LedgerEventType} {data : Payload} {ps : List (Posting D)}
    (h : validatedPostings t data = .ok ps) : buildPostings t data = .ok ps := by
  simp only [validatedPostings, bind_eq_ok] at h
  obtain ⟨built, hbuilt, h⟩ := h
  split_ifs at h
  · rw [hbuilt]
    exact h
  · simp only [bind_eq_ok] at h
    obtain ⟨-, -, h⟩ := h
    rw [hbuilt]
    exact h

theorem foldEvent_acc_sleeve (s : FoldState D) (ev : LedgerEvent) (id : String) :
    (foldEvent s ev).acc.sleeve id = (applyEvent s ev).1.acc.sleeve id := by
  unfold foldEvent
  obtain ⟨s₁, err⟩ := applyEvent s ev
  cases err <;> rfl

private theorem foldl_max_sequence (events : List LedgerEvent) (m : ℕ) :
    events.foldl (fun m ev => max m ev.sequence) m = max m (maxSequence events) := by
  induction events generalizing m with
  | nil => simp [maxSequence]
  | cons ev events ih =>
    have hcons : maxSequence (ev :: events) = max (max 0 ev.sequence) (maxSequence events) :=
      ih (max 0 ev.sequence)
    rw [List.foldl_cons, ih, hcons]
    omega

theorem maxSequence_cons (ev : LedgerEvent) (events : List LedgerEvent) :
    maxSequence (ev :: events) = max ev.sequence (maxSequence events) := by
  rw [maxSequence, List.foldl_cons, foldl_max_sequence, Nat.zero_max]

theorem sequence_le_maxSequence {events : List LedgerEvent} {ev : LedgerEvent} (h : ev ∈ events) :
    ev.sequence ≤ maxSequence events := by
  induction events with
  | nil => cases h
  | cons e events ih =>
    rw [maxSequence_cons]
    rcases List.mem_cons.mp h with rfl | h
    · exact le_max_left _ _
    · exact le_trans (ih h) (le_max_right _ _)

theorem exists_sequence_eq_maxSequence {events : List LedgerEvent} (h : events ≠ []) :
    ∃ ev ∈ events, ev.sequence = maxSequence events := by
  induction events with
  | nil => exact absurd rfl h
  | cons e events ih =>
    rw [maxSequence_cons]
    by_cases hnil : events = []
    · exact ⟨e, by simp, by simp [hnil, maxSequence]⟩
    · obtain ⟨ev, hev, heq⟩ := ih hnil
      rcases le_total e.sequence (maxSequence events) with hle | hle
      · exact ⟨ev, by simp [hev], by rw [heq, max_eq_right hle]⟩
      · exact ⟨e, by simp, by rw [max_eq_left hle]⟩

@[simp] theorem foldInto_nil (s : FoldState D) : foldInto s [] = s := rfl

@[simp] theorem foldInto_cons (s : FoldState D) (ev : LedgerEvent) (events : List LedgerEvent) :
    foldInto s (ev :: events) = foldInto (foldEvent s ev) events := rfl

theorem foldInto_append (s : FoldState D) (es fs : List LedgerEvent) :
    foldInto s (es ++ fs) = foldInto (foldInto s es) fs :=
  List.foldl_append

end Fold

end LlamaTrade
