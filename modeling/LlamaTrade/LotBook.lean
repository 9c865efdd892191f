import LlamaTrade.LedgerProjection
import LlamaTrade.LotSelection

/-!
# The lot book

`fold_lots_into` folds the event log into the open FIFO lots of every sleeve and
symbol, next to the balance fold. Splits, renames and sleeve closes are handled by
event type; all other events act through their position legs. As in the balance
fold, an event that raises is skipped, and what it changed before raising stays.
-/

namespace LlamaTrade

/-- `AccountLotBook`: sleeve id, symbol, open lots. -/
abbrev LotBook (D : Type) := Dict (Dict (List (Lot D)))

namespace LotBook

variable {D : Type}

/-- `book.get(sleeve_id, {}).get(symbol, [])`. -/
def lots (book : LotBook D) (sleeve symbol : String) : List (Lot D) :=
  (book.getD sleeve ∅).getD symbol []

/-- `book.setdefault(sleeve_id, {})[symbol] = lots`. -/
def setLots (book : LotBook D) (sleeve symbol : String) (lots : List (Lot D)) : LotBook D :=
  book.insert sleeve ((book.getD sleeve ∅).insert symbol lots)

end LotBook

section Fold

variable {D : Type} [Arithmetic D]

open Arithmetic

/-- All lots but the newest are scaled; returns them with the quantity they take. -/
def scaleLots (newTotal oldTotal : D) (allocated : D) :
    List (Lot D) → Except PyError (D × List (Lot D))
  | [] => pure (allocated, [])
  | lot :: lots => do
    let qty ← div (← mul lot.qty newTotal) oldTotal
    let (total, out) ← scaleLots newTotal oldTotal (← add allocated qty) lots
    return (total, { lot with qty } :: out)

/-- `_rebase_split`: the newest lot absorbs the remainder of the division. -/
def rebaseSplit (lots : List (Lot D)) (qtyDelta : D) : Except PyError (List (Lot D)) := do
  let oldTotal ← sum (lots.map (·.qty))
  let newTotal ← add oldTotal qtyDelta
  if ← le oldTotal zero then return []
  if ← le newTotal zero then return []
  match lots.getLast? with
  | none => return []
  | some newest => do
    let (allocated, out) ← scaleLots newTotal oldTotal zero lots.dropLast
    return out ++ [{ newest with qty := ← sub newTotal allocated }]

/-- `_apply_split`. -/
def applySplit (book : LotBook D) (data : Payload) : Attempt (LotBook D) :=
  .guarded book (data.text "sleeve_id") fun sleeve =>
  .guarded book (data.text "symbol") fun symbol =>
    let lots := book.lots sleeve symbol
    if lots.isEmpty then (book, none)
    else
      .guarded book (data.text "qty_delta" >>= parse) fun qtyDelta =>
      .guarded book (rebaseSplit lots qtyDelta) fun lots => (book.setLots sleeve symbol lots, none)

/-- What a rename carries over when the old symbol has no lots: one lot from the
payload, or `none` when its quantity is zero. -/
def renamedLot (data : Payload) (seq : ℤ) : Except PyError (Option (Lot D)) := do
  let qty : D ← parse (← data.text "qty")
  if ← eq qty zero then return none
  let cost ← parse (← data.text "cost_basis")
  return some ⟨qty, cost, seq⟩

/-- `_apply_rename`. -/
def applyRename (book : LotBook D) (data : Payload) (seq : ℤ) : Attempt (LotBook D) :=
  .guarded book (data.text "sleeve_id") fun sleeve =>
    let book : LotBook D := book.insert sleeve (book.getD sleeve ∅)
    .guarded book (data.text "old_symbol") fun old =>
      let carried := book.lots sleeve old
      let book : LotBook D := book.insert sleeve ((book.getD sleeve ∅).erase old)
      let finish (carried : List (Lot D)) : Attempt (LotBook D) :=
        .guarded book (data.text "new_symbol") fun new =>
          (book.setLots sleeve new (sortLots (book.lots sleeve new ++ carried)), none)
      if carried.isEmpty then
        .guarded book (renamedLot data seq) fun lot => lot.elim (book, none) fun lot => finish [lot]
      else finish carried

/-- One entry of the `lots` of a close, opened in the target sleeve. -/
def closedLot (entry : Json) : Except PyError (String × Lot D) := do
  let symbol ← entryText entry "symbol"
  let qty : D ← parse (← entryText entry "qty")
  let cost ← parse (← entryText entry "cost_basis")
  let opened ← (← entry.subscript "opened_seq").toInt
  return (symbol, ⟨qty, cost, opened⟩)

/-- One entry of the `positions` of a close without lots: a blended lot, or `none`
when its quantity is zero. -/
def blendedLot (seq : ℤ) (entry : Json) : Except PyError (Option (String × Lot D)) := do
  let qty : D ← parse (← entryText entry "qty")
  if ← eq qty zero then return none
  let symbol ← entryText entry "symbol"
  let cost ← parse (← entryText entry "cost_basis")
  return some (symbol, ⟨qty, cost, seq⟩)

def addLot (book : LotBook D) (sleeve symbol : String) (lot : Lot D) : LotBook D :=
  book.setLots sleeve symbol (sortLots (book.lots sleeve symbol ++ [lot]))

/-- The loop over the entries of a close; `read` yields the lot to open, if any. -/
def addEntries (read : Json → Except PyError (Option (String × Lot D))) (target : String)
    (book : LotBook D) : List Json → Attempt (LotBook D)
  | [] => (book, none)
  | entry :: entries =>
    .guarded book (read entry) fun lot =>
      addEntries read target (lot.elim book fun l => addLot book target l.1 l.2) entries

/-- `_apply_sleeve_close`. -/
def applySleeveClose (book : LotBook D) (data : Payload) (seq : ℤ) : Attempt (LotBook D) :=
  let book : LotBook D :=
    (present data "sleeve_id").elim book fun source => book.insert source.pyStr ∅
  match present data "to_position_sleeve_id" with
  | none => (book, none)
  | some target =>
    let target := target.pyStr
    let book : LotBook D := book.insert target (book.getD target ∅)
    let raw := data.get "lots"
    if raw.truthy then
      .guarded book raw.iter fun entries =>
        addEntries (fun entry => (closedLot entry).map some) target book entries
    else
      let positions := data.get "positions"
      if positions.truthy then
        .guarded book positions.iter fun entries => addEntries (blendedLot seq) target book entries
      else (book, none)

/-- A position leg opens a lot or consumes lots; a sale that exceeds the open lots
clears them. -/
def applyLotPosting (book : LotBook D) (seq : ℤ) (p : Posting D) : Attempt (LotBook D) :=
  match p.bucket, p.sleeveId, p.symbol, p.qty with
  | .position, some sleeve, some symbol, some qty =>
    .guarded book (eq qty zero) fun isZero =>
      if isZero then (book, none)
      else
        let lots := book.lots sleeve symbol
        let book := book.setLots sleeve symbol lots
        .guarded book (lt zero qty) fun isBuy =>
          if isBuy then (book.setLots sleeve symbol (lots ++ [⟨qty, p.amount, seq⟩]), none)
          else
            .guarded book (do le (← sum (lots.map (·.qty))) (← neg qty)) fun clears =>
              if clears then (book.setLots sleeve symbol [], none)
              else
                .guarded book (neg qty >>= selectLotsFifo lots) fun r =>
                  (book.setLots sleeve symbol r.remainingLots, none)
  | _, _, _, _ => (book, none)

def applyLotPostings (book : LotBook D) (seq : ℤ) : List (Posting D) → Attempt (LotBook D)
  | [] => (book, none)
  | p :: ps => (applyLotPosting book seq p).andThen fun book => applyLotPostings book seq ps

/-- The body of the loop of `fold_lots_into`. -/
def applyLotEvent (book : LotBook D) (ev : LedgerEvent) : Attempt (LotBook D) :=
  .guarded book (LedgerEventType.coerce ev.eventType) fun t =>
    match t with
    | .splitApplied => applySplit book ev.data
    | .symbolChanged => applyRename book ev.data ev.sequence
    | .sleeveClosed => applySleeveClose book ev.data ev.sequence
    | t => .guarded book (buildPostings t ev.data) fun ps => applyLotPostings book ev.sequence ps

def foldLotsEvent (book : LotBook D) (ev : LedgerEvent) : LotBook D := (applyLotEvent book ev).1

/-- `fold_lots_into`, without its returned sequence number. -/
def foldLotsInto (book : LotBook D) (events : List LedgerEvent) : LotBook D :=
  events.foldl foldLotsEvent book

/-- `open_lots`. -/
def openLots (events : List LedgerEvent) (sleeve symbol : String) : List (Lot D) :=
  (foldLotsInto ∅ events).lots sleeve symbol

@[simp] theorem foldLotsInto_nil (book : LotBook D) : foldLotsInto book [] = book := rfl

@[simp] theorem foldLotsInto_cons (book : LotBook D) (ev : LedgerEvent)
    (events : List LedgerEvent) :
    foldLotsInto book (ev :: events) = foldLotsInto (foldLotsEvent book ev) events := rfl

theorem foldLotsInto_append (book : LotBook D) (es fs : List LedgerEvent) :
    foldLotsInto book (es ++ fs) = foldLotsInto (foldLotsInto book es) fs :=
  List.foldl_append

end Fold

end LlamaTrade
