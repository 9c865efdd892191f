import LlamaTrade.LotBook
import LlamaTrade.PythonUuid

/-!
# Planned events

Corporate actions and sleeve closes are planned from the projected state and appended
as self-contained events (`ledger/corporate.py`, `ledger/lifecycle.py`). A split or a
rename is fanned out over the sleeves that hold the symbol; a close enumerates the
positions, lots and cash it moves.
-/

namespace LlamaTrade

/-- `PlannedCorporateEvent`. -/
structure PlannedCorporateEvent where
  eventType : LedgerEventType
  sleeveId : UUID
  data : Payload
  dedupKey : String

/-- `RehomedPosition`. -/
structure RehomedPosition (D : Type) where
  symbol : String
  qty : D
  costBasis : D
  lots : List (Lot D)

/-- `ClosePlan`. -/
structure ClosePlan (D : Type) where
  eventData : Payload
  positions : List (RehomedPosition D)
  cash : D

section Planners

variable {D : Type} [Arithmetic D]

open Arithmetic

/-- The event of one holder in the loop of `plan_split`; sleeves without a position or
without a change are skipped. -/
def splitEvent (symbol : String) (ratio : D) (externalId : String) (sleeveId : UUID) (qty : D) :
    Except PyError (Option PlannedCorporateEvent) := do
  if ← eq qty zero then return none
  let qtyDelta ← mul qty (← sub ratio (ofInt 1))
  if ← eq qtyDelta zero then return none
  return some
    { eventType := .splitApplied
      sleeveId
      data := [("sleeve_id", .str sleeveId.text), ("symbol", .str symbol),
        ("qty_delta", .str (text qtyDelta))]
      dedupKey := "split:" ++ symbol ++ ":" ++ externalId ++ ":" ++ text ratio ++ ":" ++
        sleeveId.text }

def splitEvents (symbol : String) (ratio : D) (externalId : String) :
    List (UUID × D) → Except PyError (List PlannedCorporateEvent)
  | [] => pure []
  | holder :: holders => do
    let ev ← splitEvent symbol ratio externalId holder.1 holder.2
    let evs ← splitEvents symbol ratio externalId holders
    return ev.toList ++ evs

/-- `plan_split`. -/
def planSplit (symbol : String) (ratio : D) (holders : List (UUID × D)) (externalId : String) :
    Except PyError (List PlannedCorporateEvent) := do
  if ← le ratio zero then
    .error (.valueError "ValueError" ("split ratio must be positive, got " ++ text ratio))
  else if externalId = "" then
    .error (.valueError "ValueError"
      "split external_id is required (the announcement id) to key the dedup")
  else splitEvents symbol ratio externalId holders

/-- The event of one holder in the loop of `plan_symbol_change`. -/
def renameEvent (oldSymbol newSymbol externalId : String) (sleeveId : UUID)
    (held : PositionState D) : Except PyError (Option PlannedCorporateEvent) := do
  if ← eq held.qty zero then return none
  return some
    { eventType := .symbolChanged
      sleeveId
      data := [("sleeve_id", .str sleeveId.text), ("old_symbol", .str oldSymbol),
        ("new_symbol", .str newSymbol), ("qty", .str (text held.qty)),
        ("cost_basis", .str (text held.costBasis))]
      dedupKey := "rename:" ++ oldSymbol ++ ":" ++ newSymbol ++ ":" ++ externalId ++ ":" ++
        sleeveId.text }

def renameEvents (oldSymbol newSymbol externalId : String) :
    List (UUID × PositionState D) → Except PyError (List PlannedCorporateEvent)
  | [] => pure []
  | holder :: holders => do
    let ev ← renameEvent oldSymbol newSymbol externalId holder.1 holder.2
    let evs ← renameEvents oldSymbol newSymbol externalId holders
    return ev.toList ++ evs

/-- `plan_symbol_change`. -/
def planSymbolChange (oldSymbol newSymbol : String) (holders : List (UUID × PositionState D))
    (externalId : String) : Except PyError (List PlannedCorporateEvent) :=
  if externalId = "" then
    .error (.valueError "ValueError"
      "rename external_id is required (the announcement id) to key the dedup")
  else renameEvents oldSymbol newSymbol externalId holders

def closePosition (p : RehomedPosition D) : Json :=
  .obj [("symbol", .str p.symbol), ("qty", .str (text p.qty)),
    ("cost_basis", .str (text p.costBasis))]

def closeLot (symbol : String) (lot : Lot D) : Json :=
  .obj [("symbol", .str symbol), ("qty", .str (text lot.qty)),
    ("cost_basis", .str (text lot.costBasis)), ("opened_seq", .str (PyText.intText lot.openedSeq))]

def closeLots (positions : List (RehomedPosition D)) : List Json :=
  positions.flatMap fun p => p.lots.map (closeLot p.symbol)

/-- Drop the positions without quantity. -/
def nonzeroPositions : List (RehomedPosition D) → Except PyError (List (RehomedPosition D))
  | [] => pure []
  | p :: ps => do
    let isZero ← eq p.qty zero
    let rest ← nonzeroPositions ps
    return if isZero then rest else p :: rest

/-- The `SLEEVE_CLOSED` payload of `plan_sleeve_close`. -/
def closeData (fromSleeve unmanaged unallocated : UUID) (positions : List (RehomedPosition D))
    (cash : D) (reason : Option String) : Payload :=
  let data : Payload := [("sleeve_id", .str fromSleeve.text),
    ("to_position_sleeve_id", .str unmanaged.text), ("to_cash_sleeve_id", .str unallocated.text),
    ("positions", .list (positions.map closePosition)), ("cash", .str (text cash))]
  let lots := closeLots positions
  let data := if lots.isEmpty then data else data ++ [("lots", .list lots)]
  match reason with
  | some r => if r = "" then data else data ++ [("reason", .str r)]
  | none => data

/-- `plan_sleeve_close`. -/
def planSleeveClose (fromSleeve : UUID) (positions : List (RehomedPosition D)) (cash : D)
    (unmanaged unallocated : UUID) (reason : Option String) : Except PyError (ClosePlan D) := do
  let nonzero ← nonzeroPositions positions
  return ⟨closeData fromSleeve unmanaged unallocated nonzero cash reason, nonzero, cash⟩

/-- The loop of `close_sleeve` over the positions of the sleeve, with the lots that its
lot reader finds. -/
def rehomedPositions (lotsOf : String → List (Lot D)) :
    List (String × PositionState D) → Except PyError (List (RehomedPosition D))
  | [] => pure []
  | (symbol, pos) :: rest => do
    let isZero ← eq pos.qty zero
    let ps ← rehomedPositions lotsOf rest
    return if isZero then ps else ⟨symbol, pos.qty, pos.costBasis, lotsOf symbol⟩ :: ps

end Planners

end LlamaTrade
