import LlamaTrade.LotBook

/-!
# The checkpoint codec

`encode_state` and `encode_lots` write the fold state and the lot book as a JSON
document with sorted keys and sorted terminal ids; `decode_state` and `decode_lots`
read it back strictly (`ledger/checkpoint_store.py`). A row that cannot be read is
treated as absent. The main result is what survives: everything but the order of
the terminal ids, provided that all amounts are finite.
-/

namespace LlamaTrade

/-- `STATE_VERSION`. -/
def stateVersion : ℤ := 2

/-- `CheckpointStateError`, a `ValueError`. -/
def checkpointStateError (message : String) : PyError :=
  .valueError "CheckpointStateError" message

def wrongType (field expected : String) (value : Json) : PyError :=
  checkpointStateError (field ++ ": expected " ++ expected ++ ", got " ++ value.typeName)

/-- `_mapping`. -/
def decodeMapping (value : Json) (field : String) : Except PyError Payload :=
  match value with
  | .obj fields => .ok fields
  | x => .error (wrongType field "object" x)

/-- `_string`. -/
def decodeString (value : Json) (field : String) : Except PyError String :=
  match value with
  | .str s => .ok s
  | x => .error (wrongType field "string" x)

/-- `_integer`. -/
def decodeInteger (value : Json) (field : String) : Except PyError ℤ :=
  match value with
  | .int n => .ok n
  | x => .error (wrongType field "integer" x)

def decodeList (value : Json) (field : String) : Except PyError (List Json) :=
  match value with
  | .list items => .ok items
  | x => .error (wrongType field "list" x)

/-- A dictionary built by a loop over the items of a mapping. -/
def decodeItems {α : Type} (read : String → Json → Except PyError α) :
    Payload → Except PyError (Dict α)
  | [] => pure ∅
  | (key, value) :: rest => do
    let x ← read key value
    let dict ← decodeItems read rest
    return dict.insert key x

def encodeItems {α : Type} (write : α → Json) (dict : Dict α) : Json :=
  .obj (dict.toList.map fun kv => (kv.1, write kv.2))

/-- `dict.fromkeys`: the distinct keys in the order of their first occurrence. -/
def fromKeys : List String → List String
  | [] => []
  | key :: keys => key :: (fromKeys keys).filter (· != key)

def sortText (keys : List String) : List String := keys.insertionSort (· ≤ ·)

section Codec

variable {D : Type} [Arithmetic D]

open Arithmetic

/-- `_decimal`. -/
def decodeDecimal (value : Json) (field : String) : Except PyError D :=
  match value with
  | .str s =>
    match ofText s with
    | none => .error (checkpointStateError (field ++ ": invalid decimal " ++ Json.quoteText s))
    | some d =>
      if isFinite d then .ok d
      else .error (checkpointStateError (field ++ ": non-finite decimal " ++ Json.quoteText s))
  | x => .error (wrongType field "decimal string" x)

def encodePosition (p : PositionState D) : Json :=
  .obj [("qty", .str (text p.qty)), ("cost_basis", .str (text p.costBasis))]

def encodeSleeve (s : SleeveProjection D) : Json :=
  .obj [("cash", .str (text s.cash)), ("realized_pnl", .str (text s.realizedPnl)),
    ("reserved", .str (text s.reserved)), ("positions", encodeItems encodePosition s.positions)]

def encodePending (entry : String × D) : Json :=
  .obj [("sleeve_id", .str entry.1), ("amount", .str (text entry.2))]

/-- `encode_state`. -/
def encodeState (s : FoldState D) : Payload :=
  [("v", .int stateVersion),
    ("projection", .obj [("poison_events", .int s.acc.poisonEvents),
      ("sleeves", encodeItems encodeSleeve s.acc.sleeves)]),
    ("reservations", .obj [("pending", encodeItems encodePending s.res.pending),
      ("terminal", .list ((sortText s.res.terminal).map .str))])]

def decodePosition (path : String) (symbol : String) (value : Json) :
    Except PyError (PositionState D) := do
  let path := path ++ ".positions[" ++ symbol ++ "]"
  let raw ← decodeMapping value path
  let qty ← decodeDecimal (raw.get "qty") (path ++ ".qty")
  let costBasis ← decodeDecimal (raw.get "cost_basis") (path ++ ".cost_basis")
  return ⟨qty, costBasis⟩

def decodeSleeve (sleeveId : String) (value : Json) : Except PyError (SleeveProjection D) := do
  let path := "sleeves[" ++ sleeveId ++ "]"
  let raw ← decodeMapping value path
  let rawPositions ← decodeMapping (raw.get "positions") (path ++ ".positions")
  let positions ← decodeItems (decodePosition path) rawPositions
  let cash ← decodeDecimal (raw.get "cash") (path ++ ".cash")
  let realizedPnl ← decodeDecimal (raw.get "realized_pnl") (path ++ ".realized_pnl")
  let reserved ← decodeDecimal (raw.get "reserved") (path ++ ".reserved")
  return ⟨cash, realizedPnl, reserved, positions⟩

def decodePending (coid : String) (value : Json) : Except PyError (String × D) := do
  let path := "pending[" ++ coid ++ "]"
  let entry ← decodeMapping value path
  let sleeveId ← decodeString (entry.get "sleeve_id") (path ++ ".sleeve_id")
  let amount ← decodeDecimal (entry.get "amount") (path ++ ".amount")
  return (sleeveId, amount)

/-- `decode_state`. -/
def decodeState (raw : Json) : Except PyError (FoldState D) := do
  let root ← decodeMapping raw "state"
  let version ← decodeInteger (root.get "v") "v"
  if version ≠ stateVersion then
    .error (checkpointStateError
      ("unsupported checkpoint state version " ++ (root.get "v").repr))
  else do
    let proj ← decodeMapping (root.get "projection") "projection"
    let rawSleeves ← decodeMapping (proj.get "sleeves") "sleeves"
    let sleeves ← decodeItems decodeSleeve rawSleeves
    let poisonEvents ← decodeInteger (proj.get "poison_events") "poison_events"
    let res ← decodeMapping (root.get "reservations") "reservations"
    let rawPending ← decodeMapping (res.get "pending") "pending"
    let pending ← decodeItems decodePending rawPending
    let rawTerminal ← decodeList (res.get "terminal") "terminal"
    let terminal ← rawTerminal.mapM (decodeString · "terminal[]")
    return ⟨⟨sleeves, poisonEvents⟩, ⟨pending, fromKeys terminal⟩⟩

def encodeLot (lot : Lot D) : Json :=
  .obj [("qty", .str (text lot.qty)), ("cost_basis", .str (text lot.costBasis)),
    ("opened_seq", .int lot.openedSeq)]

/-- `encode_lots`. -/
def encodeLots (book : LotBook D) : Json :=
  encodeItems (encodeItems fun lots => .list (lots.map encodeLot)) book

def decodeLot (path : String) (value : Json) : Except PyError (Lot D) := do
  let entry ← decodeMapping value path
  let qty ← decodeDecimal (entry.get "qty") (path ++ ".qty")
  let costBasis ← decodeDecimal (entry.get "cost_basis") (path ++ ".cost_basis")
  let openedSeq ← decodeInteger (entry.get "opened_seq") (path ++ ".opened_seq")
  return ⟨qty, costBasis, openedSeq⟩

def decodeLotEntries (path : String) (index : ℕ) : List Json → Except PyError (List (Lot D))
  | [] => pure []
  | entry :: entries => do
    let lot ← decodeLot (path ++ "[" ++ PyText.intText index ++ "]") entry
    let lots ← decodeLotEntries path (index + 1) entries
    return lot :: lots

def decodeSymbolLots (sleeveId symbol : String) (value : Json) :
    Except PyError (List (Lot D)) := do
  let path := "lots[" ++ sleeveId ++ "][" ++ symbol ++ "]"
  let entries ← decodeList value path
  decodeLotEntries path 0 entries

def decodeSleeveLots (sleeveId : String) (value : Json) :
    Except PyError (Dict (List (Lot D))) := do
  let symbols ← decodeMapping value ("lots[" ++ sleeveId ++ "]")
  decodeItems (decodeSymbolLots sleeveId) symbols

/-- `decode_lots`: an absent lot section is an empty book. -/
def decodeLots (raw : Json) : Except PyError (LotBook D) :=
  match raw with
  | .null => pure ∅
  | raw => do
    let sleeves ← decodeMapping raw "lots"
    decodeItems decodeSleeveLots sleeves

/-- The state column that `save` writes. -/
def savedState (s : FoldState D) (book : LotBook D) : Json :=
  .obj ((encodeState s).set "lots" (encodeLots book))

/-- What `load` reads from the state column; an unreadable one counts as absent. -/
def loadState (raw : Json) : Option (FoldState D × LotBook D) :=
  match decodeState raw, raw with
  | .ok s, .obj fields =>
    match decodeLots (Payload.get fields "lots") with
    | .ok book => some (s, book)
    | .error _ => none
  | _, _ => none

/-! ## What survives a save and a load -/

def PositionState.Finite (p : PositionState D) : Prop := isFinite p.qty ∧ isFinite p.costBasis

def SleeveProjection.Finite (s : SleeveProjection D) : Prop :=
  isFinite s.cash ∧ isFinite s.realizedPnl ∧ isFinite s.reserved ∧
    Dict.All PositionState.Finite s.positions

/-- No amount of the fold state is an infinity or a NaN. -/
def FoldState.Finite (s : FoldState D) : Prop :=
  Dict.All SleeveProjection.Finite s.acc.sleeves ∧
    Dict.All (fun entry => isFinite entry.2) s.res.pending

def Lot.Finite (lot : Lot D) : Prop := isFinite lot.qty ∧ isFinite lot.costBasis

def LotBook.Finite (book : LotBook D) : Prop :=
  Dict.All (Dict.All fun lots => ∀ lot ∈ lots, lot.Finite) book

/-- The reader `read` yields exactly the written values that satisfy `P`. -/
def ReadsBack {α : Type} (read : String → Json → Except PyError α) (write : α → Json)
    (P : α → Prop) : Prop :=
  ∀ key x y, read key (write x) = .ok y ↔ y = x ∧ P x

private def ofPairs {α : Type} (pairs : List (String × α)) : Dict α :=
  pairs.foldr (fun kv dict => dict.insert kv.1 kv.2) ∅

private theorem decodeItems_map {α : Type} {read : String → Json → Except PyError α}
    {write : α → Json} {P : α → Prop} (h : ReadsBack read write P) (pairs : List (String × α))
    (dict : Dict α) :
    decodeItems read (pairs.map fun kv => (kv.1, write kv.2)) = .ok dict ↔
      dict = ofPairs pairs ∧ ∀ kv ∈ pairs, P kv.2 := by
  induction pairs generalizing dict with
  | nil => simp [decodeItems, ofPairs, eq_comm]
  | cons kv pairs ih =>
    simp only [List.map_cons, decodeItems, bind_eq_ok, h kv.1, ih, pure_eq_ok, Except.ok.injEq,
      List.forall_mem_cons]
    constructor
    · rintro ⟨_, ⟨rfl, hx⟩, _, ⟨rfl, hxs⟩, rfl⟩
      exact ⟨rfl, hx, hxs⟩
    · rintro ⟨rfl, hx, hxs⟩
      exact ⟨_, ⟨rfl, hx⟩, _, ⟨rfl, hxs⟩, rfl⟩

private theorem mem_iff_getElem?_ofPairs {α : Type} {pairs : List (String × α)}
    (h : pairs.Pairwise fun a b => a.1 ≠ b.1) (key : String) (x : α) :
    (ofPairs pairs)[key]? = some x ↔ (key, x) ∈ pairs := by
  induction pairs with
  | nil => simp [ofPairs]
  | cons kv pairs ih =>
    obtain ⟨hkv, hpairs⟩ := List.pairwise_cons.mp h
    have hcons : ofPairs (kv :: pairs) = (ofPairs pairs).insert kv.1 kv.2 := rfl
    rw [hcons, Std.ExtTreeMap.getElem?_insert, List.mem_cons]
    by_cases hk : kv.1 = key
    · have hnot : (key, x) ∉ pairs := fun hm => hkv _ hm hk
      simp [hk, hnot, Prod.ext_iff, eq_comm]
    · simp [hk, ih hpairs, Prod.ext_iff, Ne.symm hk]

private theorem ofPairs_toList {α : Type} (dict : Dict α) : ofPairs dict.toList = dict := by
  have hdistinct : dict.toList.Pairwise fun a b => a.1 ≠ b.1 :=
    dict.distinct_keys_toList.imp fun h heq => h (by simp [heq])
  apply Std.ExtTreeMap.ext_getElem?
  intro key
  apply Option.ext
  intro x
  rw [mem_iff_getElem?_ofPairs hdistinct, Std.ExtTreeMap.mem_toList_iff_getElem?_eq_some]

/-- A dictionary is read back entry by entry. -/
theorem decodeItems_toList {α : Type} {read : String → Json → Except PyError α}
    {write : α → Json} {P : α → Prop} (h : ReadsBack read write P) (m dict : Dict α) :
    decodeItems read (m.toList.map fun kv => (kv.1, write kv.2)) = .ok dict ↔
      dict = m ∧ Dict.All P m := by
  rw [decodeItems_map h, ofPairs_toList]
  have hall : (∀ kv ∈ m.toList, P kv.2) ↔ Dict.All P m := by
    constructor
    · intro hm key x hx
      exact hm (key, x) (Std.ExtTreeMap.mem_toList_iff_getElem?_eq_some.mpr hx)
    · intro hm kv hkv
      exact hm kv.1 kv.2 (Std.ExtTreeMap.mem_toList_iff_getElem?_eq_some.mp hkv)
  rw [hall]

@[simp] theorem decodeDecimal_text (d r : D) (field : String) :
    decodeDecimal (.str (text d)) field = .ok r ↔ r = d ∧ isFinite d := by
  simp only [decodeDecimal, ofText_text]
  by_cases hd : isFinite d
  · simp [hd, eq_comm]
  · simp [hd]

theorem decodePosition_readsBack (path : String) :
    ReadsBack (decodePosition (D := D) path) encodePosition PositionState.Finite := by
  rintro symbol ⟨qty, cost⟩ r
  simp only [decodePosition, encodePosition, decodeMapping, ok_bind, Payload.get_cons, String.reduceEq,
    reduceIte, bind_eq_ok, decodeDecimal_text, pure_eq_ok, Except.ok.injEq,
    PositionState.Finite]
  constructor
  · rintro ⟨_, ⟨rfl, hq⟩, _, ⟨rfl, hc⟩, rfl⟩
    exact ⟨rfl, hq, hc⟩
  · rintro ⟨rfl, hq, hc⟩
    exact ⟨_, ⟨rfl, hq⟩, _, ⟨rfl, hc⟩, rfl⟩

theorem decodeSleeve_readsBack :
    ReadsBack (decodeSleeve (D := D)) encodeSleeve SleeveProjection.Finite := by
  rintro id ⟨cash, pnl, reserved, positions⟩ r
  simp only [decodeSleeve, encodeSleeve, encodeItems, decodeMapping, ok_bind, Payload.get_cons,
    String.reduceEq, reduceIte, bind_eq_ok, decodeItems_toList (decodePosition_readsBack _),
    decodeDecimal_text, pure_eq_ok, Except.ok.injEq, SleeveProjection.Finite]
  constructor
  · rintro ⟨_, ⟨rfl, hp⟩, _, ⟨rfl, hc⟩, _, ⟨rfl, hn⟩, _, ⟨rfl, hr⟩, rfl⟩
    exact ⟨rfl, hc, hn, hr, hp⟩
  · rintro ⟨rfl, hc, hn, hr, hp⟩
    exact ⟨_, ⟨rfl, hp⟩, _, ⟨rfl, hc⟩, _, ⟨rfl, hn⟩, _, ⟨rfl, hr⟩, rfl⟩

theorem decodePending_readsBack :
    ReadsBack (decodePending (D := D)) encodePending fun entry => isFinite entry.2 := by
  rintro coid ⟨sleeve, amount⟩ r
  simp only [decodePending, encodePending, decodeMapping, decodeString, ok_bind, Payload.get_cons,
    String.reduceEq, reduceIte, bind_eq_ok, decodeDecimal_text, pure_eq_ok, Except.ok.injEq]
  constructor
  · rintro ⟨_, ⟨rfl, ha⟩, rfl⟩
    exact ⟨rfl, ha⟩
  · rintro ⟨rfl, ha⟩
    exact ⟨_, ⟨rfl, ha⟩, rfl⟩

theorem mapM_decodeString (keys : List String) (field : String) :
    (keys.map Json.str).mapM (decodeString · field) = .ok keys := by
  induction keys with
  | nil => rfl
  | cons key keys ih =>
    rw [List.map_cons, List.mapM_cons, ih]
    rfl

theorem fromKeys_eq_self {keys : List String} (h : keys.Nodup) : fromKeys keys = keys := by
  induction keys with
  | nil => rfl
  | cons key keys ih =>
    obtain ⟨hkey, hkeys⟩ := List.nodup_cons.mp h
    have hfilter : keys.filter (· != key) = keys := by
      rw [List.filter_eq_self]
      intro x hx
      simpa using fun heq : x = key => hkey (heq ▸ hx)
    rw [fromKeys, ih hkeys, hfilter]

theorem sortText_perm (keys : List String) : (sortText keys).Perm keys :=
  List.perm_insertionSort _ keys

/-- A state is read back with its terminal ids sorted, exactly when its amounts are
finite. -/
theorem decodeState_encodeState {s : FoldState D} (h : s.res.terminal.Nodup) (lots : Json)
    (r : FoldState D) :
    decodeState (.obj ((encodeState s).set "lots" lots)) = .ok r ↔
      r = ⟨s.acc, ⟨s.res.pending, sortText s.res.terminal⟩⟩ ∧ s.Finite := by
  have hkeys : fromKeys (sortText s.res.terminal) = sortText s.res.terminal :=
    fromKeys_eq_self ((sortText_perm _).nodup_iff.mpr h)
  obtain ⟨⟨sleeves, poison⟩, ⟨pending, terminal⟩⟩ := s
  simp only [decodeState, decodeMapping, ok_bind, Payload.get_set, encodeState, Payload.get_cons,
    String.reduceEq, reduceIte, decodeInteger, ne_eq, not_true_eq_false, encodeItems, decodeList,
    mapM_decodeString, bind_eq_ok, decodeItems_toList decodeSleeve_readsBack,
    decodeItems_toList decodePending_readsBack, pure_eq_ok, Except.ok.injEq, FoldState.Finite]
  rw [hkeys]
  constructor
  · rintro ⟨_, ⟨rfl, hs⟩, _, ⟨rfl, hp⟩, rfl⟩
    exact ⟨rfl, hs, hp⟩
  · rintro ⟨rfl, hs, hp⟩
    exact ⟨_, ⟨rfl, hs⟩, _, ⟨rfl, hp⟩, rfl⟩

theorem decodeLot_encodeLot (path : String) (lot r : Lot D) :
    decodeLot path (encodeLot lot) = .ok r ↔ r = lot ∧ lot.Finite := by
  obtain ⟨qty, cost, seq⟩ := lot
  simp only [decodeLot, encodeLot, decodeMapping, decodeInteger, ok_bind, Payload.get_cons,
    String.reduceEq, reduceIte, bind_eq_ok, decodeDecimal_text, pure_eq_ok, Except.ok.injEq,
    Lot.Finite]
  constructor
  · rintro ⟨_, ⟨rfl, hq⟩, _, ⟨rfl, hc⟩, rfl⟩
    exact ⟨rfl, hq, hc⟩
  · rintro ⟨rfl, hq, hc⟩
    exact ⟨_, ⟨rfl, hq⟩, _, ⟨rfl, hc⟩, rfl⟩

theorem decodeLotEntries_map (path : String) (index : ℕ) (lots r : List (Lot D)) :
    decodeLotEntries path index (lots.map encodeLot) = .ok r ↔
      r = lots ∧ ∀ lot ∈ lots, lot.Finite := by
  induction lots generalizing index r with
  | nil => simp [decodeLotEntries, eq_comm]
  | cons lot lots ih =>
    simp only [List.map_cons, decodeLotEntries, bind_eq_ok, decodeLot_encodeLot, ih, pure_eq_ok,
      Except.ok.injEq, List.forall_mem_cons]
    constructor
    · rintro ⟨_, ⟨rfl, hl⟩, _, ⟨rfl, hls⟩, rfl⟩
      exact ⟨rfl, hl, hls⟩
    · rintro ⟨rfl, hl, hls⟩
      exact ⟨_, ⟨rfl, hl⟩, _, ⟨rfl, hls⟩, rfl⟩

theorem decodeSymbolLots_readsBack (sleeve : String) :
    ReadsBack (decodeSymbolLots (D := D) sleeve) (fun lots => .list (lots.map encodeLot))
      fun lots => ∀ lot ∈ lots, lot.Finite := by
  intro symbol lots r
  simp only [decodeSymbolLots, decodeList, ok_bind, decodeLotEntries_map]

theorem decodeSleeveLots_readsBack :
    ReadsBack (decodeSleeveLots (D := D)) (encodeItems fun lots => .list (lots.map encodeLot))
      (Dict.All fun lots => ∀ lot ∈ lots, lot.Finite) := by
  intro sleeve symbols r
  simp only [decodeSleeveLots, encodeItems, decodeMapping, ok_bind,
    decodeItems_toList (decodeSymbolLots_readsBack _)]

theorem decodeLots_encodeLots (book r : LotBook D) :
    decodeLots (encodeLots book) = .ok r ↔ r = book ∧ book.Finite := by
  simp only [decodeLots, encodeLots, encodeItems, decodeMapping, ok_bind, LotBook.Finite]
  exact decodeItems_toList decodeSleeveLots_readsBack book r

/-- A saved checkpoint loads with its terminal ids sorted, exactly when all amounts
in it are finite. -/
theorem loadState_savedState {s : FoldState D} (h : s.res.terminal.Nodup) (book : LotBook D)
    (r : FoldState D × LotBook D) :
    loadState (savedState s book) = some r ↔
      r = (⟨s.acc, ⟨s.res.pending, sortText s.res.terminal⟩⟩, book) ∧ s.Finite ∧ book.Finite := by
  have hstate := decodeState_encodeState h (encodeLots book)
  have hlots := decodeLots_encodeLots book
  simp only [loadState, savedState]
  cases hs : decodeState (D := D) (.obj ((encodeState s).set "lots" (encodeLots book))) with
  | error e =>
    have hnot : ¬ s.Finite := by
      intro hfin
      have hok := (hstate _).mpr ⟨rfl, hfin⟩
      rw [hs] at hok
      cases hok
    simp [hnot]
  | ok s' =>
    obtain ⟨rfl, hfin⟩ := (hstate s').mp hs
    cases hb : decodeLots (D := D) (encodeLots book) with
    | error e =>
      have hnot : ¬ book.Finite := by
        intro hbook
        have hok := (hlots _).mpr ⟨rfl, hbook⟩
        rw [hb] at hok
        cases hok
      simp [Payload.get_set, hb, hnot]
    | ok book' =>
      obtain ⟨rfl, hbook⟩ := (hlots book').mp hb
      simp [Payload.get_set, hb, hfin, hbook, eq_comm]

end Codec

end LlamaTrade
