import LlamaTrade.AdmissibleStreams
import LlamaTrade.SkippedEvents

/-!
# Poison events and the lot book

The lot fold reads the payload of an event by its own code. It does not run the balance
check, and a rename or a close writes the book before all fields are read. An event that the
balance fold skips leaves the book alone when its legs cannot even be built, unless it is a
rename or a close.
-/

namespace LlamaTrade

open Arithmetic PyText

/-! ## Two readers of a number -/

theorem strip_bracket {c : Char} {cs : List Char} (hc : isSpace c = false) :
    ∃ rest, strip (c :: cs) = c :: rest := by
  have hdrop : (c :: cs).dropWhile isSpace = c :: cs := by
    rw [List.dropWhile_cons_of_neg (by simp [hc])]
  rw [strip, hdrop]
  have hprefix : (c :: cs).rdropWhile isSpace <+: c :: cs := List.rdropWhile_prefix _ _
  cases hstrip : (c :: cs).rdropWhile isSpace with
  | nil =>
    have hall := List.rdropWhile_eq_nil_iff.mp hstrip c List.mem_cons_self
    rw [hc] at hall
    cases hall
  | cons x xs =>
    rw [hstrip] at hprefix
    obtain ⟨rest, hrest⟩ := hprefix
    rw [List.cons_append, List.cons.injEq] at hrest
    exact ⟨xs, by rw [hrest.1]⟩

/-- A text that begins with an opening bracket is no number. -/
theorem ofText_bracket {s : String} {c : Char} {cs : List Char} (hs : s.toList = c :: cs)
    (hc : c = '[' ∨ c = '\x7b') : Decimal.ofText s = none := by
  have hspace : isSpace c = false := by rcases hc with rfl | rfl <;> decide
  obtain ⟨rest, hrest⟩ := @strip_bracket c cs hspace
  rw [Decimal.ofText, hs, hrest, List.filter_cons_of_pos (by rcases hc with rfl | rfl <;> decide)]
  rcases hc with rfl | rfl
  · have hdigit : digitValue '[' = none := by decide
    have hlow : Char.toLower '[' = '[' := by decide
    simp [Decimal.parseChars, takeSign, Decimal.parseUnsigned, takeDigits, hdigit,
      Decimal.takeFraction, Decimal.special, hlow]
  · have hdigit : digitValue '\x7b' = none := by decide
    have hlow : Char.toLower '\x7b' = '\x7b' := by decide
    simp [Decimal.parseChars, takeSign, Decimal.parseUnsigned, takeDigits, hdigit,
      Decimal.takeFraction, Decimal.special, hlow]

/-- What `Decimal(str(x))` reads, `_d` reads too. -/
theorem toNumber_of_parse {x : Json} {d : Decimal} (key : String) (h : parse x.pyStr = .ok d) :
    ∃ d' : Decimal, toNumber key x = .ok d' := by
  have hsome : ∀ s, (parse s : Except PyError Decimal) = .ok d → Decimal.ofText s ≠ none := by
    intro s hparse hnone
    have htext : ofText (D := Decimal) s = none := hnone
    rw [parse, htext] at hparse
    cases hparse
  cases x with
  | str s => exact ⟨d, h⟩
  | int n => exact ⟨_, rfl⟩
  | bool b => exact ⟨_, rfl⟩
  | float f => exact ⟨d, h⟩
  | null => exact absurd rfl (hsome _ h)
  | list items =>
    have hhead : (Json.list items).pyStr.toList =
        '[' :: (String.intercalate ", " (Json.reprItems items) ++ "]").toList := by
      simp [Json.pyStr, Json.repr]
    exact absurd (ofText_bracket hhead (.inl rfl)) (hsome _ h)
  | obj fields =>
    have hhead : (Json.obj fields).pyStr.toList =
        '\x7b' :: (String.intercalate ", " (Json.reprFields fields) ++ "\x7d").toList := by
      simp [Json.pyStr, Json.repr]
    exact absurd (ofText_bracket hhead (.inr rfl)) (hsome _ h)

/-! ## What the lot fold leaves alone -/

/-- The lot fold does not write for an event whose legs the balance fold does not apply: the
legs of a fill, an adoption or a split cannot be built, a split finds no lots, a rename names
no sleeve, and a close names neither its sleeve nor a target. -/
def LeavesLots (book : LotBook Decimal) (data : Payload) : LedgerEventType → Prop
  | .orderFilled => ∃ e, buildPostings (D := Decimal) .orderFilled data = .error e
  | .externalTradeDetected =>
    ∃ e, buildPostings (D := Decimal) .externalTradeDetected data = .error e
  | .splitApplied => (∃ e, buildPostings (D := Decimal) .splitApplied data = .error e) ∨
      ∀ sleeve symbol, data.text "sleeve_id" = .ok sleeve → data.text "symbol" = .ok symbol →
        book.lots sleeve symbol = []
  | .symbolChanged => ∃ e, data.text "sleeve_id" = .error e
  | .sleeveClosed =>
    present data "sleeve_id" = none ∧ present data "to_position_sleeve_id" = none
  | _ => True

section Leaves

variable {book : LotBook Decimal} {data : Payload}

/-- A split whose legs cannot be built, or that finds no lots, writes nothing. -/
theorem applySplit_leaves (h : LeavesLots book data .splitApplied) :
    (applySplit book data).1 = book := by
  unfold applySplit
  cases hsleeve : data.text "sleeve_id" with
  | error e => rfl
  | ok sleeve =>
    rw [Attempt.guarded_ok]
    cases hsymbol : data.text "symbol" with
    | error e => rfl
    | ok symbol =>
      rw [Attempt.guarded_ok]
      dsimp only
      split_ifs with hempty
      · rfl
      · rcases h with ⟨e, hbuild⟩ | hlots
        · cases hdelta : (data.text "qty_delta" >>= parse : Except PyError Decimal) with
          | error e => rfl
          | ok delta =>
            obtain ⟨raw, hraw, hparse⟩ := bind_eq_ok.mp hdelta
            have hnumber : ∃ d : Decimal, number data "qty_delta" = .ok d := by
              unfold Payload.text at hraw
              cases hitem : data.item "qty_delta" with
              | error e =>
                rw [hitem] at hraw
                cases hraw
              | ok x =>
                rw [hitem] at hraw
                cases hraw
                obtain ⟨d, hd⟩ := toNumber_of_parse "qty_delta" hparse
                exact ⟨d, by rw [number, hitem, ok_bind, hd]⟩
            obtain ⟨d, hd⟩ := hnumber
            simp only [buildPostings, hsleeve, hsymbol, hd, ok_bind] at hbuild
            cases hbuild
        · exact absurd (hlots sleeve symbol hsleeve hsymbol) (by simpa using hempty)

/-- An event that leaves the lots alone leaves the book exactly as it was. -/
theorem foldLotsEvent_leaves {ev : LedgerEvent} {t : LedgerEventType}
    (ht : LedgerEventType.coerce ev.eventType = .ok t) (h : LeavesLots book ev.data t) :
    foldLotsEvent book ev = book := by
  have hlegs : (∃ e, buildPostings (D := Decimal) t ev.data = .error e) ∨ t.movesPositions = false →
      (Attempt.guarded book (buildPostings (D := Decimal) t ev.data) fun ps =>
        applyLotPostings book ev.sequence ps).1 = book := by
    intro hcase
    cases hbuild : buildPostings (D := Decimal) t ev.data with
    | error e => rfl
    | ok ps =>
      rw [Attempt.guarded_ok]
      rcases hcase with ⟨e, he⟩ | hmoves
      · rw [hbuild] at he
        cases he
      · rw [applyLotPostings_of_no_position book _
          (buildPostings_of_not_movesPositions hmoves hbuild)]
  unfold foldLotsEvent applyLotEvent
  rw [ht, Attempt.guarded_ok]
  cases t with
  | splitApplied => exact applySplit_leaves h
  | symbolChanged =>
    obtain ⟨e, he⟩ := h
    simp only [applyRename, he, Attempt.guarded_error]
  | sleeveClosed =>
    obtain ⟨hsource, htarget⟩ := h
    simp only [applySleeveClose, hsource, htarget, Option.elim_none]
  | orderFilled => exact hlegs (.inl h)
  | externalTradeDetected => exact hlegs (.inl h)
  | _ => exact hlegs (.inr rfl)

end Leaves

/-! ## Streams -/

/-- The event is applied by the balance fold, or left alone by the lot fold. -/
def SkippedByBoth (s : FoldState Decimal × LotBook Decimal) (ev : LedgerEvent) : Prop :=
  (applyEvent s.1 ev).2 = none ∨
    ∀ t, LedgerEventType.coerce ev.eventType = .ok t → LeavesLots s.2 ev.data t

/-- One event of both folds, as a step. -/
def foldBothStep (s : FoldState Decimal × LotBook Decimal) (ev : LedgerEvent) :
    Option (FoldState Decimal × LotBook Decimal) :=
  some (foldEvent s.1 ev, foldLotsEvent s.2 ev)

theorem run_foldBothStep (s : FoldState Decimal × LotBook Decimal) (events : List LedgerEvent) :
    Transition.run foldBothStep s events =
      some (foldInto s.1 events, foldLotsInto s.2 events) := by
  induction events generalizing s with
  | nil => rfl
  | cons ev events ih => exact ih (foldEvent s.1 ev, foldLotsEvent s.2 ev)

theorem foldLotsEvent_skipped {s : FoldState Decimal × LotBook Decimal} {ev : LedgerEvent}
    (h : SkippedByBoth s ev)
    (hskipped : (foldEvent s.1 ev).acc.poisonEvents ≠ s.1.acc.poisonEvents) :
    foldLotsEvent s.2 ev = s.2 := by
  rcases h with happlied | hleaves
  · rw [foldEvent_poison, if_pos happlied, add_zero] at hskipped
    exact absurd rfl hskipped
  · cases ht : LedgerEventType.coerce ev.eventType with
    | error e => simp only [foldLotsEvent, applyLotEvent, ht, Attempt.guarded_error]
    | ok t => exact foldLotsEvent_leaves ht (hleaves t ht)

/-- In every stream in which each event that the balance fold skips is one that the lot fold
leaves alone, a poison event leaves the lot book exactly as it was. -/
theorem poison_events_leave_lots {s : FoldState Decimal × LotBook Decimal} {events : List LedgerEvent}
    (hmeets : Transition.Meets foldBothStep SkippedByBoth s events) :
    ∀ done ev rest, events = done ++ ev :: rest →
      (foldInto s.1 (done ++ [ev])).acc.poisonEvents ≠ (foldInto s.1 done).acc.poisonEvents →
        foldLotsInto s.2 (done ++ [ev]) = foldLotsInto s.2 done := by
  intro done ev rest hevents hskipped
  rw [hevents] at hmeets
  have hev := (Transition.meets_of_append hmeets (run_foldBothStep s done)).1
  rw [foldInto_append, foldInto_cons, foldInto_nil] at hskipped
  rw [foldLotsInto_append, foldLotsInto_cons, foldLotsInto_nil]
  have hkept := foldLotsEvent_skipped hev hskipped
  exact hkept

namespace Sample

/-- A buy of ten shares at a price. -/
def buyAt (price : String) : LedgerEvent where
  sequence := 1
  eventType := LedgerEventType.orderFilled.value
  data := [("sleeve_id", .str "a"), ("symbol", .str "SPY"), ("side", .str "buy"), ("qty", .str "10"),
    ("price", .str price)]

/-- A close with an amount of cash that is no number. -/
def unreadableClose : LedgerEvent where
  sequence := 2
  eventType := LedgerEventType.sleeveClosed.value
  data := [("sleeve_id", .str "a"), ("cash", .str "x")]

end Sample

theorem Sample.skipped_evaluated :
    (((foldInto (D := Decimal) .empty [buyAt "50"]).acc.poisonEvents = 0 ∧
      (foldInto (D := Decimal) .empty [buyAt "50", buyAt "x"]).acc.poisonEvents = 1) ∧
      (applyEvent (D := Decimal) .empty (buyAt "50")).2 = none) ∧
    (foldInto (D := Decimal) .empty [buyAt "50", unreadableClose]).acc.poisonEvents = 1 ∧
      (LotBook.lots (foldLotsInto (D := Decimal) ∅ [buyAt "50"]) "a" "SPY").length = 1 ∧
      (LotBook.lots (foldLotsInto (D := Decimal) ∅
        [buyAt "50", unreadableClose]) "a" "SPY").length = 0 := by decide

theorem poison_events_leave_lots_unreadable :
    (foldInto (D := Decimal) .empty [Sample.buyAt "50", Sample.buyAt "x"]).acc.poisonEvents = 1 ∧
    foldLotsInto (D := Decimal) ∅ [Sample.buyAt "50", Sample.buyAt "x"] =
      foldLotsInto ∅ [Sample.buyAt "50"] := by
  obtain ⟨hcounts, happlied⟩ := Sample.skipped_evaluated.1
  have hrefused : buildPostings (D := Decimal) .orderFilled (Sample.buyAt "x").data =
      .error (.arithmeticError .invalidOperation) := by rfl
  have hmeets : Transition.Meets foldBothStep SkippedByBoth (.empty, ∅)
      [Sample.buyAt "50", Sample.buyAt "x"] := by
    refine ⟨.inl happlied, fun s' _ => ⟨.inr fun t ht => ?_, fun _ _ => trivial⟩⟩
    cases ht
    exact ⟨_, hrefused⟩
  refine ⟨hcounts.2, poison_events_leave_lots hmeets [Sample.buyAt "50"] (Sample.buyAt "x") [] rfl ?_⟩
  have hne : (0 : ℤ) ≠ 1 := by decide
  rw [hcounts.1]
  exact fun heq => hne (heq.symm.trans hcounts.2)

/-- The balance fold skips the close and keeps the ten shares; the lot fold has dropped them. -/
theorem skipped_close_drops_lots :
    (foldInto (D := Decimal) .empty [Sample.buyAt "50", Sample.unreadableClose]).acc.poisonEvents = 1 ∧
    foldLotsInto (D := Decimal) ∅ [Sample.buyAt "50", Sample.unreadableClose] ≠
      foldLotsInto ∅ [Sample.buyAt "50"] := by
  obtain ⟨hcount, hbefore, hafter⟩ := Sample.skipped_evaluated.2
  refine ⟨hcount, fun heq => ?_⟩
  rw [heq, hbefore] at hafter
  cases hafter

end LlamaTrade
