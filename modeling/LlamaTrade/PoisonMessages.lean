import LlamaTrade.OrdinaryErrors
import LlamaTrade.RedeliveredMessages

/-!
# Messages that block the stream

A message that fails with anything but a `PoisonError` is retried in place for ever. The
entry handler turns into a `PoisonError` only what goes wrong in the translation and in the
lot selection. The theorem lists what a translated message needs so as not to be retried:
it is quarantined by the lot selection, or its legs build and balance, the row can be
stored, its id is not held by another tenant, and the freeze check can be evaluated.
-/

namespace LlamaTrade

/-- The append `e` that is written for `a`: rerouted and, for a sell without cost basis,
enriched from the open lots. -/
def WrittenAs (db : Database) (a e : LedgerAppend) : Prop :=
  if needsCostBasis (rerouteIfSleeveClosed db a) then
    ∃ lots, lotsFor db (rerouteIfSleeveClosed db a) = .ok lots ∧
      enrichSellFill (rerouteIfSleeveClosed db a) lots = .ok e
  else e = rerouteIfSleeveClosed db a

/-- A sell without cost basis whose quantity is a number that the open lots do not cover, or
that is not positive. -/
def Quarantined (db : Database) (a : LedgerAppend) : Prop :=
  needsCostBasis (rerouteIfSleeveClosed db a) = true ∧
    ∃ lots qty cls message, lotsFor db (rerouteIfSleeveClosed db a) = .ok lots ∧
      decimalItem (D := Decimal) (rerouteIfSleeveClosed db a).data "qty" = .ok qty ∧
      selectLotsFifo lots qty = .error (.valueError cls message)

/-- The database once the append is written, whether it was new or not. -/
def Database.withRow (db : Database) (a : LedgerAppend) : Database :=
  match h : db.findEvent a.eventId with
  | none => db.insertRow a h
  | some _ => db

/-- The freeze check can be evaluated, and a freeze that it asks for can be recorded. -/
def FreezeGoesThrough (env : Platform) (db : Database) (a : LedgerAppend) : Prop :=
  ∃ violations, sleeveViolations db a = .ok violations ∧
    (violations = [] ∨ ∀ sleeve, sleeveRow db a = some sleeve → sleeve.status ≠ .frozen →
      Accepted env (freezeAppend env a violations) ∧
        OwnConflict db (freezeAppend env a violations))

def Recordable (env : Platform) (db : Database) (a : LedgerAppend) : Prop :=
  ∃ e, WrittenAs db a e ∧ Accepted env e ∧ OwnConflict db e ∧
    (e.eventType = .orderFilled → FreezeGoesThrough env (db.withRow e) e)

section Steps

variable {env : Platform} {db : Database} {a e : LedgerAppend}

theorem prepared_iff : preparedAppend db a = .ok e ↔ WrittenAs db a e := by
  unfold preparedAppend WrittenAs
  dsimp only
  split_ifs
  · exact bind_eq_ok
  · rw [pure_eq_ok, Except.ok.injEq, eq_comm]

theorem append_eq_withRow (haccepted : Accepted env a) (hown : OwnConflict db a) :
    ∃ inserted, db.append env a = .ok (db.withRow a, inserted) := by
  obtain ⟨⟨db', inserted⟩, h⟩ := append_isOk_iff.mpr ⟨haccepted, hown⟩
  refine ⟨inserted, h.trans ?_⟩
  obtain ⟨-, ⟨hnone, rfl, -⟩ | ⟨row, hrow, -, rfl, -⟩⟩ := append_eq_ok h
  · unfold Database.withRow
    split
    · rfl
    · rename_i hsome
      rw [hnone] at hsome
      cases hsome
  · unfold Database.withRow
    split
    · rename_i hnone
      rw [hrow] at hnone
      cases hnone
    · rfl

theorem freeze_isOk_iff :
    (∃ db', freezeIfInvariantViolated env db a = .ok db') ↔ FreezeGoesThrough env db a := by
  unfold freezeIfInvariantViolated FreezeGoesThrough sleeveRow
  cases hviolations : sleeveViolations db a with
  | error e => simp
  | ok violations =>
    simp only [ok_bind, Except.ok.injEq, exists_eq_left']
    by_cases hnil : violations = []
    · simp [hnil, pure_eq_ok]
    · simp only [List.isEmpty_iff, hnil, if_false, false_or]
      cases hrow : a.sleeveId.bind fun id => db.getSleeve a.tenantId id with
      | none => simp [pure_eq_ok]
      | some sleeve =>
        simp only [Option.some.injEq, forall_eq']
        by_cases hfrozen : sleeve.status = .frozen
        · simp [hfrozen, pure_eq_ok]
        · have hiff := @append_isOk_iff env (db.setSleeveStatus sleeve.id .frozen)
            (freezeAppend env a violations)
          simp only [hfrozen, if_false, ne_eq, not_false_eq_true, forall_true_left]
          refine Iff.trans ⟨?_, ?_⟩ hiff
          · rintro ⟨db', h⟩
            obtain ⟨r, hr, -⟩ := bind_eq_ok.mp h
            exact ⟨r, hr⟩
          · rintro ⟨r, hr⟩
            exact ⟨r.1, bind_eq_ok.mpr ⟨r, hr, rfl⟩⟩

/-- The message is handled exactly when it is recordable. -/
theorem persistAppend_isOk_iff : (∃ db', persistAppend env db a = .ok db') ↔ Recordable env db a := by
  constructor
  · rintro ⟨db', h⟩
    obtain ⟨e, hprepared, h⟩ := bind_eq_ok.mp h
    obtain ⟨⟨db₁, inserted⟩, happend, h⟩ := bind_eq_ok.mp h
    obtain ⟨haccepted, hown⟩ := append_isOk_iff.mp ⟨_, happend⟩
    obtain ⟨inserted', hrow⟩ := append_eq_withRow haccepted hown
    cases hrow.symm.trans happend
    refine ⟨e, prepared_iff.mp hprepared, haccepted, hown, fun hfill => ?_⟩
    simp only [hfill, if_true] at h
    exact freeze_isOk_iff.mp ⟨db', h⟩
  · rintro ⟨e, hwritten, haccepted, hown, hfreeze⟩
    obtain ⟨inserted, happend⟩ := append_eq_withRow haccepted hown
    by_cases hfill : e.eventType = .orderFilled
    · obtain ⟨db', hdb'⟩ := freeze_isOk_iff.mpr (hfreeze hfill)
      refine ⟨db', bind_eq_ok.mpr ⟨e, prepared_iff.mpr hwritten, bind_eq_ok.mpr ⟨_, happend, ?_⟩⟩⟩
      simpa only [hfill, if_true] using hdb'
    · refine ⟨db.withRow e,
        bind_eq_ok.mpr ⟨e, prepared_iff.mpr hwritten, bind_eq_ok.mpr ⟨_, happend, ?_⟩⟩⟩
      simp only [hfill, if_false, pure_eq_ok]

end Steps

/-! ## Quarantine -/

section Quarantine

variable {env : Platform} {db : Database} {a : LedgerAppend}

theorem bind_eq_error {α β : Type} {x : Except PyError α} {f : α → Except PyError β} {err : PyError} :
    x >>= f = .error err ↔ x = .error err ∨ ∃ a, x = .ok a ∧ f a = .error err := by
  cases x with
  | error e => simp
  | ok a => simp

theorem append_not_quarantine (message : String) :
    db.append env a ≠ .error (.service .fillQuarantine message) := by
  intro h
  rcases bind_eq_error.mp h with h | ⟨ps, -, h⟩
  · exact ordinary_buildPostings _ _ _ _ h
  · rcases bind_eq_error.mp h with h | ⟨-, -, h⟩
    · exact ordinary_assertBalanced _ _ _ h
    · split_ifs at h
      · split at h
        · cases h
        · split_ifs at h
          · cases h
          · cases h
      · cases h

theorem freeze_not_quarantine (message : String) :
    freezeIfInvariantViolated env db a ≠ .error (.service .fillQuarantine message) := by
  intro h
  rcases bind_eq_error.mp h with h | ⟨violations, -, h⟩
  · exact ordinary_checkSleeveInvariants _ _ _ h
  · split_ifs at h
    · cases h
    · split at h
      · cases h
      · split_ifs at h
        · cases h
        · rcases bind_eq_error.mp h with h | ⟨r, -, h⟩
          · exact append_not_quarantine message h
          · cases h

theorem ordinary_feesOrZero (data : Payload) : Ordinary (feesOrZero (D := Decimal) data) :=
  ((ordinary_item _ _).bind fun _ => ordinary_toNumber _ _).ite (ordinary_pure _)

theorem ordinary_decimalItem (data : Payload) (key : String) :
    Ordinary (decimalItem (D := Decimal) data key) :=
  (ordinary_item _ _).bind fun _ => ordinary_toNumber _ _

theorem quarantineValueError_eq_error {α : Type} {qty : Decimal} {x : Except PyError α}
    (hx : Ordinary x) {message : String}
    (h : quarantineValueError a qty x = .error (.service .fillQuarantine message)) :
    ∃ cls text, x = .error (.valueError cls text) := by
  unfold quarantineValueError at h
  split at h
  · rename_i cls text
    exact ⟨cls, text, rfl⟩
  · exact absurd h (hx _ _)

/-- The preparation raises a `FillQuarantineError` exactly for a quarantined sell. -/
theorem prepared_quarantine_iff :
    (∃ message, preparedAppend db a = .error (.service .fillQuarantine message)) ↔
      Quarantined db a := by
  unfold preparedAppend Quarantined
  dsimp only
  by_cases hneeds : needsCostBasis (rerouteIfSleeveClosed db a) = true
  · simp only [hneeds, if_true, true_and]
    constructor
    · rintro ⟨message, h⟩
      rcases bind_eq_error.mp h with h | ⟨lots, hlots, h⟩
      · exact absurd h (Ordinary.bind (ordinary_text _ _) (fun _ => ordinary_pure _) _ _)
      · simp only [enrichSellFill, hneeds, if_true] at h
        rcases bind_eq_error.mp h with h | ⟨data, -, h⟩
        · rcases bind_eq_error.mp h with h | ⟨qty, hqty, h⟩
          · exact absurd h (ordinary_decimalItem _ _ _ _)
          · rcases bind_eq_error.mp h with h | ⟨result, -, h⟩
            · obtain ⟨cls, text, hselect⟩ :=
                quarantineValueError_eq_error (ordinary_selectLotsFifo _ _) h
              exact ⟨lots, qty, cls, text, hlots, hqty, hselect⟩
            · refine absurd h (Ordinary.bind (ordinary_decimalItem _ _) (fun price => ?_) _ _)
              exact (ordinary_feesOrZero _).bind fun _ => (ordinary_mul _ _).bind fun _ =>
                (ordinary_sub _ _).bind fun _ => (ordinary_sub _ _).bind fun _ => ordinary_pure _
        · cases h
    · rintro ⟨lots, qty, cls, message, hlots, hqty, hselect⟩
      obtain ⟨text, htext⟩ : ∃ text, quarantineValueError (rerouteIfSleeveClosed db a) qty
          (selectLotsFifo lots qty) = .error (.service .fillQuarantine text) := by
        rw [hselect]
        exact ⟨_, rfl⟩
      refine ⟨text, bind_eq_error.mpr (.inr ⟨lots, hlots, ?_⟩)⟩
      simp only [enrichSellFill, hneeds, if_true]
      refine bind_eq_error.mpr (.inl (bind_eq_error.mpr (.inr ⟨qty, hqty, ?_⟩)))
      exact bind_eq_error.mpr (.inl htext)
  · simp [hneeds, pure_eq_ok]

theorem persistAppend_quarantine_iff :
    (∃ message, persistAppend env db a = .error (.service .fillQuarantine message)) ↔
      Quarantined db a := by
  rw [← prepared_quarantine_iff]
  constructor
  · rintro ⟨message, h⟩
    rcases bind_eq_error.mp h with h | ⟨e, -, h⟩
    · exact ⟨message, h⟩
    · rcases bind_eq_error.mp h with h | ⟨r, -, h⟩
      · exact absurd h (append_not_quarantine message)
      · split_ifs at h
        · exact absurd h (freeze_not_quarantine message)
        · cases h
  · rintro ⟨message, h⟩
    exact ⟨message, bind_eq_error.mpr (.inl h)⟩

end Quarantine

/-- A message is not retried exactly when it cannot be translated, is quarantined by the lot
selection, or is recordable. -/
theorem entryHandler_not_transient_iff (env : Platform) (db : Database) (message : FillMessage) :
    (entryHandler env db message).isTransient = false ↔
      (∃ e, appendFromMessage env message = .error e) ∨
        ∃ a, appendFromMessage env message = .ok a ∧ (Quarantined db a ∨ Recordable env db a) := by
  unfold entryHandler
  cases htranslate : appendFromMessage env message with
  | error e => simp [Outcome.isTransient]
  | ok a =>
    simp only [reduceCtorEq, exists_false, false_or, Except.ok.injEq, exists_eq_left']
    rw [← persistAppend_isOk_iff, ← @persistAppend_quarantine_iff env db a]
    cases hpersist : persistAppend env db a with
    | ok db' => simp [Outcome.isTransient]
    | error e =>
      cases e with
      | service cls text =>
        cases cls <;> simp [Outcome.isTransient]
      | _ => simp [Outcome.isTransient]

/-- A buy whose quantity is no number is retried for ever. -/
theorem unreadable_quantity_is_retried :
    (entryHandler Sample.platform Sample.funded
      (Sample.fill "b1" "buy" "abc" "50")).isTransient = true := by
  decide

end LlamaTrade
