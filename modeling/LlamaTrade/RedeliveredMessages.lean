import LlamaTrade.WriterSpec

/-!
# Redelivered messages

The stream delivers at least once, and the writer drops an event whose id it has. But the
rerouting, the enrichment and the freeze check run on the state that the first delivery
left. A redelivered message is a no-op exactly when these steps still go through: the lots
cover a sell without cost basis once more, and the freeze check finds nothing to freeze.
-/

namespace LlamaTrade

/-! ## Translated appends -/

/-- The data of a translated append starts with the text of its sleeve. -/
structure Translated (a : LedgerAppend) (text : String) (sleeve : UUID) (tail : Payload) : Prop where
  data : a.data = ("sleeve_id", .str text) :: tail
  parsed : UUID.parse text = .ok sleeve
  sleeveId : a.sleeveId = some sleeve

theorem appendFromMessage_translated {env : Platform} {message : FillMessage} {a : LedgerAppend}
    (h : appendFromMessage env message = .ok a) :
    ∃ text sleeve tail, Translated a text sleeve tail := by
  cases message with
  | fill fill =>
    simp only [appendFromMessage, fillToAppend, bind_eq_ok] at h
    obtain ⟨coid, -, text, -, symbol, -, side, -, qty, -, price, -, _, -, tenant, -, _, -, account, -,
      sleeve, hsleeve, ha⟩ := h
    cases ha
    exact ⟨text, sleeve, _, rfl, hsleeve, rfl⟩
  | reservation reservation =>
    simp only [appendFromMessage, reservationToAppend, bind_eq_ok] at h
    obtain ⟨_, -, t, -, coid, -, text, -, _, -, tenant, -, _, -, account, -, sleeve, hsleeve, ha⟩ := h
    cases ha
    exact ⟨text, sleeve, _, rfl, hsleeve, rfl⟩

/-- A message is a fill or has no legs. -/
theorem appendFromMessage_eventType {env : Platform} {message : FillMessage} {a : LedgerAppend}
    (h : appendFromMessage env message = .ok a) :
    a.eventType = .orderFilled ∨ ∀ data, buildPostings (D := Decimal) a.eventType data = .ok [] := by
  cases message with
  | fill fill =>
    simp only [appendFromMessage, fillToAppend, bind_eq_ok] at h
    obtain ⟨coid, -, text, -, symbol, -, side, -, qty, -, price, -, _, -, tenant, -, _, -, account, -,
      sleeve, hsleeve, ha⟩ := h
    cases ha
    exact .inl rfl
  | reservation reservation =>
    simp only [appendFromMessage, reservationToAppend, bind_eq_ok] at h
    obtain ⟨kind, -, t, ht, coid, -, text, -, _, -, tenant, -, _, -, account, -, sleeve, hsleeve, ha⟩ :=
      h
    cases ha
    right
    unfold lifecycleEventType at ht
    split_ifs at ht <;> (cases ht; exact fun _ => rfl)

section Rerouted

variable {a : LedgerAppend} {text : String} {sleeve : UUID} {tail : Payload}

/-- Rerouting replaces the text of the sleeve by one without a NUL character, or keeps it. -/
theorem Translated.reroute (h : Translated a text sleeve tail) (db : Database) :
    ∃ text', (rerouteIfSleeveClosed db a).data = ("sleeve_id", .str text') :: tail ∧
      '\x00' ∉ text'.toList := by
  have hkeep : ∃ text', a.data = ("sleeve_id", .str text') :: tail ∧ '\x00' ∉ text'.toList :=
    ⟨text, h.data, UUID.nul_not_mem_of_parse h.parsed⟩
  unfold rerouteIfSleeveClosed
  split
  · exact hkeep
  · split_ifs
    · split
      · exact hkeep
      · rename_i unmanaged _
        refine ⟨unmanaged.id.text, ?_, unmanaged.id.nul_not_mem_text⟩
        simp [h.data, Payload.set]
    · exact hkeep

end Rerouted

/-! ## The text of the sleeve does not matter -/

/-- The same leg on another sleeve. -/
def Posting.onSleeve (sleeve : String) (p : Posting Decimal) : Posting Decimal :=
  { p with sleeveId := some sleeve }

theorem except_map_bind {α β γ : Type} (x : Except PyError α) (f : α → Except PyError β)
    (g : β → γ) : (x >>= f).map g = x >>= fun a => (f a).map g := by cases x <;> rfl

theorem orderFilledPostings_sleeve (text text' : String) (tail : Payload) :
    orderFilledPostings (("sleeve_id", .str text') :: tail) =
      (orderFilledPostings (("sleeve_id", .str text) :: tail)).map
        (List.map (Posting.onSleeve text')) := by
  have hlookup : ∀ key v, key ≠ "sleeve_id" →
      List.lookup key (("sleeve_id", v) :: tail) = tail.lookup key := by
    intro key v hkey
    have hne : (key == "sleeve_id") = false := by simpa using hkey
    simp [List.lookup_cons, hne]
  have hitem : ∀ key v, key ≠ "sleeve_id" →
      Payload.item (("sleeve_id", v) :: tail) key = tail.item key := by
    intro key v hkey
    simp [Payload.item, hlookup key v hkey]
  have hself : ∀ v, Payload.item (("sleeve_id", v) :: tail) "sleeve_id" = .ok v := by
    intro v
    simp [Payload.item]
  simp only [orderFilledPostings, Payload.text, hself, Json.pyStr_str, ok_bind, number,
    numberOrZero, Payload.has, buyPostings, sellPostings, ne_eq, String.reduceEq, not_false_eq_true,
    hitem, hlookup, except_map_bind, apply_ite (Except.map _)]
  rfl

section SleeveText

variable {text text' : String} {tail : Payload}

theorem checkSigns_onSleeve (p : Posting Decimal) : checkSigns (p.onSleeve text) = checkSigns p :=
  rfl

theorem checkAllSigns_onSleeve (ps : List (Posting Decimal)) :
    checkAllSigns (ps.map (Posting.onSleeve text)) = checkAllSigns ps := by
  induction ps with
  | nil => rfl
  | cons p ps ih => rw [List.map_cons, checkAllSigns, checkAllSigns, ih, checkSigns_onSleeve]

theorem assertBalanced_onSleeve (ps : List (Posting Decimal)) :
    assertBalanced (ps.map (Posting.onSleeve text)) = assertBalanced ps := by
  have hamounts : (ps.map (Posting.onSleeve text)).map (·.amount) = ps.map (·.amount) := by
    simp [Function.comp_def, Posting.onSleeve]
  rw [assertBalanced, assertBalanced, hamounts, checkAllSigns_onSleeve]

theorem needsCostBasis_sleeve {a b : LedgerAppend} (htype : b.eventType = a.eventType)
    (ha : a.data = ("sleeve_id", .str text) :: tail)
    (hb : b.data = ("sleeve_id", .str text') :: tail) : needsCostBasis b = needsCostBasis a := by
  simp [needsCostBasis, htype, ha, hb, Payload.isText, Payload.get, Payload.has, List.lookup_cons]

/-- The writer's checks do not depend on the text of the sleeve. -/
theorem Accepted.onSleeve {env : Platform} {a b : LedgerAppend} (haccepted : Accepted env a)
    (htype : b.eventType = a.eventType) (htime : b.occurredAt = a.occurredAt)
    (hlegs : a.eventType = .orderFilled ∨ buildPostings (D := Decimal) b.eventType b.data = .ok [])
    (ha : a.data = ("sleeve_id", .str text) :: tail)
    (hb : b.data = ("sleeve_id", .str text') :: tail) (hnul : '\x00' ∉ text'.toList) :
    Accepted env b := by
  obtain ⟨⟨ps, hps, hbalanced⟩, hstores⟩ := haccepted
  constructor
  · rcases hlegs with hfill | hnone
    · rw [hfill, ha] at hps
      refine ⟨ps.map (Posting.onSleeve text'), ?_, by rw [assertBalanced_onSleeve, hbalanced]⟩
      rw [htype, hfill, hb]
      have hmove := orderFilledPostings_sleeve text text' tail
      rw [show orderFilledPostings (("sleeve_id", .str text) :: tail) = .ok ps from hps] at hmove
      exact hmove
    · exact ⟨[], hnone, rfl⟩
  · simp only [Database.stores, ha, Json.storableFields, Bool.and_eq_true] at hstores
    obtain ⟨⟨⟨hkey, -⟩, htail⟩, htimestamp⟩ := hstores
    simp only [Database.stores, hb, htime, Json.storableFields, Bool.and_eq_true, htail,
      htimestamp, and_true]
    exact ⟨hkey, by simpa [Json.storable] using hnul⟩

end SleeveText

/-! ## The first delivery -/

section Delivery

variable {env : Platform} {db db' : Database} {a : LedgerAppend} {message : FillMessage}

theorem freeze_events (h : freezeIfInvariantViolated env db a = .ok db') :
    db.events <+: db'.events := by
  simp only [freezeIfInvariantViolated, bind_eq_ok] at h
  obtain ⟨violations, -, h⟩ := h
  split_ifs at h
  · cases h
    exact List.prefix_refl _
  · split at h
    · cases h
      exact List.prefix_refl _
    · split_ifs at h
      · cases h
        exact List.prefix_refl _
      · obtain ⟨⟨db₁, inserted⟩, happend, hr⟩ := bind_eq_ok.mp h
        cases hr
        have hevents := append_events happend
        exact hevents

/-- A booked append was accepted, and its row is in the log. -/
theorem persistAppend_books (h : persistAppend env db a = .ok db') :
    ∃ e, preparedAppend db a = .ok e ∧ Accepted env e ∧
      ∃ row ∈ db'.events, row.eventId = a.eventId ∧ row.tenantId = a.tenantId := by
  obtain ⟨e, hprepared, h⟩ := bind_eq_ok.mp h
  obtain ⟨⟨db₁, inserted⟩, happend, h⟩ := bind_eq_ok.mp h
  obtain ⟨hheader, -⟩ := prepared_header hprepared
  have hkeep : db₁.events <+: db'.events := by
    simp only at h
    split_ifs at h
    · exact freeze_events h
    · cases h
      exact List.prefix_refl _
  obtain ⟨row, hrow, hid, htenant⟩ := append_books happend
  refine ⟨e, hprepared, (append_eq_ok happend).1, row, hkeep.subset hrow, ?_, ?_⟩
  · rw [hid, hheader.eventId]
  · rw [htenant, hheader.tenantId]

/-- The message was handled to the end in some earlier state, whose log is still there. -/
def Booked (env : Platform) (db : Database) (message : FillMessage) : Prop :=
  ∃ before after, entryHandler env before message = .completed after ∧
    ∀ row ∈ after.events, row ∈ db.events

theorem Booked.persisted (h : Booked env db message) :
    ∃ a before e row, appendFromMessage env message = .ok a ∧
      preparedAppend before a = .ok e ∧ Accepted env e ∧
      db.findEvent a.eventId = some row ∧ row.tenantId = a.tenantId := by
  obtain ⟨before, after, hhandled, hkeep⟩ := h
  unfold entryHandler at hhandled
  cases htranslate : appendFromMessage env message with
  | error e =>
    rw [htranslate] at hhandled
    cases hhandled
  | ok a =>
    rw [htranslate] at hhandled
    cases hpersist : persistAppend env before a with
    | error e =>
      simp only [hpersist] at hhandled
      split at hhandled <;> simp_all
    | ok after' =>
      simp only [hpersist, Outcome.completed.injEq] at hhandled
      subst hhandled
      obtain ⟨e, hprepared, haccepted, row, hrow, hid, htenant⟩ := persistAppend_books hpersist
      refine ⟨a, before, e, row, rfl, hprepared, haccepted, ?_, htenant⟩
      rw [← hid]
      exact findEvent_eq_some_of_mem (hkeep row hrow)

/-! ## The second delivery -/

/-- A redelivered append changes nothing exactly when it is prepared and accepted once more
and, for a fill, the freeze check stays quiet. -/
theorem persistAppend_again_iff {row : EventRow} (hrow : db.findEvent a.eventId = some row)
    (htenant : row.tenantId = a.tenantId) :
    persistAppend env db a = .ok db ↔ ∃ e, preparedAppend db a = .ok e ∧ Accepted env e ∧
      (a.eventType = .orderFilled → FreezeQuiet db (rerouteIfSleeveClosed db a)) := by
  have hroute := reroute_header db a
  have hquiet : ∀ e, preparedAppend db a = .ok e →
      (FreezeQuiet db e ↔ FreezeQuiet db (rerouteIfSleeveClosed db a)) := by
    intro e hprepared
    obtain ⟨hheader, hsleeve⟩ := prepared_header hprepared
    simp only [FreezeQuiet, sleeveViolations, sleeveRow, hheader.tenantId, hheader.accountId,
      hsleeve, hroute.tenantId, hroute.accountId]
  have happend : ∀ e, preparedAppend db a = .ok e → Accepted env e →
      db.append env e = .ok (db, false) := by
    intro e hprepared haccepted
    obtain ⟨hheader, -⟩ := prepared_header hprepared
    have hfind : db.findEvent e.eventId = some row := by rw [hheader.eventId, hrow]
    rw [append_of_accepted haccepted]
    split
    · rename_i hnone
      rw [hfind] at hnone
      cases hnone
    · rename_i row' hrow'
      cases hfind.symm.trans hrow'
      rw [if_pos (by rw [htenant, hheader.tenantId])]
  constructor
  · intro h
    obtain ⟨e, hprepared, h⟩ := bind_eq_ok.mp h
    obtain ⟨⟨db₁, inserted⟩, happended, h⟩ := bind_eq_ok.mp h
    have haccepted := (append_eq_ok happended).1
    rw [happend e hprepared haccepted] at happended
    cases happended
    refine ⟨e, hprepared, haccepted, fun hfill => ?_⟩
    have htype : e.eventType = .orderFilled := by
      rw [(prepared_header hprepared).1.eventType, hfill]
    simp only [htype, if_true] at h
    exact (hquiet e hprepared).mp (freeze_eq_self_iff.mp h)
  · rintro ⟨e, hprepared, haccepted, hfreeze⟩
    refine bind_eq_ok.mpr ⟨e, hprepared, bind_eq_ok.mpr ⟨_, happend e hprepared haccepted, ?_⟩⟩
    have htype := (prepared_header hprepared).1.eventType
    simp only
    split_ifs with hfill
    · exact freeze_eq_self_iff.mpr ((hquiet e hprepared).mpr (hfreeze (htype ▸ hfill)))
    · rfl

/-- A fill still goes through: a sell without cost basis is covered by the lots that are
open now and accepted with their cost, and the freeze check finds nothing to freeze. -/
def StillRecordable (env : Platform) (db : Database) (a : LedgerAppend) : Prop :=
  (needsCostBasis (rerouteIfSleeveClosed db a) = true →
    ∃ lots e, lotsFor db (rerouteIfSleeveClosed db a) = .ok lots ∧
      enrichSellFill (rerouteIfSleeveClosed db a) lots = .ok e ∧ Accepted env e) ∧
    FreezeQuiet db (rerouteIfSleeveClosed db a)

/-- Only a sell without cost basis can be refused when it comes again. -/
theorem prepared_again {before : Database} {e : LedgerAppend}
    (htranslate : appendFromMessage env message = .ok a)
    (hprepared : preparedAppend before a = .ok e) (haccepted : Accepted env e)
    (hbasis : needsCostBasis (rerouteIfSleeveClosed db a) = false) :
    Accepted env (rerouteIfSleeveClosed db a) := by
  obtain ⟨text, sleeve, tail, htranslated⟩ := appendFromMessage_translated htranslate
  obtain ⟨old, hold, -⟩ := htranslated.reroute before
  obtain ⟨new, hnew, hnul⟩ := htranslated.reroute db
  have hbefore := reroute_header before a
  have hnow := reroute_header db a
  have htype : (rerouteIfSleeveClosed db a).eventType = (rerouteIfSleeveClosed before a).eventType := by
    rw [hnow.eventType, hbefore.eventType]
  have hsame : rerouteIfSleeveClosed before a = e := by
    have hnone : needsCostBasis (rerouteIfSleeveClosed before a) = false := by
      rw [← needsCostBasis_sleeve htype hold hnew, hbasis]
    simp only [preparedAppend, hnone, Bool.false_eq_true, if_false, pure_eq_ok] at hprepared
    exact Except.ok.inj hprepared
  subst hsame
  refine haccepted.onSleeve htype (by rw [hnow.occurredAt, hbefore.occurredAt]) ?_ hold hnew hnul
  rcases appendFromMessage_eventType htranslate with hfill | hnone
  · exact .inl (by rw [hbefore.eventType, hfill])
  · exact .inr (by rw [hnow.eventType, hnone])

/-- A booked message that is delivered again succeeds, changes nothing and parks nothing
exactly when it has no legs or is a fill that still goes through. -/
theorem redelivery_noop_iff (h : Booked env db message) :
    entryHandler env db message = .completed db ↔
      ∀ a, appendFromMessage env message = .ok a → a.eventType = .orderFilled →
        StillRecordable env db a := by
  obtain ⟨a, before, e, row, htranslate, hprepared, haccepted, hrow, htenant⟩ := h.persisted
  have hhandler : entryHandler env db message = .completed db ↔ persistAppend env db a = .ok db := by
    simp only [entryHandler, htranslate]
    split <;> simp_all
  rw [hhandler, persistAppend_again_iff hrow htenant]
  constructor
  · rintro ⟨e', hprepared', haccepted', hfreeze⟩ a' ha' hfill
    cases htranslate.symm.trans ha'
    refine ⟨fun hneeds => ?_, hfreeze hfill⟩
    simp only [preparedAppend, hneeds, if_true, bind_eq_ok] at hprepared'
    obtain ⟨lots, hlots, henrich⟩ := hprepared'
    exact ⟨lots, e', hlots, henrich, haccepted'⟩
  · intro hstill
    by_cases hneeds : needsCostBasis (rerouteIfSleeveClosed db a) = true
    · have hfill : a.eventType = .orderFilled := by
        have htype := (reroute_header db a).eventType
        simp only [needsCostBasis, Bool.and_eq_true, beq_iff_eq, htype] at hneeds
        exact hneeds.1.1
      obtain ⟨hcover, hfreeze⟩ := hstill a htranslate hfill
      obtain ⟨lots, e', hlots, henrich, haccepted'⟩ := hcover hneeds
      refine ⟨e', ?_, haccepted', fun _ => hfreeze⟩
      simp only [preparedAppend, hneeds, if_true, hlots, ok_bind, henrich]
    · have hnone : needsCostBasis (rerouteIfSleeveClosed db a) = false := by simpa using hneeds
      refine ⟨rerouteIfSleeveClosed db a, ?_, ?_, fun hfill => (hstill a htranslate hfill).2⟩
      · simp only [preparedAppend, hnone, Bool.false_eq_true, if_false, pure_eq_ok]
      · exact prepared_again htranslate hprepared haccepted hnone

end Delivery

/-! ## A sell that comes twice -/

namespace Sample

/-- The digests of the two client order ids. -/
def platform : Platform where
  digest key :=
    if key = "b1" then 0x7dc96f776c8423e57a2785489a3f9c43
    else if key = "s1" then 0xe8bc163c82eee18733288c7d4ac636db
    else 0
  storesTimestamp _ := true

def tenant : UUID := 1
def account : UUID := 2
def unallocated : UUID := 3
def unmanaged : UUID := 4
def strategy : UUID := 5

def row (id : UUID) (seq : ℕ) (type : LedgerEventType) (data : Payload) : EventRow :=
  ⟨id, tenant, account, none, ⟨seq, type.value, data⟩⟩

/-- An account with 1000 deposited and allocated to a strategy sleeve. -/
def funded : Database where
  events :=
    [row 6 1 .fundsDeposited
      [("sleeve_id", .str unallocated.text), ("amount", .str "1000")],
    row 7 2 .capitalAllocated
      [("from_sleeve_id", .str unallocated.text), ("to_sleeve_id", .str strategy.text),
        ("amount", .str "1000")]]
  sleeves :=
    [⟨unallocated, tenant, account, .unallocated, .active, none⟩,
      ⟨unmanaged, tenant, account, .unmanaged, .active, none⟩,
      ⟨strategy, tenant, account, .strategy, .active, some 8⟩]
  uniqueIds := by decide
  uniqueSleeves := by decide

def fill (clientOrderId side qty price : String) : FillMessage :=
  .fill ⟨tenant.text, account.text, strategy.text, clientOrderId, "", "SPY", side, qty, price, "",
    "", "", "2024-05-01T14:30:00+00:00"⟩

def buy : FillMessage := fill "b1" "buy" "10" "50"

def sell : FillMessage := fill "s1" "sell" "10" "55"

def afterBuy : Database := (entryHandler platform funded buy).database funded

def afterSell : Database := (entryHandler platform afterBuy sell).database afterBuy

theorem handled : (entryHandler platform funded buy).isCompleted = true ∧
    (entryHandler platform afterBuy sell).isCompleted = true ∧
    (entryHandler platform afterSell sell).isPoison = true := by decide +kernel

end Sample

theorem redelivery_noop_buy :
    Booked Sample.platform Sample.afterBuy Sample.buy ∧
      (entryHandler Sample.platform Sample.afterBuy Sample.buy = .completed Sample.afterBuy ↔
        ∀ a, appendFromMessage Sample.platform Sample.buy = .ok a → a.eventType = .orderFilled →
          StillRecordable Sample.platform Sample.afterBuy a) := by
  have hbooked : Booked Sample.platform Sample.afterBuy Sample.buy :=
    ⟨Sample.funded, Sample.afterBuy, Outcome.eq_completed Sample.handled.1 _, fun _ h => h⟩
  exact ⟨hbooked, redelivery_noop_iff hbooked⟩

/-- A booked sell without cost basis that comes again finds its lots sold and is parked. -/
theorem redelivered_sell_is_parked :
    Booked Sample.platform Sample.afterSell Sample.sell ∧
      (entryHandler Sample.platform Sample.afterSell Sample.sell).isPoison = true := by
  exact ⟨⟨Sample.afterBuy, Sample.afterSell, Outcome.eq_completed Sample.handled.2.1 _,
    fun _ h => h⟩, Sample.handled.2.2⟩

end LlamaTrade
