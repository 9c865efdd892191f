import LlamaTrade.FillPublishing
import LlamaTrade.RedeliveredMessages
import LlamaTrade.TransitionRuns

/-!
# The sleeve of a booked fill

Every runner of an account sees the trade events of all its orders and publishes those on its
symbols under its own sleeve; the executor publishes a terminal row under the sleeve of the
row. The ledger books the message of an order that it ingests first. In every run in which a
runner meets no fill of an order of another sleeve, the booked fill is on the order's sleeve.
-/

namespace LlamaTrade

open Arithmetic

/-! ## The system -/

/-- The orders of an account, the messages published for them and the ledger. -/
structure FillWorld where
  orders : List OrderRow
  stream : List FillMessage
  db : Database

def FillMessage.clientOrderId : FillMessage → String
  | .fill message => message.clientOrderId
  | .reservation message => message.clientOrderId

/-- No order, message or event has the client order id. -/
def FillWorld.unused (w : FillWorld) (clientOrderId : String) : Bool :=
  w.orders.all (·.clientOrderId ≠ clientOrderId) &&
    w.stream.all (·.clientOrderId ≠ clientOrderId) &&
    w.db.events.all (!·.event.data.isText "client_order_id" clientOrderId)

/-- What a REST sync writes to a row. -/
structure SyncedFields where
  status : OrderStatus
  filledQty : Decimal
  filledAvgPrice : Option Decimal
  filledAt : Option String
  canceledAt : Option String

inductive FillAction where
  /-- A runner or a user places an order; its row is committed before the broker sees it. -/
  | place (order : OrderRow)
  /-- A runner handles a trade event; of its messages the first `sent` are published. -/
  | tradeEvent (config : RunnerConfig) (event : TradeEvent) (sent : ℕ)
  | sync (clientOrderId : String) (fields : SyncedFields)
  /-- The executor emits for a row; `resolved` is the attribution found for a row without. -/
  | emit (clientOrderId : String) (resolved : Option (UUID × UUID)) (now : String) (sent : ℕ)
  /-- The ledger handles a message of the stream, in any order and any number of times. -/
  | ingest (index : ℕ)

/-- The messages of a runner; an exception is logged by its loop. -/
def runnerMessages (config : RunnerConfig) (event : TradeEvent) : List FillMessage :=
  match handleTradeEvent config event with
  | .ok messages => messages
  | .error _ => []

def SyncedFields.write (fields : SyncedFields) (order : OrderRow) : OrderRow :=
  { order with
    status := fields.status
    filledQty := fields.filledQty
    filledAvgPrice := fields.filledAvgPrice
    filledAt := fields.filledAt
    canceledAt := fields.canceledAt }

/-- The rows after a change to the one with the client order id. -/
def updateOrder (clientOrderId : String) (f : OrderRow → OrderRow) (orders : List OrderRow) :
    List OrderRow :=
  orders.map fun order => if order.clientOrderId = clientOrderId then f order else order

def fillStep (env : Platform) (w : FillWorld) : FillAction → Option FillWorld
  | .place order =>
    if w.unused order.clientOrderId then some { w with orders := w.orders ++ [order] } else none
  | .tradeEvent config event sent =>
    some { w with stream := w.stream ++ (runnerMessages config event).take sent }
  | .sync clientOrderId fields =>
    some { w with orders := updateOrder clientOrderId fields.write w.orders }
  | .emit clientOrderId resolved now sent =>
    match w.orders.find? (·.clientOrderId = clientOrderId) with
    | none => none
    | some order =>
      match attributedOrder resolved order with
      | none => some w
      | some attributed => some { w with
          orders := updateOrder clientOrderId (fun _ => attributed) w.orders
          stream := w.stream ++ (emitLedgerForTerminal now attributed).take sent }
  | .ingest index =>
    (w.stream[index]?).map fun message =>
      { w with db := (entryHandler env w.db message).database w.db }

/-! ## Statement -/

/-- A fill of the order in the log. -/
def IsFillOf (clientOrderId : String) (row : EventRow) : Prop :=
  row.event.eventType = LedgerEventType.orderFilled.value ∧
    row.event.data.isText "client_order_id" clientOrderId = true

instance (clientOrderId : String) (row : EventRow) : Decidable (IsFillOf clientOrderId row) :=
  inferInstanceAs (Decidable (_ ∧ _))

/-- Where the ledger books what is published on a sleeve: there, or on the Unmanaged sleeve
once it is closed. -/
def ledgerSleeve (db : Database) (tenant account sleeve : UUID) : UUID :=
  match db.getSleeve tenant sleeve with
  | none => sleeve
  | some row =>
    if row.status = .closed then
      (db.getSleeveByType tenant account .unmanaged).elim sleeve (·.id)
    else sleeve

/-- The row is the fill of an order on a sleeve, booked on a given state of the ledger. -/
structure BookedOn (env : Platform) (clientOrderId : String) (db : Database) (sleeve : UUID)
    (row : EventRow) : Prop where
  eventId : row.eventId = env.digest clientOrderId
  sleeveId : row.sleeveId = some (ledgerSleeve db row.tenantId row.accountId sleeve)
  sleeveText : row.event.data.lookup "sleeve_id" =
    some (.str (ledgerSleeve db row.tenantId row.accountId sleeve).text)

/-- The runner publishes a fill for the event. -/
def publishesFill (config : RunnerConfig) (event : TradeEvent) : Bool :=
  (runnerMessages config event).any fun message =>
    match message with
    | .fill _ => true
    | .reservation _ => false

/-- A runner publishes only fills of orders whose row has its sleeve, and the attribution of a
row that has a sleeve but no account is resolved to that sleeve. -/
def OwnOrders (w : FillWorld) : FillAction → Prop
  | .tradeEvent config event _ => publishesFill config event →
    ∀ order ∈ w.orders, order.clientOrderId = event.clientOrderId →
      order.sleeveId = config.sleeveId
  | .emit clientOrderId resolved _ _ => ∀ order ∈ w.orders, order.clientOrderId = clientOrderId →
    order.sleeveId ≠ none → order.accountId = none → ∀ r, resolved = some r →
      order.sleeveId = some r.1
  | _ => True

/-! ## Publishing -/

theorem buildLedgerFillPayload_eq {tenant account sleeve : UUID} {event : TradeEvent}
    {orderId : Option UUID} {fill : LedgerFill}
    (h : buildLedgerFillPayload tenant account sleeve event orderId = .ok (some fill)) :
    fill.clientOrderId = event.clientOrderId ∧ fill.sleeveId = sleeve.text := by
  unfold buildLedgerFillPayload at h
  split_ifs at h
  · simp only [bind_eq_ok] at h
    obtain ⟨price, -, hprice⟩ := h
    obtain ⟨_, -, rfl⟩ := Option.map_eq_some_iff.mp (Except.ok.inj hprice)
    exact ⟨rfl, rfl⟩
  · cases h

theorem buildLedgerFillPayloadFromOrder_eq {now : String} {order : OrderRow} {fill : LedgerFill}
    (h : buildLedgerFillPayloadFromOrder now order = .ok (some fill)) :
    fill.clientOrderId = order.clientOrderId ∧
      ∃ sleeve, order.sleeveId = some sleeve ∧ fill.sleeveId = sleeve.text := by
  unfold buildLedgerFillPayloadFromOrder at h
  split at h
  · rename_i sleeve account hsleeve haccount
    split_ifs at h
    · simp only [bind_eq_ok] at h
      obtain ⟨price, -, hprice⟩ := h
      obtain ⟨_, -, rfl⟩ := Option.map_eq_some_iff.mp (Except.ok.inj hprice)
      exact ⟨rfl, sleeve, hsleeve, rfl⟩
    · cases h
  · cases h

theorem fill_notMem_releaseOfEvent {tenant account sleeve : UUID} {event : TradeEvent}
    {fill : LedgerFill} : .fill fill ∉ releaseOfEvent tenant account sleeve event := by
  unfold releaseOfEvent
  split <;> simp

theorem fill_notMem_releaseOfOrder {account sleeve : UUID} {order : OrderRow} {fill : LedgerFill} :
    .fill fill ∉ releaseOfOrder account sleeve order := by
  unfold releaseOfOrder
  split <;> simp

/-- A runner publishes under its own sleeve. -/
theorem mem_runnerMessages {config : RunnerConfig} {event : TradeEvent} {fill : LedgerFill}
    (h : .fill fill ∈ runnerMessages config event) :
    fill.clientOrderId = event.clientOrderId ∧
      ∃ sleeve, config.sleeveId = some sleeve ∧ fill.sleeveId = sleeve.text := by
  unfold runnerMessages handleTradeEvent at h
  split_ifs at h
  · cases hsleeve : config.sleeveId with
    | none => simp [hsleeve] at h
    | some sleeve =>
      cases haccount : config.accountId with
      | none => simp [hsleeve, haccount] at h
      | some account =>
        simp only [hsleeve, haccount] at h
        cases hpayload : buildLedgerFillPayload config.tenantId account sleeve event none with
        | error e => simp [hpayload] at h
        | ok payload =>
          rw [hpayload] at h
          rcases List.mem_append.mp h with hfill | hrelease
          · cases payload with
            | none => simp at hfill
            | some built =>
              obtain rfl : fill = built := by simpa using hfill
              obtain ⟨hid, htext⟩ := buildLedgerFillPayload_eq hpayload
              exact ⟨hid, sleeve, rfl, htext⟩
          · exact absurd hrelease fill_notMem_releaseOfEvent
  · simp at h

/-- The executor publishes under the sleeve of the row. -/
theorem mem_emitLedgerForTerminal {now : String} {order : OrderRow} {fill : LedgerFill}
    (h : .fill fill ∈ emitLedgerForTerminal now order) :
    fill.clientOrderId = order.clientOrderId ∧
      ∃ sleeve, order.sleeveId = some sleeve ∧ fill.sleeveId = sleeve.text := by
  unfold emitLedgerForTerminal at h
  split at h
  · rename_i payload _ _ hpayload
    rcases List.mem_append.mp h with hfill | hrelease
    · cases payload with
      | none => simp at hfill
      | some built =>
        obtain rfl : fill = built := by simpa using hfill
        exact buildLedgerFillPayloadFromOrder_eq hpayload
    · exact absurd hrelease fill_notMem_releaseOfOrder
  · cases h

/-! ## Booking -/

section Booking

variable {env : Platform} {db db' : Database} {a e : LedgerAppend}

theorem reroute_sleeve (db : Database) {text : String} {sleeve : UUID} (hsleeve : a.sleeveId = some sleeve)
    (htext : a.data.lookup "sleeve_id" = some (.str text)) (hown : text = sleeve.text) :
    (rerouteIfSleeveClosed db a).sleeveId =
        some (ledgerSleeve db a.tenantId a.accountId sleeve) ∧
      (rerouteIfSleeveClosed db a).data.lookup "sleeve_id" =
        some (.str (ledgerSleeve db a.tenantId a.accountId sleeve).text) := by
  subst hown
  unfold rerouteIfSleeveClosed ledgerSleeve
  rw [hsleeve, Option.bind_some]
  cases db.getSleeve a.tenantId sleeve with
  | none => exact ⟨hsleeve, htext⟩
  | some row =>
    dsimp only
    split_ifs
    · cases db.getSleeveByType a.tenantId a.accountId .unmanaged with
      | none => exact ⟨hsleeve, htext⟩
      | some unmanaged =>
        refine ⟨rfl, ?_⟩
        rw [Payload.lookup_set, if_pos rfl]
        rfl
    · exact ⟨hsleeve, htext⟩

/-- The freeze check adds no fill to the log. -/
theorem freeze_rows (h : freezeIfInvariantViolated env db a = .ok db') {row : EventRow}
    (hrow : row ∈ db'.events) :
    row ∈ db.events ∨ row.event.eventType = LedgerEventType.sleeveFrozen.value := by
  simp only [freezeIfInvariantViolated, bind_eq_ok] at h
  obtain ⟨violations, -, h⟩ := h
  split_ifs at h
  · cases h
    exact .inl hrow
  · split at h
    · cases h
      exact .inl hrow
    · split_ifs at h
      · cases h
        exact .inl hrow
      · simp only [bind_eq_ok] at h
        obtain ⟨⟨next, inserted⟩, happend, hnext⟩ := h
        cases hnext
        obtain ⟨-, ⟨_, rfl, -⟩ | ⟨_, _, _, rfl, -⟩⟩ := append_eq_ok happend
        · rcases List.mem_append.mp hrow with hrow | hrow
          · exact .inl hrow
          · rw [List.mem_singleton.mp hrow]
            exact .inr rfl
        · exact .inl hrow

/-- The only fill that the handling of an append adds to the log is the prepared append. -/
theorem persistAppend_rows (h : persistAppend env db a = .ok db') {row : EventRow}
    (hrow : row ∈ db'.events) (hnew : row ∉ db.events)
    (hfill : row.event.eventType = LedgerEventType.orderFilled.value) :
    ∃ e, preparedAppend db a = .ok e ∧ row = db.newRow e := by
  simp only [persistAppend, bind_eq_ok] at h
  obtain ⟨e, hprepared, ⟨next, inserted⟩, happend, h⟩ := h
  have hnext : row ∈ next.events := by
    split_ifs at h
    · rcases freeze_rows h hrow with hrow | hfrozen
      · exact hrow
      · rw [hfill] at hfrozen
        exact absurd hfrozen (by decide)
    · cases h
      exact hrow
  refine ⟨e, hprepared, ?_⟩
  obtain ⟨-, ⟨_, rfl, -⟩ | ⟨_, _, _, rfl, -⟩⟩ := append_eq_ok happend
  · rcases List.mem_append.mp hnext with hold | hrow
    · exact absurd hold hnew
    · exact List.mem_singleton.mp hrow
  · exact absurd hnext hnew

theorem require_eq {value name text : String} (h : require value name = .ok text) : text = value := by
  unfold require at h
  split_ifs at h
  cases h
  rfl

theorem lifecycleEventType_value_ne {kind : String} {t : LedgerEventType}
    (h : lifecycleEventType kind = .ok t) : t.value ≠ LedgerEventType.orderFilled.value := by
  unfold lifecycleEventType at h
  split_ifs at h <;> (cases h; decide)

theorem fillToAppend_eq {fill : LedgerFill} (h : fillToAppend env fill = .ok a) :
    a.eventId = env.digest fill.clientOrderId ∧
      a.data.lookup "client_order_id" = some (.str fill.clientOrderId) ∧
      a.data.lookup "sleeve_id" = some (.str fill.sleeveId) ∧
      ∃ sleeve, UUID.parse fill.sleeveId = .ok sleeve ∧ a.sleeveId = some sleeve := by
  simp only [fillToAppend, bind_eq_ok] at h
  obtain ⟨coid, hcoid, text, htext, symbol, -, side, -, qty, -, price, -, _, -, tenant, -, _, -,
    account, -, sleeve, hsleeve, ha⟩ := h
  cases require_eq hcoid
  cases require_eq htext
  cases ha
  exact ⟨rfl, rfl, rfl, sleeve, hsleeve, rfl⟩

theorem isText_iff {data : Payload} {key text : String} :
    data.isText key text = true ↔ data.lookup key = some (.str text) := by
  unfold Payload.isText Payload.get
  rcases data.lookup key with _ | x
  · simp
  · cases x <;> simp

/-- The ledger adds a fill only for a fill message of the order, and books it on the sleeve of
the message. -/
theorem entryHandler_fill {message : FillMessage} {row : EventRow} {clientOrderId : String}
    (hrow : row ∈ ((entryHandler env db message).database db).events) (hnew : row ∉ db.events)
    (hfill : IsFillOf clientOrderId row) :
    ∃ fill, message = .fill fill ∧ fill.clientOrderId = clientOrderId ∧
      ∀ sleeve : UUID, fill.sleeveId = sleeve.text → BookedOn env clientOrderId db sleeve row := by
  unfold entryHandler at hrow
  split at hrow
  · exact absurd hrow hnew
  · rename_i a ha
    split at hrow
    · rename_i db' hpersist
      obtain ⟨e, hprepared, rfl⟩ := persistAppend_rows hpersist hrow hnew hfill.1
      obtain ⟨hheader, hsleeveId⟩ := prepared_header hprepared
      cases message with
      | reservation reservation =>
        have htype : a.eventType.value = LedgerEventType.orderFilled.value := by
          rw [← hheader.eventType]
          exact hfill.1
        simp only [appendFromMessage, reservationToAppend, bind_eq_ok] at ha
        obtain ⟨kind, -, t, ht, coid, -, text, -, _, -, tenant, -, _, -, account, -, sleeve, -, ha⟩ := ha
        cases ha
        exact absurd htype (lifecycleEventType_value_ne ht)
      | fill fill =>
        obtain ⟨hid, hcoid, htext, parsed, hparsed, hsleeve⟩ := fillToAppend_eq ha
        have hlookup : ∀ key, key ≠ "cost_basis" → key ≠ "realized_pnl" →
            (db.newRow e).event.data.lookup key = (rerouteIfSleeveClosed db a).data.lookup key :=
          fun key hcost hpnl => prepared_lookup hprepared hcost hpnl
        have hsame : fill.clientOrderId = clientOrderId := by
          have hown := isText_iff.mp hfill.2
          rw [hlookup _ (by decide) (by decide), reroute_lookup _ _ (by decide), hcoid] at hown
          simpa using hown
        refine ⟨fill, rfl, hsame, fun sleeve hown => ?_⟩
        have hself : parsed = sleeve := by
          rw [hown, UUID.parse_text] at hparsed
          cases hparsed
          rfl
        subst hself
        obtain ⟨hrouted, hroutedText⟩ := reroute_sleeve db hsleeve htext hown
        have htenant : (db.newRow e).tenantId = a.tenantId := hheader.tenantId
        have haccount : (db.newRow e).accountId = a.accountId := hheader.accountId
        refine ⟨?_, ?_, ?_⟩
        · rw [← hsame, ← hid]
          exact hheader.eventId
        · rw [htenant, haccount, ← hrouted]
          exact hsleeveId
        · rw [htenant, haccount, ← hroutedText]
          exact hlookup _ (by decide) (by decide)
    · exact absurd hrow hnew
    · exact absurd hrow hnew

end Booking

/-! ## Runs -/

section Runs

variable {env : Platform} {w w' : FillWorld} {action : FillAction}

/-- The published fills of the orders are on the sleeves of their rows. -/
def PublishedOwn (w : FillWorld) : Prop :=
  ∀ order ∈ w.orders, ∀ fill, .fill fill ∈ w.stream → fill.clientOrderId = order.clientOrderId →
    ∃ sleeve, order.sleeveId = some sleeve ∧ fill.sleeveId = sleeve.text

theorem attributedOrder_eq {resolved : Option (UUID × UUID)} {order attributed : OrderRow}
    (h : attributedOrder resolved order = some attributed) :
    attributed.clientOrderId = order.clientOrderId ∧ ((order.sleeveId ≠ none → order.accountId = none →
      ∀ r, resolved = some r → order.sleeveId = some r.1) →
        ∀ sleeve, order.sleeveId = some sleeve → attributed.sleeveId = some sleeve) := by
  unfold attributedOrder at h
  split_ifs at h with hmissing
  · obtain ⟨r, hr, rfl⟩ := Option.map_eq_some_iff.mp h
    refine ⟨rfl, fun hresolved sleeve hsleeve => ?_⟩
    have haccount : order.accountId = none := by
      rcases hmissing with hnone | hnone
      · rw [hsleeve] at hnone
        cases hnone
      · exact hnone
    exact (hresolved (by simp [hsleeve]) haccount r hr).symm.trans hsleeve
  · cases h
    exact ⟨rfl, fun _ _ => id⟩

/-- Where a row comes from: it is new and its id was unused, or it was there, possibly without
a sleeve. -/
theorem fillStep_order (hstep : fillStep env w action = some w') (hok : OwnOrders w action)
    {order : OrderRow} (horder : order ∈ w'.orders) :
    w.unused order.clientOrderId = true ∨ ∃ old ∈ w.orders, old.clientOrderId = order.clientOrderId ∧
      ∀ sleeve, old.sleeveId = some sleeve → order.sleeveId = some sleeve := by
  have hkeep : order ∈ w.orders → ∃ old ∈ w.orders, old.clientOrderId = order.clientOrderId ∧
      ∀ sleeve, old.sleeveId = some sleeve → order.sleeveId = some sleeve :=
    fun h => ⟨order, h, rfl, fun _ => id⟩
  cases action with
  | place placed =>
    simp only [fillStep] at hstep
    split_ifs at hstep with hunused
    cases hstep
    rcases List.mem_append.mp horder with h | h
    · exact .inr (hkeep h)
    · rw [List.mem_singleton.mp h]
      exact .inl hunused
  | tradeEvent config event sent =>
    cases hstep
    exact .inr (hkeep horder)
  | sync clientOrderId fields =>
    cases hstep
    obtain ⟨old, hold, rfl⟩ := List.mem_map.mp horder
    right
    refine ⟨old, hold, ?_, ?_⟩
    · split_ifs <;> rfl
    · intro sleeve hsleeve
      split_ifs
      · exact hsleeve
      · exact hsleeve
  | emit clientOrderId resolved now sent =>
    simp only [fillStep] at hstep
    split at hstep
    · cases hstep
    · rename_i found hfound
      have hid : found.clientOrderId = clientOrderId := by simpa using List.find?_some hfound
      have hmem := List.mem_of_find?_eq_some hfound
      split at hstep
      · cases hstep
        exact .inr (hkeep horder)
      · rename_i attributed hattributed
        cases hstep
        obtain ⟨old, hold, rfl⟩ := List.mem_map.mp horder
        obtain ⟨hsame, hsleeve⟩ := attributedOrder_eq hattributed
        right
        split_ifs
        · exact ⟨found, hmem, hsame.symm, hsleeve (hok found hmem hid)⟩
        · exact ⟨old, hold, rfl, fun _ => id⟩
  | ingest index =>
    simp only [fillStep, Option.map_eq_some_iff] at hstep
    obtain ⟨message, -, rfl⟩ := hstep
    exact .inr (hkeep horder)

/-- Where a published fill comes from: it was there, or it is on the sleeve of its order. -/
theorem fillStep_message (hstep : fillStep env w action = some w') (hok : OwnOrders w action)
    {fill : LedgerFill} (hfill : .fill fill ∈ w'.stream) :
    .fill fill ∈ w.stream ∨ ∀ order ∈ w'.orders, fill.clientOrderId = order.clientOrderId →
      ∃ sleeve, order.sleeveId = some sleeve ∧ fill.sleeveId = sleeve.text := by
  cases action with
  | place placed =>
    simp only [fillStep] at hstep
    split_ifs at hstep
    cases hstep
    exact .inl hfill
  | tradeEvent config event sent =>
    cases hstep
    rcases List.mem_append.mp hfill with hfill | hfill
    · exact .inl hfill
    · have hsent := List.mem_of_mem_take hfill
      obtain ⟨hid, sleeve, hsleeve, htext⟩ := mem_runnerMessages hsent
      have hpublishes : publishesFill config event = true :=
        List.any_eq_true.mpr ⟨_, hsent, rfl⟩
      refine .inr fun order horder hsame => ⟨sleeve, ?_, htext⟩
      rw [← hsleeve]
      exact hok hpublishes order horder (hsame.symm.trans hid)
  | sync clientOrderId fields =>
    cases hstep
    exact .inl hfill
  | emit clientOrderId resolved now sent =>
    simp only [fillStep] at hstep
    split at hstep
    · cases hstep
    · rename_i found hfound
      have hid : found.clientOrderId = clientOrderId := by simpa using List.find?_some hfound
      split at hstep
      · cases hstep
        exact .inl hfill
      · rename_i attributed hattributed
        cases hstep
        rcases List.mem_append.mp hfill with hfill | hfill
        · exact .inl hfill
        · obtain ⟨hfillId, hsleeve⟩ := mem_emitLedgerForTerminal (List.mem_of_mem_take hfill)
          refine .inr fun order horder hsame => ?_
          obtain ⟨old, -, rfl⟩ := List.mem_map.mp horder
          split_ifs at hsame ⊢ with hold
          · exact hsleeve
          · refine absurd ?_ hold
            rw [← hsame, hfillId, (attributedOrder_eq hattributed).1, hid]
  | ingest index =>
    simp only [fillStep, Option.map_eq_some_iff] at hstep
    obtain ⟨message, -, rfl⟩ := hstep
    exact .inl hfill

/-- Where a booked fill comes from: it was there, or the ledger handled a message of its order. -/
theorem fillStep_event (hstep : fillStep env w action = some w') {row : EventRow}
    (hrow : row ∈ w'.db.events) {clientOrderId : String} (hfill : IsFillOf clientOrderId row) :
    row ∈ w.db.events ∨ ∃ fill, .fill fill ∈ w.stream ∧ fill.clientOrderId = clientOrderId ∧
      ∀ sleeve : UUID, fill.sleeveId = sleeve.text → BookedOn env clientOrderId w.db sleeve row := by
  by_cases hold : row ∈ w.db.events
  · exact .inl hold
  · cases action with
    | place placed =>
      simp only [fillStep] at hstep
      split_ifs at hstep
      cases hstep
      exact .inl hrow
    | tradeEvent config event sent =>
      cases hstep
      exact .inl hrow
    | sync clientOrderId fields =>
      cases hstep
      exact .inl hrow
    | emit clientOrderId resolved now sent =>
      simp only [fillStep] at hstep
      split at hstep
      · cases hstep
      · split at hstep
        · cases hstep
          exact .inl hrow
        · cases hstep
          exact .inl hrow
    | ingest index =>
      simp only [fillStep, Option.map_eq_some_iff] at hstep
      obtain ⟨message, hmessage, rfl⟩ := hstep
      obtain ⟨fill, rfl, hid, hbooked⟩ := entryHandler_fill hrow hold hfill
      exact .inr ⟨fill, List.mem_of_getElem? hmessage, hid, hbooked⟩

theorem unused_stream {clientOrderId : String} (h : w.unused clientOrderId = true)
    {fill : LedgerFill} (hfill : .fill fill ∈ w.stream) : fill.clientOrderId ≠ clientOrderId := by
  simp only [FillWorld.unused, Bool.and_eq_true, List.all_eq_true] at h
  have hid : (FillMessage.fill fill).clientOrderId ≠ clientOrderId := by simpa using h.1.2 _ hfill
  exact hid

theorem unused_events {clientOrderId : String} (h : w.unused clientOrderId = true) {row : EventRow}
    (hrow : row ∈ w.db.events) : ¬ IsFillOf clientOrderId row := by
  intro hfill
  simp only [FillWorld.unused, Bool.and_eq_true, List.all_eq_true] at h
  have htext := h.2 row hrow
  simp [hfill.2] at htext

/-- Published fills stay on the sleeves of their orders. -/
theorem PublishedOwn.step (h : PublishedOwn w) (hok : OwnOrders w action)
    (hstep : fillStep env w action = some w') : PublishedOwn w' := by
  intro order horder fill hfill hid
  rcases fillStep_message hstep hok hfill with hold | hown
  · rcases fillStep_order hstep hok horder with hunused | ⟨old, hmem, hsame, hkept⟩
    · exact absurd hid (unused_stream hunused hold)
    · obtain ⟨sleeve, hsleeve, htext⟩ := h old hmem fill hold (hid.trans hsame.symm)
      exact ⟨sleeve, hkept sleeve hsleeve, htext⟩
  · exact hown order horder hid

/-- **Attribution of fills.** Start from any ledger. In every run in which runners publish fills
of the orders on their own sleeve only, the fill that is booked for an order is the one with the
event id of the order, and it is on the sleeve of the order's row, as the ledger stood at some
point of the run. -/
theorem booked_fills_on_own_sleeve {db : Database} {actions : List FillAction}
    (hmeets : Transition.Meets (fillStep env) OwnOrders ⟨[], [], db⟩ actions)
    (hrun : Transition.run (fillStep env) ⟨[], [], db⟩ actions = some w') :
    ∀ order ∈ w'.orders, ∀ row ∈ w'.db.events, IsFillOf order.clientOrderId row →
      ∃ sleeve done rest w, order.sleeveId = some sleeve ∧ actions = done ++ rest ∧
        Transition.run (fillStep env) ⟨[], [], db⟩ done = some w ∧
          BookedOn env order.clientOrderId w.db sleeve row := by
  induction actions using List.reverseRecOn generalizing w' with
  | nil =>
    cases hrun
    intro order horder
    cases horder
  | append_singleton done action ih =>
    obtain ⟨w, hdone, hstep⟩ := Transition.run_concat hrun
    have hmeetsDone := Transition.meets_left hmeets
    have hok := (Transition.meets_of_append hmeets hdone).1
    have hown : PublishedOwn w := Transition.run_invariant (fun _ _ _ h hok hstep => h.step hok hstep)
      (by intro order horder; cases horder) hmeetsDone hdone
    intro order horder row hrow hfill
    rcases fillStep_order hstep hok horder with hunused | ⟨old, hmem, hsame, hkept⟩
    · rcases fillStep_event hstep hrow hfill with hold | ⟨fill, hfillMem, hid, -⟩
      · exact absurd hfill (unused_events hunused hold)
      · exact absurd hid (unused_stream hunused hfillMem)
    · rcases fillStep_event hstep hrow hfill with hold | ⟨fill, hfillMem, hid, hbooked⟩
      · rw [← hsame] at hfill
        obtain ⟨sleeve, first, rest, w₁, hsleeve, rfl, hfirst, hbooked⟩ :=
          ih hmeetsDone hdone old hmem row hold hfill
        rw [hsame] at hbooked
        exact ⟨sleeve, first, rest ++ [action], w₁, hkept sleeve hsleeve, by simp, hfirst, hbooked⟩
      · obtain ⟨sleeve, hsleeve, htext⟩ := hown old hmem fill hfillMem (hid.trans hsame.symm)
        exact ⟨sleeve, done, [action], w, hkept sleeve hsleeve, rfl, hdone, hbooked sleeve htext⟩

end Runs

namespace Sample

/-- An order to buy SPY, before the broker has seen it. -/
def spyOrder (sleeve : UUID) : OrderRow where
  id := 20
  tenantId := tenant
  sessionId := 21
  alpacaOrderId := none
  clientOrderId := "b1"
  symbol := "SPY"
  side := .buy
  qty := .finite false 10 0
  status := .pending
  filledQty := .finite false 0 0
  filledAvgPrice := none
  filledAt := none
  canceledAt := none
  sleeveId := some sleeve
  accountId := some account
  parentOrderId := none
  bracketType := none
  stopLossPrice := none
  takeProfitPrice := none

/-- The fill of the order. -/
def spyFill : TradeEvent :=
  ⟨.fill, "b1", "SPY", .buy, .finite false 10 0, some (.finite false 50 0),
    "2024-05-01T14:30:00+00:00"⟩

/-- The runner of the strategy, which trades SPY. -/
def spyRunner : RunnerConfig := ⟨tenant, ["SPY"], some strategy, some account⟩

/-- An order on a sleeve is placed, the runner sees its fill, and the ledger ingests it. -/
def filledOrder (sleeve : UUID) : List FillAction :=
  [.place (spyOrder sleeve), .tradeEvent spyRunner spyFill 1, .ingest 0]

/-- The message that the runner publishes. -/
def spyMessage : FillMessage :=
  .fill (buildFillPayload tenant account strategy "b1" "SPY" "buy" (.finite false 10 0)
    (.finite false 50 0) "2024-05-01T14:30:00+00:00" none)

def afterFill (sleeve : UUID) : FillWorld :=
  ⟨[spyOrder sleeve], [spyMessage], (entryHandler platform funded spyMessage).database funded⟩

theorem spyFill_booked :
    (∃ row ∈ (afterFill strategy).db.events, IsFillOf "b1" row ∧ row.sleeveId = some strategy) ∧
    ∀ sleeve ∈ (afterFill strategy).db.sleeves, sleeve.status = .active := by decide +kernel

end Sample

theorem runnerMessages_spyFill : runnerMessages Sample.spyRunner Sample.spyFill =
    [Sample.spyMessage] := by rfl

theorem run_filledOrder (sleeve : UUID) :
    Transition.run (fillStep Sample.platform) ⟨[], [], Sample.funded⟩ (Sample.filledOrder sleeve) =
      some (Sample.afterFill sleeve) := by
  simp only [Sample.filledOrder, Transition.run, Option.bind_some, fillStep, runnerMessages_spyFill]
  rfl

/-- The strategy's own order is booked on its sleeve. -/
theorem booked_fills_on_own_sleeve_strategy :
    Transition.run (fillStep Sample.platform) ⟨[], [], Sample.funded⟩
        (Sample.filledOrder Sample.strategy) = some (Sample.afterFill Sample.strategy) ∧
      ∃ row ∈ (Sample.afterFill Sample.strategy).db.events, IsFillOf "b1" row ∧
        row.sleeveId = some Sample.strategy ∧
        ∃ db, BookedOn Sample.platform "b1" db Sample.strategy row := by
  have hmeets : Transition.Meets (fillStep Sample.platform) OwnOrders ⟨[], [], Sample.funded⟩
      (Sample.filledOrder Sample.strategy) := by
    refine ⟨trivial, fun w₁ h₁ => ⟨?_, fun w₂ _ => ⟨trivial, fun _ _ => trivial⟩⟩⟩
    simp only [fillStep] at h₁
    split_ifs at h₁
    cases h₁
    intro _ order horder _
    rw [List.mem_singleton.mp horder]
    rfl
  obtain ⟨⟨row, hrow, hfill, hstrategy⟩, -⟩ := Sample.spyFill_booked
  obtain ⟨sleeve, -, -, w, hsleeve, -, -, hon⟩ := booked_fills_on_own_sleeve hmeets
    (run_filledOrder _) (Sample.spyOrder Sample.strategy) (List.mem_singleton_self _) row hrow hfill
  cases hsleeve
  exact ⟨run_filledOrder _, row, hrow, hfill, hstrategy, w.db, hon⟩

/-- The runner of the strategy publishes the fill of a manual order on SPY as its own. -/
theorem manual_order_booked_on_strategy :
    Transition.run (fillStep Sample.platform) ⟨[], [], Sample.funded⟩
        (Sample.filledOrder Sample.unmanaged) = some (Sample.afterFill Sample.unmanaged) ∧
      Sample.spyOrder Sample.unmanaged ∈ (Sample.afterFill Sample.unmanaged).orders ∧
      (∀ sleeve ∈ (Sample.afterFill Sample.unmanaged).db.sleeves, sleeve.status = .active) ∧
      ∃ row ∈ (Sample.afterFill Sample.unmanaged).db.events,
        IsFillOf (Sample.spyOrder Sample.unmanaged).clientOrderId row ∧
          (Sample.spyOrder Sample.unmanaged).sleeveId ≠ row.sleeveId := by
  obtain ⟨⟨row, hrow, hfill, hstrategy⟩, hactive⟩ := Sample.spyFill_booked
  refine ⟨run_filledOrder _, List.mem_singleton_self _, hactive, row, hrow, hfill, ?_⟩
  rw [hstrategy]
  decide

end LlamaTrade
