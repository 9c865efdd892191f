import LlamaTrade.FillIngestion

/-!
# What the writer and the freeze check do

One description of each step of the ingestion: when the writer accepts an event and what
it leaves, which parts of an append the preparation keeps, and when the freeze check
changes nothing.
-/

namespace LlamaTrade

/-! ## The writer -/

/-- The writer's own checks pass: the legs build and balance, and the row can be stored. -/
structure Accepted (env : Platform) (a : LedgerAppend) : Prop where
  balanced : ∃ ps, buildPostings (D := Decimal) a.eventType a.data = .ok ps ∧
    assertBalanced ps = .ok ()
  stores : Database.stores env a = true

/-- An existing row with the id of the append is of the same tenant. -/
def OwnConflict (db : Database) (a : LedgerAppend) : Prop :=
  ∀ row, db.findEvent a.eventId = some row → row.tenantId = a.tenantId

section Writer

variable {env : Platform} {db db' : Database} {a : LedgerAppend} {inserted : Bool}

theorem append_of_accepted (h : Accepted env a) :
    db.append env a =
      match h : db.findEvent a.eventId with
      | none => .ok (db.insertRow a h, true)
      | some row =>
        if row.tenantId = a.tenantId then .ok (db, false)
        else .error (.service .runtime
          ("event " ++ a.eventId.text ++ " conflicted on insert but is absent")) := by
  obtain ⟨ps, hps, hbalanced⟩ := h.balanced
  simp only [Database.append, hps, ok_bind, hbalanced, h.stores, if_true]
  rfl

theorem append_eq_ok (h : db.append env a = .ok (db', inserted)) :
    Accepted env a ∧ ((∃ hnone, db' = db.insertRow a hnone ∧ inserted = true) ∨
      ∃ row, db.findEvent a.eventId = some row ∧ row.tenantId = a.tenantId ∧ db' = db ∧
        inserted = false) := by
  have haccepted : Accepted env a := by
    have h' := h
    simp only [Database.append, bind_eq_ok] at h'
    obtain ⟨ps, hps, _, hbalanced, hrest⟩ := h'
    refine ⟨⟨ps, hps, hbalanced⟩, ?_⟩
    by_contra hstores
    rw [if_neg hstores] at hrest
    cases hrest
  refine ⟨haccepted, ?_⟩
  rw [append_of_accepted haccepted] at h
  split at h
  · rename_i hnone
    cases h
    exact .inl ⟨hnone, rfl, rfl⟩
  · rename_i row hrow
    by_cases htenant : row.tenantId = a.tenantId
    · rw [if_pos htenant] at h
      cases h
      exact .inr ⟨row, hrow, htenant, rfl, rfl⟩
    · rw [if_neg htenant] at h
      cases h

/-- An append succeeds exactly when the writer accepts it and no row of another tenant
holds its id. -/
theorem append_isOk_iff : (∃ r, db.append env a = .ok r) ↔ Accepted env a ∧ OwnConflict db a := by
  constructor
  · rintro ⟨⟨db', inserted⟩, h⟩
    obtain ⟨haccepted, ⟨hnone, -⟩ | ⟨row, hrow, htenant, -⟩⟩ := append_eq_ok h
    · refine ⟨haccepted, fun row hrow => ?_⟩
      rw [hnone] at hrow
      cases hrow
    · refine ⟨haccepted, fun row' hrow' => ?_⟩
      cases hrow.symm.trans hrow'
      exact htenant
  · rintro ⟨haccepted, hown⟩
    rw [append_of_accepted haccepted]
    split
    · exact ⟨_, rfl⟩
    · rename_i row hrow
      exact ⟨_, if_pos (hown row hrow)⟩

theorem append_sleeves (h : db.append env a = .ok (db', inserted)) : db'.sleeves = db.sleeves := by
  obtain ⟨-, ⟨_, rfl, -⟩ | ⟨_, _, _, rfl, -⟩⟩ := append_eq_ok h <;> rfl

theorem append_events (h : db.append env a = .ok (db', inserted)) : db.events <+: db'.events := by
  obtain ⟨-, ⟨_, rfl, -⟩ | ⟨_, _, _, rfl, -⟩⟩ := append_eq_ok h
  · exact List.prefix_append _ _
  · exact List.prefix_refl _

/-- After an append the log has a row of the tenant with its id. -/
theorem append_books (h : db.append env a = .ok (db', inserted)) :
    ∃ row ∈ db'.events, row.eventId = a.eventId ∧ row.tenantId = a.tenantId := by
  obtain ⟨-, ⟨_, rfl, -⟩ | ⟨row, hrow, htenant, rfl, -⟩⟩ := append_eq_ok h
  · exact ⟨db.newRow a, by simp [Database.insertRow], rfl, rfl⟩
  · have hid := List.find?_some hrow
    exact ⟨row, List.mem_of_find?_eq_some hrow, by simpa using hid, htenant⟩

end Writer

/-- The row with a given id is the only one. -/
theorem findEvent_eq_some_of_mem {db : Database} {row : EventRow} (h : row ∈ db.events) :
    db.findEvent row.eventId = some row := by
  cases hfind : db.findEvent row.eventId with
  | none => exact absurd (List.mem_map_of_mem h) (Database.findEvent_eq_none.mp hfind)
  | some found =>
    have hid : found.eventId = row.eventId := by simpa using List.find?_some hfind
    have hmem := List.mem_of_find?_eq_some hfind
    rw [List.inj_on_of_nodup_map db.uniqueIds hmem h hid]

/-! ## The prepared append -/

section Prepared

variable {db : Database} {a e : LedgerAppend}

/-- The preparation changes the sleeve and the data only. -/
structure SameHeader (a e : LedgerAppend) : Prop where
  tenantId : e.tenantId = a.tenantId
  accountId : e.accountId = a.accountId
  eventType : e.eventType = a.eventType
  eventId : e.eventId = a.eventId
  occurredAt : e.occurredAt = a.occurredAt

theorem reroute_header (db : Database) (a : LedgerAppend) :
    SameHeader a (rerouteIfSleeveClosed db a) := by
  unfold rerouteIfSleeveClosed
  split
  · exact ⟨rfl, rfl, rfl, rfl, rfl⟩
  · split_ifs
    · split <;> exact ⟨rfl, rfl, rfl, rfl, rfl⟩
    · exact ⟨rfl, rfl, rfl, rfl, rfl⟩

theorem enrichSellFill_header {lots : List (Lot Decimal)} (h : enrichSellFill a lots = .ok e) :
    SameHeader a e ∧ e.sleeveId = a.sleeveId := by
  unfold enrichSellFill at h
  split_ifs at h
  · obtain ⟨data, -, hdata⟩ := bind_eq_ok.mp h
    cases hdata
    exact ⟨⟨rfl, rfl, rfl, rfl, rfl⟩, rfl⟩
  · cases h
    exact ⟨⟨rfl, rfl, rfl, rfl, rfl⟩, rfl⟩

theorem prepared_header (h : preparedAppend db a = .ok e) :
    SameHeader a e ∧ e.sleeveId = (rerouteIfSleeveClosed db a).sleeveId := by
  have hroute := reroute_header db a
  unfold preparedAppend at h
  simp only at h
  split_ifs at h
  · obtain ⟨lots, -, hlots⟩ := bind_eq_ok.mp h
    obtain ⟨hheader, hsleeve⟩ := enrichSellFill_header hlots
    exact ⟨⟨hheader.tenantId.trans hroute.tenantId, hheader.accountId.trans hroute.accountId,
      hheader.eventType.trans hroute.eventType, hheader.eventId.trans hroute.eventId,
      hheader.occurredAt.trans hroute.occurredAt⟩, hsleeve⟩
  · cases h
    exact ⟨hroute, rfl⟩

theorem reroute_lookup {key : String} (db : Database) (a : LedgerAppend) (h : key ≠ "sleeve_id") :
    (rerouteIfSleeveClosed db a).data.lookup key = a.data.lookup key := by
  unfold rerouteIfSleeveClosed
  split
  · rfl
  · split_ifs
    · split
      · rfl
      · rw [Payload.lookup_set, if_neg h]
    · rfl

/-- The data that is appended differs from the rerouted one in the cost and the profit. -/
theorem prepared_lookup {key : String} (h : preparedAppend db a = .ok e) (hcost : key ≠ "cost_basis")
    (hpnl : key ≠ "realized_pnl") :
    e.data.lookup key = (rerouteIfSleeveClosed db a).data.lookup key := by
  unfold preparedAppend at h
  simp only at h
  split_ifs at h
  · simp only [bind_eq_ok, enrichSellFill] at h
    obtain ⟨lots, -, h⟩ := h
    split_ifs at h
    · simp only [bind_eq_ok, enrichedData] at h
      obtain ⟨data, ⟨_, -, _, -, _, -, _, -, _, -, _, -, _, -, hdata⟩, h⟩ := h
      cases hdata
      cases h
      rw [Payload.lookup_setDefault _ hpnl, Payload.lookup_set, if_neg hcost]
  · cases h
    rfl

end Prepared

/-! ## The freeze check -/

/-- The sleeve row an append names. -/
def sleeveRow (db : Database) (a : LedgerAppend) : Option Sleeve :=
  a.sleeveId.bind fun id => db.getSleeve a.tenantId id

/-- The freeze check finds no violation, or no sleeve that it could still freeze. -/
def FreezeQuiet (db : Database) (a : LedgerAppend) : Prop :=
  ∃ violations, sleeveViolations db a = .ok violations ∧
    (violations = [] ∨ ∀ sleeve, sleeveRow db a = some sleeve → sleeve.status = .frozen)

theorem setSleeveStatus_ne {db : Database} {tenant sleeveId : UUID} {sleeve : Sleeve}
    (h : db.getSleeve tenant sleeveId = some sleeve) {status : SleeveStatus} (hne : sleeve.status ≠ status) :
    (db.setSleeveStatus sleeve.id status).sleeves ≠ db.sleeves := by
  intro heq
  have hmem := List.mem_of_find?_eq_some h
  have hfix : ∀ s ∈ db.sleeves, (if s.id = sleeve.id then { s with status } else s) = s := by
    have hmap : db.sleeves.map (fun s => if s.id = sleeve.id then { s with status } else s) =
        db.sleeves.map id := heq.trans (List.map_id _).symm
    exact List.map_inj_left.mp hmap
  have hsleeve := hfix sleeve hmem
  rw [if_pos rfl] at hsleeve
  exact hne (congrArg Sleeve.status hsleeve).symm

theorem freeze_eq_self_iff {env : Platform} {db : Database} {a : LedgerAppend} :
    freezeIfInvariantViolated env db a = .ok db ↔ FreezeQuiet db a := by
  unfold freezeIfInvariantViolated FreezeQuiet sleeveRow
  cases hviolations : sleeveViolations db a with
  | error e => simp
  | ok violations =>
    simp only [ok_bind, Except.ok.injEq, exists_eq_left']
    by_cases hnil : violations = []
    · simp [hnil, pure_eq_ok]
    · simp only [List.isEmpty_iff, hnil, if_false, false_or]
      cases hrow : a.sleeveId.bind fun id => db.getSleeve a.tenantId id with
      | none => simp [pure_eq_ok]
      | some sleeve =>
        simp only [Option.some.injEq, forall_eq']
        by_cases hfrozen : sleeve.status = .frozen
        · simp [hfrozen, pure_eq_ok]
        · simp only [hfrozen, if_false, iff_false, bind_eq_ok, not_exists, not_and, pure_eq_ok]
          rintro ⟨db', inserted⟩ happend heq
          obtain ⟨id, -, hget⟩ := Option.bind_eq_some_iff.mp hrow
          refine setSleeveStatus_ne hget hfrozen ?_
          rw [← append_sleeves happend]
          exact congrArg Database.sleeves (Except.ok.inj heq)

end LlamaTrade
