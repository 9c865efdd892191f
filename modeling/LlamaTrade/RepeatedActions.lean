import LlamaTrade.GrowingLogs

/-!
# Corporate actions that are submitted twice

A submission plans one event per holder of the symbol, under a key made of the action, the
text of its ratio and the sleeve. The holders are those of the moment: a second submission
appends nothing exactly when every sleeve it plans for is covered by a row of the log, as
the sleeves of the first submission are.
-/

namespace LlamaTrade

open Arithmetic

/-- A corporate action as it is submitted. -/
inductive CorporateAction where
  | split (symbol : String) (ratio : Decimal) (externalId : String)
  | rename (oldSymbol newSymbol externalId : String)
  | dividend (symbol : String) (totalAmount : Decimal) (payId : String)

namespace CorporateAction

/-- The same action: the same ids, and numbers that are equal. -/
def Same : CorporateAction → CorporateAction → Prop
  | split symbol ratio externalId, split symbol' ratio' externalId' =>
    symbol = symbol' ∧ externalId = externalId' ∧ eq ratio ratio' = .ok true
  | rename old new externalId, rename old' new' externalId' =>
    old = old' ∧ new = new' ∧ externalId = externalId'
  | dividend symbol totalAmount payId, dividend symbol' totalAmount' payId' =>
    symbol = symbol' ∧ payId = payId' ∧ eq totalAmount totalAmount' = .ok true
  | _, _ => False

/-- The events that a submission plans. -/
def plan (db : Database) (tenant account : UUID) :
    CorporateAction → Except PyError (List PlannedCorporateEvent)
  | split symbol ratio externalId => do
    planSplit symbol ratio (← holdersOf db tenant account (heldQty symbol)) externalId
  | rename oldSymbol newSymbol externalId => do
    planSymbolChange oldSymbol newSymbol (← holdersOf db tenant account (heldPosition oldSymbol))
      externalId
  | dividend symbol totalAmount payId => do
    splitDividend symbol totalAmount (← holdersOf db tenant account (positiveQty symbol)) payId

/-- The dedup key of the event of a sleeve. -/
def key (sleeve : UUID) : CorporateAction → String
  | split symbol ratio externalId =>
    "split:" ++ symbol ++ ":" ++ externalId ++ ":" ++ text ratio ++ ":" ++ sleeve.text
  | rename oldSymbol newSymbol externalId =>
    "rename:" ++ oldSymbol ++ ":" ++ newSymbol ++ ":" ++ externalId ++ ":" ++ sleeve.text
  | dividend symbol _ payId => "div:" ++ symbol ++ ":" ++ payId ++ ":" ++ sleeve.text

/-- Two splits write their ratio in the same way. -/
def SameText : CorporateAction → CorporateAction → Prop
  | split _ ratio _, split _ ratio' _ => text ratio = text ratio'
  | _, _ => True

theorem key_of_same {a b : CorporateAction} (h : a.Same b) (htext : a.SameText b) (sleeve : UUID) :
    a.key sleeve = b.key sleeve := by
  cases a with
  | split symbol ratio externalId =>
    cases b with
    | split symbol' ratio' externalId' =>
      obtain ⟨rfl, rfl, -⟩ := h
      have hratio : text ratio = text ratio' := htext
      change "split:" ++ symbol ++ ":" ++ externalId ++ ":" ++ text ratio ++ ":" ++ sleeve.text = _
      rw [hratio]
      rfl
    | _ => cases h
  | rename old new externalId =>
    cases b with
    | rename old' new' externalId' =>
      obtain ⟨rfl, rfl, rfl⟩ := h
      rfl
    | _ => cases h
  | dividend symbol totalAmount payId =>
    cases b with
    | dividend symbol' totalAmount' payId' =>
      obtain ⟨rfl, rfl, -⟩ := h
      rfl
    | _ => cases h

def operation (tenant account : UUID) : CorporateAction → Operation
  | split symbol ratio externalId => .split tenant account symbol ratio externalId
  | rename oldSymbol newSymbol externalId =>
    .symbolChange tenant account oldSymbol newSymbol externalId
  | dividend symbol totalAmount payId => .dividend tenant account symbol totalAmount payId

end CorporateAction

/-! ## Keys -/

theorem splitEvents_key {symbol externalId : String} {ratio : Decimal}
    {holders : List (UUID × Decimal)} {events : List PlannedCorporateEvent}
    (h : splitEvents symbol ratio externalId holders = .ok events) :
    ∀ ev ∈ events, ev.dedupKey = (CorporateAction.split symbol ratio externalId).key ev.sleeveId := by
  induction holders generalizing events with
  | nil =>
    cases h
    simp
  | cons holder holders ih =>
    simp only [splitEvents, bind_eq_ok] at h
    obtain ⟨first, hfirst, rest, hrest, h⟩ := h
    cases h
    intro ev hev
    rcases List.mem_append.mp hev with hev | hev
    · simp only [splitEvent, bind_eq_ok] at hfirst
      obtain ⟨isZero, -, hfirst⟩ := hfirst
      split_ifs at hfirst
      · cases hfirst
        cases hev
      · simp only [bind_eq_ok] at hfirst
        obtain ⟨_, -, delta, -, zeroDelta, -, hfirst⟩ := hfirst
        split_ifs at hfirst
        · cases hfirst
          cases hev
        · cases hfirst
          rw [Option.toList_some, List.mem_singleton] at hev
          subst hev
          rfl
    · exact ih hrest ev hev

theorem renameEvents_key {oldSymbol newSymbol externalId : String}
    {holders : List (UUID × PositionState Decimal)} {events : List PlannedCorporateEvent}
    (h : renameEvents oldSymbol newSymbol externalId holders = .ok events) :
    ∀ ev ∈ events,
      ev.dedupKey = (CorporateAction.rename oldSymbol newSymbol externalId).key ev.sleeveId := by
  induction holders generalizing events with
  | nil =>
    cases h
    simp
  | cons holder holders ih =>
    simp only [renameEvents, bind_eq_ok] at h
    obtain ⟨first, hfirst, rest, hrest, h⟩ := h
    cases h
    intro ev hev
    rcases List.mem_append.mp hev with hev | hev
    · simp only [renameEvent, bind_eq_ok] at hfirst
      obtain ⟨isZero, -, hfirst⟩ := hfirst
      split_ifs at hfirst
      · cases hfirst
        cases hev
      · cases hfirst
        rw [Option.toList_some, List.mem_singleton] at hev
        subst hev
        rfl
    · exact ih hrest ev hev

theorem splitDividend_key {symbol payId : String} {totalAmount : Decimal}
    {holders : List (UUID × Decimal)} {events : List PlannedCorporateEvent}
    (h : splitDividend symbol totalAmount holders payId = .ok events) :
    ∀ ev ∈ events,
      ev.dedupKey = (CorporateAction.dividend symbol totalAmount payId).key ev.sleeveId := by
  simp only [splitDividend, bind_eq_ok] at h
  obtain ⟨nonpositive, -, h⟩ := h
  split_ifs at h
  simp only [bind_eq_ok] at h
  obtain ⟨positive, -, totalQty, -, none, -, h⟩ := h
  split_ifs at h
  · cases h
    simp
  · simp only [bind_eq_ok] at h
    obtain ⟨ordered, -, h⟩ := h
    cases ordered with
    | nil =>
      cases h
      simp
    | cons largest others =>
      simp only [dividendEvents, bind_eq_ok] at h
      obtain ⟨⟨shares, allocated⟩, -, remainder, -, h⟩ := h
      cases h
      intro ev hev
      obtain ⟨share, -, rfl⟩ := List.mem_map.mp hev
      rfl

section Submissions

variable {env : Platform} {db db' : Database} {tenant account : UUID} {a : CorporateAction}

theorem plan_key {events : List PlannedCorporateEvent} (h : a.plan db tenant account = .ok events) :
    ∀ ev ∈ events, ev.dedupKey = a.key ev.sleeveId := by
  cases a with
  | split symbol ratio externalId =>
    simp only [CorporateAction.plan, planSplit, bind_eq_ok] at h
    obtain ⟨holders, -, nonpositive, -, h⟩ := h
    split_ifs at h
    exact splitEvents_key h
  | rename oldSymbol newSymbol externalId =>
    simp only [CorporateAction.plan, planSymbolChange, bind_eq_ok] at h
    obtain ⟨holders, -, h⟩ := h
    split_ifs at h
    exact renameEvents_key h
  | dividend symbol totalAmount payId =>
    simp only [CorporateAction.plan, bind_eq_ok] at h
    obtain ⟨holders, -, h⟩ := h
    exact splitDividend_key h

/-- A submission plans, appends what it planned and asserts the invariants. -/
theorem commit_operation : (a.operation tenant account).commit env db =
    (a.plan db tenant account >>= applyCorporateEvents env db tenant account).map (·.1) := by
  cases a with
  | split symbol ratio externalId =>
    simp only [CorporateAction.operation, Operation.commit, CorporateAction.plan,
      CorporateActionService.applySplit, bind_assoc]
  | rename oldSymbol newSymbol externalId =>
    simp only [CorporateAction.operation, Operation.commit, CorporateAction.plan,
      CorporateActionService.applySymbolChange, bind_assoc]
  | dividend symbol totalAmount payId =>
    simp only [CorporateAction.operation, Operation.commit, CorporateAction.plan,
      CorporateActionService.applyDividend, bind_assoc]

/-- The log has a row with the id of a planned event. -/
def Logged (env : Platform) (db : Database) (ev : PlannedCorporateEvent) : Prop :=
  ∃ row ∈ db.events, row.eventId = env.digest ev.dedupKey

theorem appendCorporateEvents_logged {events : List PlannedCorporateEvent}
    (h : appendCorporateEvents env tenant account db events = .ok db') :
    ∀ ev ∈ events, Logged env db' ev := by
  induction events generalizing db with
  | nil =>
    intro ev hev
    cases hev
  | cons first events ih =>
    rw [appendCorporateEvents, bind_eq_ok] at h
    obtain ⟨⟨next, inserted⟩, happend, hrest⟩ := h
    intro ev hev
    rcases List.mem_cons.mp hev with rfl | hev
    · obtain ⟨row, hrow, hid, -⟩ := append_books happend
      exact ⟨row, (appendCorporateEvents_events hrest).subset hrow, hid⟩
    · exact ih hrest ev hev

/-- Events that are all logged leave the database as it is. -/
theorem appendCorporateEvents_noop {events : List PlannedCorporateEvent}
    (h : appendCorporateEvents env tenant account db events = .ok db')
    (hlogged : ∀ ev ∈ events, Logged env db ev) : db' = db := by
  induction events with
  | nil =>
    cases h
    rfl
  | cons ev events ih =>
    obtain ⟨⟨row, hrow, hid⟩, hlogged⟩ := List.forall_mem_cons.mp hlogged
    rw [appendCorporateEvents, bind_eq_ok] at h
    obtain ⟨⟨next, inserted⟩, happend, hrest⟩ := h
    have hnext : next = db := by
      obtain ⟨-, ⟨hnone, -⟩ | ⟨_, -, -, hsame, -⟩⟩ := append_eq_ok happend
      · exact absurd (List.mem_map.mpr ⟨row, hrow, hid⟩) (Database.findEvent_eq_none.mp hnone)
      · exact hsame
    rw [hnext] at hrest
    exact ih hrest hlogged

theorem operation_appends (h : (a.operation tenant account).commit env db = .ok db') :
    ∃ events, a.plan db tenant account = .ok events ∧
      appendCorporateEvents env tenant account db events = .ok db' := by
  rw [commit_operation] at h
  obtain ⟨⟨next, n⟩, hrun, rfl⟩ := map_eq_ok.mp h
  obtain ⟨events, hplan, hrun⟩ := bind_eq_ok.mp hrun
  exact ⟨events, hplan, applyCorporateEvents_appends hrun⟩

/-- No event is appended: positions, cash and lots are what they were. -/
structure NoEconomicChange (tenant account : UUID) (db db' : Database) : Prop where
  events : db'.events = db.events
  sleeves : ∀ id, (db'.projectAccount tenant account).sleeve id =
    (db.projectAccount tenant account).sleeve id
  lots : ∀ id symbol, db'.openLots tenant account id symbol = db.openLots tenant account id symbol

theorem noEconomicChange_refl : NoEconomicChange tenant account db db :=
  ⟨rfl, fun _ => rfl, fun _ _ => rfl⟩

/-- An action was submitted before, with these planned events, and the rows of that
submission are still in the log. -/
structure Submitted (env : Platform) (tenant account : UUID) (a : CorporateAction)
    (planned : List PlannedCorporateEvent) (before after db : Database) : Prop where
  plan : a.plan before tenant account = .ok planned
  commit : (a.operation tenant account).commit env before = .ok after
  kept : ∀ row ∈ after.events, row ∈ db.events

/-- Whatever operations run in between, the rows are kept. -/
theorem submitted_run {planned : List PlannedCorporateEvent} {before after : Database}
    {ops : List Operation} (hplan : a.plan before tenant account = .ok planned)
    (hcommit : (a.operation tenant account).commit env before = .ok after)
    (hrun : Transition.run (accountStep env) after ops = some db) :
    Submitted env tenant account a planned before after db :=
  ⟨hplan, hcommit, fun _ hrow => (run_events hrun).subset hrow⟩

theorem Submitted.logged {planned : List PlannedCorporateEvent} {before after : Database}
    (h : Submitted env tenant account a planned before after db) : ∀ ev ∈ planned, Logged env db ev := by
  obtain ⟨events, hevents, happend⟩ := operation_appends h.commit
  cases h.plan.symm.trans hevents
  intro ev hev
  obtain ⟨row, hrow, hid⟩ := appendCorporateEvents_logged happend ev hev
  exact ⟨row, h.kept row hrow, hid⟩

/-- Every sleeve that the second submission plans for is one that the first planned for, with
the ratio written in the same way; or the log has a row with the id for another reason. -/
def Covered (env : Platform) (db : Database) (first second : CorporateAction)
    (planned events : List PlannedCorporateEvent) : Prop :=
  ∀ ev ∈ events, (first.SameText second ∧ ∃ ev₀ ∈ planned, ev₀.sleeveId = ev.sleeveId) ∨
    Logged env db ev

/-- A second submission changes nothing exactly when it raises or is covered. -/
theorem resubmission_noop_iff {first second : CorporateAction} {planned : List PlannedCorporateEvent}
    {before after : Database} (hfirst : Submitted env tenant account first planned before after db)
    (hsame : first.Same second) :
    NoEconomicChange tenant account db ((second.operation tenant account).perform env db) ↔
      ∀ events db', second.plan db tenant account = .ok events →
        (second.operation tenant account).commit env db = .ok db' →
          Covered env db first second planned events := by
  constructor
  · intro hnone events db' hplan hcommit ev hev
    obtain ⟨events', hplan', happend⟩ := operation_appends hcommit
    cases hplan.symm.trans hplan'
    rw [Operation.perform_of_commit hcommit] at hnone
    obtain ⟨row, hrow, hid⟩ := appendCorporateEvents_logged happend ev hev
    exact .inr ⟨row, hnone.events ▸ hrow, hid⟩
  · intro hcovered
    refine Operation.perform_induction noEconomicChange_refl fun db' hcommit => ?_
    obtain ⟨events, hplan, happend⟩ := operation_appends hcommit
    have hlogged : ∀ ev ∈ events, Logged env db ev := by
      intro ev hev
      rcases hcovered events db' hplan hcommit ev hev with ⟨htext, ev₀, hev₀, hsleeve⟩ | hlogged
      · obtain ⟨row, hrow, hid⟩ := hfirst.logged ev₀ hev₀
        have hkey : ev₀.dedupKey = ev.dedupKey := by
          rw [plan_key hfirst.plan ev₀ hev₀, plan_key hplan ev hev, hsleeve,
            CorporateAction.key_of_same hsame htext]
        exact ⟨row, hrow, hkey ▸ hid⟩
      · exact hlogged
    rw [appendCorporateEvents_noop happend hlogged]
    exact noEconomicChange_refl

end Submissions

/-! ## A buyer between two submissions -/

namespace Sample

/-- A second strategy. -/
def second : UUID := 10

/-- An account with 500 in each of two strategy sleeves. -/
def twoStrategies : Database where
  events :=
    [row 6 1 .fundsDeposited
      [("sleeve_id", .str unallocated.text), ("amount", .str "1000")],
    row 7 2 .capitalAllocated
      [("from_sleeve_id", .str unallocated.text), ("to_sleeve_id", .str strategy.text),
        ("amount", .str "500")],
    row 8 3 .capitalAllocated
      [("from_sleeve_id", .str unallocated.text), ("to_sleeve_id", .str second.text),
        ("amount", .str "500")]]
  sleeves :=
    [⟨unallocated, tenant, account, .unallocated, .active, none⟩,
      ⟨unmanaged, tenant, account, .unmanaged, .active, none⟩,
      ⟨strategy, tenant, account, .strategy, .active, some 8⟩,
      ⟨second, tenant, account, .strategy, .active, some 11⟩]
  uniqueIds := by decide +kernel
  uniqueSleeves := by decide

/-- The digests of two client order ids and of the split's events for the two sleeves. -/
def splitPlatform : Platform where
  digest key :=
    if key = "b1" then 0x7dc96f776c8423e57a2785489a3f9c43
    else if key = "b2" then 0x4814d92093ac8a0f4a2163ab87dee509
    else if key = "split:SPY:ann-1:2:00000000-0000-0000-0000-000000000005" then
      0xe8df101d574732a1342678472b81b56b
    else if key = "split:SPY:ann-1:2:00000000-0000-0000-0000-00000000000a" then
      0x52bbfbe9126b74a297c52618d0937ea3
    else 0
  storesTimestamp _ := true

def twoForOne : CorporateAction := .split "SPY" (.finite false 2 0) "ann-1"

def buyOf (sleeve : UUID) (clientOrderId qty price : String) : Operation :=
  .ingest (.fill ⟨tenant.text, account.text, sleeve.text, clientOrderId, "", "SPY", "buy", qty,
    price, "", "", "", "2024-05-01T14:30:00+00:00"⟩)

/-- The first strategy holds ten shares. -/
def beforeSplit : Database := (buyOf strategy "b1" "10" "50").perform splitPlatform twoStrategies

def afterSplit : Database := (twoForOne.operation tenant account).perform splitPlatform beforeSplit

/-- The second strategy buys four of the new shares. -/
def boughtAfterSplit : Database := (buyOf second "b2" "4" "25").perform splitPlatform afterSplit

/-- The first strategy buys four of the new shares. -/
def boughtBySame : Database := (buyOf strategy "b2" "4" "25").perform splitPlatform afterSplit

theorem split_evaluated :
    ((twoForOne.operation tenant account).commit splitPlatform beforeSplit).isOk = true ∧
    (∀ db ∈ [beforeSplit, boughtBySame],
      (twoForOne.plan db tenant account).map (fun events => events.map (·.sleeveId)) =
        .ok [strategy]) ∧
    (((boughtAfterSplit.projectAccount tenant account).sleeve second.text).position "SPY").qty.toRat =
      4 ∧
    (((((twoForOne.operation tenant account).perform splitPlatform boughtAfterSplit).projectAccount
      tenant account).sleeve second.text).position "SPY").qty.toRat = 8 := by
  decide +kernel

theorem split_submitted (op : Operation) : ∃ planned, Submitted splitPlatform tenant account
    twoForOne planned beforeSplit afterSplit (op.perform splitPlatform afterSplit) := by
  have hcommit : (twoForOne.operation tenant account).commit splitPlatform beforeSplit =
      .ok afterSplit := Operation.commit_of_isOk split_evaluated.1
  obtain ⟨planned, hplan, -⟩ := operation_appends hcommit
  exact ⟨planned, @submitted_run _ _ _ _ _ _ _ _ [op] hplan hcommit rfl⟩

theorem twoForOne_same : twoForOne.Same twoForOne := by
  exact ⟨rfl, rfl, rfl⟩

end Sample

theorem resubmission_noop_sameHolder :
    NoEconomicChange Sample.tenant Sample.account Sample.boughtBySame
      ((Sample.twoForOne.operation Sample.tenant Sample.account).perform Sample.splitPlatform
        Sample.boughtBySame) := by
  have hplanned : ∀ db ∈ [Sample.beforeSplit, Sample.boughtBySame],
      (Sample.twoForOne.plan db Sample.tenant Sample.account).map
        (fun events => events.map (·.sleeveId)) = .ok [Sample.strategy] := Sample.split_evaluated.2.1
  obtain ⟨planned, hfirst⟩ := Sample.split_submitted (Sample.buyOf Sample.strategy "b2" "4" "25")
  have hsleeves := hplanned Sample.beforeSplit (by simp)
  rw [hfirst.plan] at hsleeves
  refine (resubmission_noop_iff hfirst Sample.twoForOne_same).mpr fun events db' hplan _ ev hev => ?_
  have hsecond := hplanned Sample.boughtBySame (by simp)
  rw [Sample.boughtBySame, hplan] at hsecond
  have hmem : ev.sleeveId ∈ planned.map (·.sleeveId) := by
    have hids : planned.map (·.sleeveId) = events.map (·.sleeveId) :=
      (Except.ok.inj hsleeves).trans (Except.ok.inj hsecond).symm
    rw [hids]
    exact List.mem_map_of_mem hev
  obtain ⟨ev₀, hev₀, hsleeve⟩ := List.mem_map.mp hmem
  exact .inl ⟨rfl, ev₀, hev₀, hsleeve⟩

/-- The shares that the second strategy bought after the split are split as well. -/
theorem resubmission_splits_new_holder :
    (∃ planned, Submitted Sample.splitPlatform Sample.tenant Sample.account Sample.twoForOne planned
      Sample.beforeSplit Sample.afterSplit Sample.boughtAfterSplit) ∧
    Sample.twoForOne.Same Sample.twoForOne ∧
    ¬ NoEconomicChange Sample.tenant Sample.account Sample.boughtAfterSplit
      ((Sample.twoForOne.operation Sample.tenant Sample.account).perform Sample.splitPlatform
        Sample.boughtAfterSplit) := by
  refine ⟨Sample.split_submitted _, Sample.twoForOne_same, fun hnone => ?_⟩
  obtain ⟨-, -, hbefore, hafter⟩ := Sample.split_evaluated
  rw [hnone.sleeves, hbefore] at hafter
  norm_num at hafter

end LlamaTrade
