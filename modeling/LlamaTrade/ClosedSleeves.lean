import LlamaTrade.AccountRuns
import LlamaTrade.RedeliveredMessages

/-!
# Whether CLOSED is terminal

The capital operations, corporate actions and adoptions write no status, and a close writes
only CLOSED. The freezes skip sleeves that are frozen already, not those that are closed: a
closed sleeve keeps its status as long as no freeze reaches it.
-/

namespace LlamaTrade

variable {env : Platform} {db db' db₀ : Database}

/-! ## Which sleeves an operation writes -/

theorem appendFundEvents_sleeves {r : FundRequest} {op : String} {index : ℕ}
    {events : List PlannedFundEvent} (h : appendFundEvents env r op db index events = .ok db') :
    db'.sleeves = db.sleeves := by
  induction events generalizing db index with
  | nil =>
    cases h
    rfl
  | cons ev events ih =>
    rw [appendFundEvents, bind_eq_ok] at h
    obtain ⟨⟨next, inserted⟩, happend, hrest⟩ := h
    rw [ih hrest, append_sleeves happend]

theorem executeFundPlan_sleeves {r : FundRequest} {plan : Except PyError FundPlan}
    {views : List SleeveView} (h : executeFundPlan env db r plan = .ok (db', views)) :
    db'.sleeves = db.sleeves := by
  simp only [executeFundPlan, bind_eq_ok] at h
  obtain ⟨plan, -, next, happend, -, -, h⟩ := h
  cases h
  exact appendFundEvents_sleeves happend

theorem appendCorporateEvents_sleeves {tenant account : UUID} {events : List PlannedCorporateEvent}
    (h : appendCorporateEvents env tenant account db events = .ok db') :
    db'.sleeves = db.sleeves := by
  induction events generalizing db with
  | nil =>
    cases h
    rfl
  | cons ev events ih =>
    rw [appendCorporateEvents, bind_eq_ok] at h
    obtain ⟨⟨next, inserted⟩, happend, hrest⟩ := h
    rw [ih hrest, append_sleeves happend]

theorem applyCorporateEvents_sleeves {tenant account : UUID} {events : List PlannedCorporateEvent}
    {n : ℕ} (h : applyCorporateEvents env db tenant account events = .ok (db', n)) :
    db'.sleeves = db.sleeves := by
  simp only [applyCorporateEvents, bind_eq_ok] at h
  obtain ⟨next, happend, h⟩ := h
  split_ifs at h
  · cases h
    exact appendCorporateEvents_sleeves happend
  · simp only [bind_eq_ok] at h
    obtain ⟨-, -, h⟩ := h
    cases h
    exact appendCorporateEvents_sleeves happend

theorem adoptExternalTrade_sleeves {tenant account : UUID} {drift : Drift} {reads : AdoptionReads}
    {onDate action : String}
    (h : adoptExternalTrade env db tenant account drift reads onDate = .ok (db', action)) :
    db'.sleeves = db.sleeves := by
  unfold adoptExternalTrade at h
  split_ifs at h
  · cases h
    rfl
  · split at h
    · simp only [bind_eq_ok] at h
      obtain ⟨delta, -, eventId, -, ⟨next, inserted⟩, happend, h⟩ := h
      cases h
      exact append_sleeves happend
    · cases h
      rfl

theorem addSleeve_mem {sleeve s : Sleeve} (h : db.addSleeve sleeve = .ok db') (hs : s ∈ db.sleeves) :
    s ∈ db'.sleeves := by
  unfold Database.addSleeve at h
  split_ifs at h
  cases h
  exact List.mem_append_left _ hs

theorem ensureBaseSleeve_mem {tenant account fresh : UUID} {type : SleeveType} {sleeve s : Sleeve}
    (h : ensureBaseSleeve db tenant account type fresh = .ok (db', sleeve)) (hs : s ∈ db.sleeves) :
    s ∈ db'.sleeves := by
  unfold ensureBaseSleeve at h
  split at h
  · cases h
    exact hs
  · simp only [bind_eq_ok] at h
    obtain ⟨next, hadd, h⟩ := h
    cases h
    exact addSleeve_mem hadd hs

theorem ensureBaseSleeves_mem {tenant account : UUID} {fresh : ℕ → UUID} {base : List Sleeve}
    {s : Sleeve} (h : ensureBaseSleeves db tenant account fresh = .ok (db', base))
    (hs : s ∈ db.sleeves) : s ∈ db'.sleeves := by
  simp only [ensureBaseSleeves, bind_eq_ok] at h
  obtain ⟨⟨db₁, unallocated⟩, h₁, ⟨db₂, manual⟩, h₂, ⟨db₃, unmanaged⟩, h₃, h⟩ := h
  cases h
  exact ensureBaseSleeve_mem h₃ (ensureBaseSleeve_mem h₂ (ensureBaseSleeve_mem h₁ hs))

theorem getOrCreateStrategySleeve_mem {tenant account execution fresh : UUID} {sleeve s : Sleeve}
    (h : getOrCreateStrategySleeve db tenant account execution fresh = .ok (db', sleeve))
    (hs : s ∈ db.sleeves) : s ∈ db'.sleeves := by
  unfold getOrCreateStrategySleeve at h
  split at h
  · cases h
    exact hs
  · simp only [bind_eq_ok] at h
    obtain ⟨next, hadd, h⟩ := h
    cases h
    exact addSleeve_mem hadd hs

/-! ## Closed sleeves -/

/-- A sleeve that is CLOSED in the first database is in the second as it was. -/
def ClosedKept (db db' : Database) : Prop :=
  ∀ s ∈ db.sleeves, s.status = .closed → s ∈ db'.sleeves

theorem closedKept_of_eq (h : db'.sleeves = db.sleeves) : ClosedKept db db' := by
  intro s hs _
  rw [h]
  exact hs

/-- Setting the status of a sleeve that is not closed keeps the closed ones. -/
theorem mem_setSleeveStatus {id : UUID} {status : SleeveStatus} {s : Sleeve} (hs : s ∈ db.sleeves)
    (h : s.id ≠ id ∨ s.status = status) : s ∈ (db.setSleeveStatus id status).sleeves := by
  refine List.mem_map.mpr ⟨s, hs, ?_⟩
  split_ifs with hid
  · have hstatus : s.status = status := h.resolve_left fun hne => hne hid
    rw [← hstatus]
  · rfl

theorem closeSleeve_closedKept {tenant account id : UUID} {reason : Option String}
    {result : CloseResult}
    (h : closeSleeve env db tenant account id reason = .ok (db', result)) : ClosedKept db db' := by
  simp only [closeSleeve, bind_eq_ok] at h
  obtain ⟨sleeve, -, h⟩ := h
  split_ifs at h
  · cases h
    exact closedKept_of_eq rfl
  · simp only [bind_eq_ok] at h
    obtain ⟨⟨plan, unmanaged, unallocated⟩, -, ⟨next, inserted⟩, happend, -, -, h⟩ := h
    cases h
    intro s hs hclosed
    refine mem_setSleeveStatus ?_ (.inr hclosed)
    rw [append_sleeves happend]
    exact hs

/-! ## Freezes -/

/-- The two databases have the same closed sleeves. -/
def SameClosed (db₀ db : Database) : Prop :=
  ∀ s, s.status = .closed → (s ∈ db.sleeves ↔ s ∈ db₀.sleeves)

theorem SameClosed.kept (h : SameClosed db db') : ClosedKept db db' :=
  fun s hs hclosed => (h s hclosed).mpr hs

/-- Freezing a sleeve that is not closed leaves the closed sleeves. -/
theorem SameClosed.freeze {sleeve : Sleeve} (h : SameClosed db₀ db) (hmem : sleeve ∈ db₀.sleeves)
    (hopen : sleeve.status ≠ .closed)
    (hsleeves : db'.sleeves = (db.setSleeveStatus sleeve.id .frozen).sleeves) :
    SameClosed db₀ db' := by
  intro s hclosed
  rw [hsleeves, ← h s hclosed]
  constructor
  · intro hs
    obtain ⟨s₁, hs₁, heq⟩ := List.mem_map.mp hs
    split_ifs at heq
    · rw [← heq] at hclosed
      cases hclosed
    · exact heq ▸ hs₁
  · intro hs
    refine mem_setSleeveStatus hs (.inl fun hid => ?_)
    have hsame := List.inj_on_of_nodup_map db₀.uniqueSleeves ((h s hclosed).mp hs) hmem hid
    exact hopen (hsame ▸ hclosed)

theorem freezeSleeve_sleeves {tenant account eventId : UUID} {sleeve : Sleeve} {reason : String}
    (h : freezeSleeve env db tenant account sleeve reason eventId = .ok db') :
    db'.sleeves = (db.setSleeveStatus sleeve.id .frozen).sleeves := by
  simp only [freezeSleeve, bind_eq_ok] at h
  obtain ⟨⟨next, inserted⟩, happend, h⟩ := h
  cases h
  exact append_sleeves happend

theorem freezeHolding_sameClosed {tenant account : UUID} {acc : AccountProjection Decimal}
    {drift : Drift} {onDate : String} {sleeves : List Sleeve} {n : ℕ}
    (hmem : ∀ s ∈ sleeves, s ∈ db₀.sleeves)
    (hopen : ∀ s ∈ sleeves, s.status = .closed → holdsNone acc s drift.symbol = .ok true)
    (h : SameClosed db₀ db)
    (hfreeze : freezeHolding env tenant account acc drift onDate db sleeves = .ok (db', n)) :
    SameClosed db₀ db' := by
  induction sleeves generalizing db n with
  | nil =>
    cases hfreeze
    exact h
  | cons sleeve sleeves ih =>
    obtain ⟨hsleeve, hmem⟩ := List.forall_mem_cons.mp hmem
    obtain ⟨hsleeveOpen, hopen⟩ := List.forall_mem_cons.mp hopen
    simp only [freezeHolding, bind_eq_ok] at hfreeze
    obtain ⟨none, hnone, hfreeze⟩ := hfreeze
    split_ifs at hfreeze with hskip hfrozen
    · exact ih hmem hopen h hfreeze
    · exact ih hmem hopen h hfreeze
    · simp only [bind_eq_ok] at hfreeze
      obtain ⟨eventId, -, next, hnext, ⟨last, frozen⟩, hloop, hfreeze⟩ := hfreeze
      cases hfreeze
      refine ih hmem hopen (h.freeze hsleeve ?_ (freezeSleeve_sleeves hnext)) hloop
      intro hclosed
      rw [hsleeveOpen hclosed] at hnone
      exact hskip (Except.ok.inj hnone).symm

theorem freezeUnfrozen_sameClosed {tenant account : UUID} {cashDrift : Decimal} {onDate : String}
    {sleeves : List Sleeve} {n : ℕ} (hmem : ∀ s ∈ sleeves, s ∈ db₀.sleeves)
    (hopen : ∀ s ∈ sleeves, s.status ≠ .closed) (h : SameClosed db₀ db)
    (hfreeze : freezeUnfrozen env tenant account cashDrift onDate db sleeves = .ok (db', n)) :
    SameClosed db₀ db' := by
  induction sleeves generalizing db n with
  | nil =>
    cases hfreeze
    exact h
  | cons sleeve sleeves ih =>
    obtain ⟨hsleeve, hmem⟩ := List.forall_mem_cons.mp hmem
    obtain ⟨hsleeveOpen, hopen⟩ := List.forall_mem_cons.mp hopen
    simp only [freezeUnfrozen] at hfreeze
    split_ifs at hfreeze with hfrozen
    · exact ih hmem hopen h hfreeze
    · simp only [bind_eq_ok] at hfreeze
      obtain ⟨next, hnext, ⟨last, frozen⟩, hloop, hfreeze⟩ := hfreeze
      cases hfreeze
      exact ih hmem hopen (h.freeze hsleeve hsleeveOpen (freezeSleeve_sleeves hnext)) hloop

/-- The sleeve on which a message's fill is booked is not closed: if the sleeve it names is,
the account has an Unmanaged sleeve that is not. -/
def RoutedOpen (db : Database) (a : LedgerAppend) : Prop :=
  ∀ s, sleeveRow db (rerouteIfSleeveClosed db a) = some s → s.status ≠ .closed

theorem persistAppend_closedKept {a : LedgerAppend}
    (hopen : a.eventType = .orderFilled → RoutedOpen db a)
    (h : persistAppend env db a = .ok db') : ClosedKept db db' := by
  simp only [persistAppend, bind_eq_ok] at h
  obtain ⟨e, hprepared, ⟨next, inserted⟩, happend, h⟩ := h
  obtain ⟨hheader, hsleeve⟩ := prepared_header hprepared
  have hsame : SameClosed db next := by
    intro s _
    rw [append_sleeves happend]
  split_ifs at h with hfill
  · simp only [freezeIfInvariantViolated, bind_eq_ok] at h
    obtain ⟨violations, -, h⟩ := h
    split_ifs at h
    · cases h
      exact hsame.kept
    · split at h
      · cases h
        exact hsame.kept
      · rename_i sleeve hrow
        split_ifs at h
        · cases h
          exact hsame.kept
        · simp only [bind_eq_ok] at h
          obtain ⟨⟨last, inserted'⟩, hfreeze, h⟩ := h
          cases h
          have hsleeves : next.sleeves = db.sleeves := append_sleeves happend
          have hrow' : sleeveRow db (rerouteIfSleeveClosed db a) = some sleeve := by
            unfold sleeveRow
            rw [← hrow, (reroute_header db a).tenantId, ← hheader.tenantId, hsleeve]
            simp only [Database.getSleeve, hsleeves]
          obtain ⟨id, -, hget⟩ := Option.bind_eq_some_iff.mp hrow'
          exact (hsame.freeze (List.mem_of_find?_eq_some hget)
            (hopen (hheader.eventType ▸ hfill) sleeve hrow') (append_sleeves hfreeze)).kept
  · cases h
    exact hsame.kept

/-! ## Runs -/

/-- No freeze of the operation reaches a closed sleeve: a position freeze finds no closed
sleeve that holds the symbol, a cash freeze no closed sleeve at all, and a fill is not
booked on a closed sleeve. -/
def FreezesNoClosed (env : Platform) (db : Database) : Operation → Prop
  | .driftAction tenant account drift _ _ =>
    drift.kind = .missingAtBroker ∨ drift.kind = .qtyMismatch →
      ∀ s ∈ db.listSleeves tenant account, s.status = .closed →
        holdsNone (db.projectAccount tenant account) s drift.symbol = .ok true
  | .freezeForCashDrift tenant account _ _ =>
    ∀ s ∈ db.listSleeves tenant account, s.status ≠ .closed
  | .ingest message =>
    ∀ a, appendFromMessage env message = .ok a → a.eventType = .orderFilled → RoutedOpen db a
  | _ => True

theorem applyDriftAction_closedKept {tenant account : UUID} {drift : Drift} {reads : AdoptionReads}
    {onDate action : String}
    (hopen : FreezesNoClosed env db (.driftAction tenant account drift reads onDate))
    (h : applyDriftAction env db tenant account drift reads onDate = .ok (db', action)) :
    ClosedKept db db' := by
  have hfreeze : drift.kind = .missingAtBroker ∨ drift.kind = .qtyMismatch → ∀ n,
      freezeHoldingSleeves env db tenant account drift onDate = .ok (db', n) →
        ClosedKept db db' := by
    intro hkind n hn
    exact (freezeHolding_sameClosed (fun s hs => List.mem_of_mem_filter hs) (hopen hkind)
      (fun _ _ => Iff.rfl) hn).kept
  unfold applyDriftAction at h
  cases hkind : drift.kind with
  | missingInLedger =>
    rw [hkind] at h
    exact closedKept_of_eq (adoptExternalTrade_sleeves h)
  | missingAtBroker =>
    simp only [hkind, bind_eq_ok] at h
    obtain ⟨⟨next, n⟩, hn, h⟩ := h
    cases h
    exact hfreeze (.inl hkind) n hn
  | qtyMismatch =>
    simp only [hkind, bind_eq_ok] at h
    obtain ⟨⟨next, n⟩, hn, h⟩ := h
    cases h
    exact hfreeze (.inr hkind) n hn
  | ok =>
    rw [hkind] at h
    cases h
    exact closedKept_of_eq rfl
  | dust =>
    rw [hkind] at h
    cases h
    exact closedKept_of_eq rfl

/-- An operation whose freezes reach no closed sleeve keeps the closed sleeves. -/
theorem commit_closedKept {op : Operation} (hopen : FreezesNoClosed env db op)
    (h : op.commit env db = .ok db') : ClosedKept db db' := by
  cases op with
  | deposit r | withdraw r | allocate r dest | transfer r frm dest =>
    obtain ⟨⟨next, views⟩, hrun, rfl⟩ := map_eq_ok.mp h
    exact closedKept_of_eq (executeFundPlan_sleeves hrun)
  | allocateToStrategy r execution fresh =>
    obtain ⟨⟨next, views⟩, hrun, rfl⟩ := map_eq_ok.mp h
    simp only [allocateToStrategy, bind_eq_ok] at hrun
    obtain ⟨⟨opened, sleeve⟩, hopened, hrun⟩ := hrun
    intro s hs _
    rw [executeFundPlan_sleeves hrun]
    exact getOrCreateStrategySleeve_mem hopened hs
  | ensureBaseSleeves tenant account fresh =>
    obtain ⟨⟨next, base⟩, hrun, rfl⟩ := map_eq_ok.mp h
    exact fun s hs _ => ensureBaseSleeves_mem hrun hs
  | openStrategySleeve tenant account execution fresh =>
    obtain ⟨⟨next, sleeve⟩, hrun, rfl⟩ := map_eq_ok.mp h
    exact fun s hs _ => getOrCreateStrategySleeve_mem hrun hs
  | closeSleeve tenant account id reason =>
    obtain ⟨⟨next, result⟩, hrun, rfl⟩ := map_eq_ok.mp h
    exact closeSleeve_closedKept hrun
  | ingest message =>
    obtain ⟨a, ha, hrun⟩ := bind_eq_ok.mp h
    exact persistAppend_closedKept (hopen a ha) hrun
  | driftAction tenant account drift reads onDate =>
    obtain ⟨⟨next, action⟩, hrun, rfl⟩ := map_eq_ok.mp h
    exact applyDriftAction_closedKept hopen hrun
  | freezeForCashDrift tenant account cashDrift onDate =>
    obtain ⟨⟨next, n⟩, hrun, rfl⟩ := map_eq_ok.mp h
    exact (freezeUnfrozen_sameClosed (fun s hs => List.mem_of_mem_filter hs) hopen
      (fun _ _ => Iff.rfl) hrun).kept
  | split tenant account symbol ratio externalId =>
    obtain ⟨⟨next, n⟩, hrun, rfl⟩ := map_eq_ok.mp h
    simp only [CorporateActionService.applySplit, bind_eq_ok] at hrun
    obtain ⟨holders, -, events, -, hrun⟩ := hrun
    exact closedKept_of_eq (applyCorporateEvents_sleeves hrun)
  | symbolChange tenant account oldSymbol newSymbol externalId =>
    obtain ⟨⟨next, n⟩, hrun, rfl⟩ := map_eq_ok.mp h
    simp only [CorporateActionService.applySymbolChange, bind_eq_ok] at hrun
    obtain ⟨holders, -, events, -, hrun⟩ := hrun
    exact closedKept_of_eq (applyCorporateEvents_sleeves hrun)
  | dividend tenant account symbol totalAmount payId =>
    obtain ⟨⟨next, n⟩, hrun, rfl⟩ := map_eq_ok.mp h
    simp only [CorporateActionService.applyDividend, bind_eq_ok] at hrun
    obtain ⟨holders, -, events, -, hrun⟩ := hrun
    exact closedKept_of_eq (applyCorporateEvents_sleeves hrun)

/-- CLOSED is terminal in every run whose freezes reach no closed sleeve: a sleeve that is
closed at some point of the run is closed from there on. -/
theorem closed_is_terminal {done rest : List Operation} {mid : Database} {s : Sleeve}
    (hopen : Transition.Meets (accountStep env) (FreezesNoClosed env) db (done ++ rest))
    (hdone : Transition.run (accountStep env) db done = some mid)
    (hrest : Transition.run (accountStep env) mid rest = some db') (hs : s ∈ mid.sleeves)
    (hclosed : s.status = .closed) : s ∈ db'.sleeves := by
  refine Transition.run_invariant (I := fun d => s ∈ d.sleeves) (fun d op d' hmem hok hstep => ?_)
    hs (Transition.meets_of_append hopen hdone) hrest
  cases hstep
  exact Operation.perform_induction hmem fun next hnext => commit_closedKept hok hnext s hmem hclosed

namespace Sample

/-- The digests of the close and of the freezes of the account's three sleeves. -/
def closingPlatform : Platform where
  digest key :=
    if key = strategy.text ++ ":close" then 0x743d0888906788e8f7abf2bb07279df9
    else if key = unallocated.text ++ ":cash_drift_freeze:2024-05-02" then
      0x4d1d2b7beb6ba0a54a2e374754c50489
    else if key = unmanaged.text ++ ":cash_drift_freeze:2024-05-02" then
      0xb4ed8516e37048f00300e22a146c0fdf
    else if key = strategy.text ++ ":cash_drift_freeze:2024-05-02" then
      0xcde59e1c9d4472e653405c5fbc5b2df1
    else 0
  storesTimestamp _ := true

def closeStrategy : Operation := .closeSleeve tenant account strategy none

def freezeAccount : Operation :=
  .freezeForCashDrift tenant account (.finite true 5 0) "2024-05-02"

def positionDrift : Operation :=
  .driftAction tenant account ⟨"SPY", .finite false 7 0, .finite false 5 0, .qtyMismatch⟩
    ⟨false, none⟩ "2024-05-02"

def strategyRow (status : SleeveStatus) : Sleeve :=
  ⟨strategy, tenant, account, .strategy, status, some 8⟩

def afterClose : Database := closeStrategy.perform closingPlatform funded

end Sample

theorem Sample.closed_evaluated : Sample.strategyRow .closed ∈ Sample.afterClose.sleeves ∧
    (∀ s ∈ Sample.afterClose.listSleeves Sample.tenant Sample.account, s.status = .closed →
      holdsNone (Sample.afterClose.projectAccount Sample.tenant Sample.account) s "SPY" =
        .ok true) ∧
    Sample.strategyRow .frozen ∈
      (Sample.freezeAccount.perform Sample.closingPlatform Sample.afterClose).sleeves := by
  decide +kernel

theorem closed_is_terminal_positionDrift :
    Sample.strategyRow .closed ∈ Sample.afterClose.sleeves ∧
      Sample.strategyRow .closed ∈
        (Sample.positionDrift.perform Sample.closingPlatform Sample.afterClose).sleeves := by
  obtain ⟨hclosed, hnone, -⟩ := Sample.closed_evaluated
  have hopen : Transition.Meets (accountStep Sample.closingPlatform)
      (FreezesNoClosed Sample.closingPlatform) Sample.funded
      ([Sample.closeStrategy] ++ [Sample.positionDrift]) := by
    have hstep : accountStep Sample.closingPlatform Sample.funded Sample.closeStrategy =
        some Sample.afterClose := rfl
    exact Transition.meets_cons hstep trivial ⟨fun _ => hnone, fun _ _ => trivial⟩
  exact ⟨hclosed, closed_is_terminal hopen rfl rfl hclosed rfl⟩

/-- Sustained cash drift freezes the closed sleeve with the others. -/
theorem cash_drift_freezes_closed :
    Sample.strategyRow .closed ∈ Sample.afterClose.sleeves ∧
      Sample.strategyRow .frozen ∈
        (Sample.freezeAccount.perform Sample.closingPlatform Sample.afterClose).sleeves := by
  exact ⟨Sample.closed_evaluated.1, Sample.closed_evaluated.2.2⟩

end LlamaTrade
