import LlamaTrade.AccountRuns
import LlamaTrade.RedeliveredMessages

/-!
# The log only grows

Every operation appends to the log: what a commit finds there stays in front of what it
adds, in every run.
-/

namespace LlamaTrade

variable {env : Platform} {db db' : Database} {tenant account : UUID}

theorem appendFundEvents_events {r : FundRequest} {op : String} {index : ℕ}
    {events : List PlannedFundEvent} (h : appendFundEvents env r op db index events = .ok db') :
    db.events <+: db'.events := by
  induction events generalizing db index with
  | nil =>
    cases h
    exact List.prefix_refl _
  | cons ev events ih =>
    rw [appendFundEvents, bind_eq_ok] at h
    obtain ⟨⟨next, inserted⟩, happend, hrest⟩ := h
    exact (append_events happend).trans (ih hrest)

theorem executeFundPlan_events {r : FundRequest} {plan : Except PyError FundPlan}
    {views : List SleeveView} (h : executeFundPlan env db r plan = .ok (db', views)) :
    db.events <+: db'.events := by
  simp only [executeFundPlan, bind_eq_ok] at h
  obtain ⟨plan, -, next, happend, -, -, h⟩ := h
  cases h
  exact appendFundEvents_events happend

theorem appendCorporateEvents_events {events : List PlannedCorporateEvent}
    (h : appendCorporateEvents env tenant account db events = .ok db') :
    db.events <+: db'.events := by
  induction events generalizing db with
  | nil =>
    cases h
    exact List.prefix_refl _
  | cons ev events ih =>
    rw [appendCorporateEvents, bind_eq_ok] at h
    obtain ⟨⟨next, inserted⟩, happend, hrest⟩ := h
    exact (append_events happend).trans (ih hrest)

theorem applyCorporateEvents_appends {events : List PlannedCorporateEvent} {n : ℕ}
    (h : applyCorporateEvents env db tenant account events = .ok (db', n)) :
    appendCorporateEvents env tenant account db events = .ok db' := by
  simp only [applyCorporateEvents, bind_eq_ok] at h
  obtain ⟨next, happend, h⟩ := h
  split_ifs at h
  · cases h
    exact happend
  · simp only [bind_eq_ok] at h
    obtain ⟨-, -, h⟩ := h
    cases h
    exact happend

theorem addSleeve_events {sleeve : Sleeve} (h : db.addSleeve sleeve = .ok db') :
    db'.events = db.events := by
  unfold Database.addSleeve at h
  split_ifs at h
  cases h
  rfl

theorem ensureBaseSleeve_events {fresh : UUID} {type : SleeveType} {sleeve : Sleeve}
    (h : ensureBaseSleeve db tenant account type fresh = .ok (db', sleeve)) :
    db'.events = db.events := by
  unfold ensureBaseSleeve at h
  split at h
  · cases h
    rfl
  · simp only [bind_eq_ok] at h
    obtain ⟨next, hadd, h⟩ := h
    cases h
    exact addSleeve_events hadd

theorem ensureBaseSleeves_events {fresh : ℕ → UUID} {base : List Sleeve}
    (h : ensureBaseSleeves db tenant account fresh = .ok (db', base)) : db'.events = db.events := by
  simp only [ensureBaseSleeves, bind_eq_ok] at h
  obtain ⟨⟨db₁, unallocated⟩, h₁, ⟨db₂, manual⟩, h₂, ⟨db₃, unmanaged⟩, h₃, h⟩ := h
  cases h
  rw [ensureBaseSleeve_events h₃, ensureBaseSleeve_events h₂, ensureBaseSleeve_events h₁]

theorem getOrCreateStrategySleeve_events {execution fresh : UUID} {sleeve : Sleeve}
    (h : getOrCreateStrategySleeve db tenant account execution fresh = .ok (db', sleeve)) :
    db'.events = db.events := by
  unfold getOrCreateStrategySleeve at h
  split at h
  · cases h
    rfl
  · simp only [bind_eq_ok] at h
    obtain ⟨next, hadd, h⟩ := h
    cases h
    exact addSleeve_events hadd

theorem closeSleeve_events {id : UUID} {reason : Option String} {result : CloseResult}
    (h : closeSleeve env db tenant account id reason = .ok (db', result)) :
    db.events <+: db'.events := by
  simp only [closeSleeve, bind_eq_ok] at h
  obtain ⟨sleeve, -, h⟩ := h
  split_ifs at h
  · cases h
    exact List.prefix_refl _
  · simp only [bind_eq_ok] at h
    obtain ⟨⟨plan, unmanaged, unallocated⟩, -, ⟨next, inserted⟩, happend, -, -, h⟩ := h
    cases h
    have hevents := append_events happend
    exact hevents

theorem freezeSleeve_events {eventId : UUID} {sleeve : Sleeve} {reason : String}
    (h : freezeSleeve env db tenant account sleeve reason eventId = .ok db') :
    db.events <+: db'.events := by
  simp only [freezeSleeve, bind_eq_ok] at h
  obtain ⟨⟨next, inserted⟩, happend, h⟩ := h
  cases h
  have hevents := append_events happend
  exact hevents

theorem freezeHolding_events {acc : AccountProjection Decimal} {drift : Drift} {onDate : String}
    {sleeves : List Sleeve} {n : ℕ}
    (h : freezeHolding env tenant account acc drift onDate db sleeves = .ok (db', n)) :
    db.events <+: db'.events := by
  induction sleeves generalizing db n with
  | nil =>
    cases h
    exact List.prefix_refl _
  | cons sleeve sleeves ih =>
    simp only [freezeHolding, bind_eq_ok] at h
    obtain ⟨none, -, h⟩ := h
    split_ifs at h
    · exact ih h
    · exact ih h
    · simp only [bind_eq_ok] at h
      obtain ⟨eventId, -, next, hnext, ⟨last, frozen⟩, hloop, h⟩ := h
      cases h
      exact (freezeSleeve_events hnext).trans (ih hloop)

theorem freezeUnfrozen_events {cashDrift : Decimal} {onDate : String} {sleeves : List Sleeve} {n : ℕ}
    (h : freezeUnfrozen env tenant account cashDrift onDate db sleeves = .ok (db', n)) :
    db.events <+: db'.events := by
  induction sleeves generalizing db n with
  | nil =>
    cases h
    exact List.prefix_refl _
  | cons sleeve sleeves ih =>
    simp only [freezeUnfrozen] at h
    split_ifs at h
    · exact ih h
    · simp only [bind_eq_ok] at h
      obtain ⟨next, hnext, ⟨last, frozen⟩, hloop, h⟩ := h
      cases h
      exact (freezeSleeve_events hnext).trans (ih hloop)

theorem adoptExternalTrade_events {drift : Drift} {reads : AdoptionReads} {onDate action : String}
    (h : adoptExternalTrade env db tenant account drift reads onDate = .ok (db', action)) :
    db.events <+: db'.events := by
  unfold adoptExternalTrade at h
  split_ifs at h
  · cases h
    exact List.prefix_refl _
  · split at h
    · simp only [bind_eq_ok] at h
      obtain ⟨delta, -, eventId, -, ⟨next, inserted⟩, happend, h⟩ := h
      cases h
      exact append_events happend
    · cases h
      exact List.prefix_refl _

theorem applyDriftAction_events {drift : Drift} {reads : AdoptionReads} {onDate action : String}
    (h : applyDriftAction env db tenant account drift reads onDate = .ok (db', action)) :
    db.events <+: db'.events := by
  unfold applyDriftAction at h
  split at h
  · exact adoptExternalTrade_events h
  · simp only [bind_eq_ok] at h
    obtain ⟨⟨next, n⟩, hn, h⟩ := h
    cases h
    exact freezeHolding_events hn
  · simp only [bind_eq_ok] at h
    obtain ⟨⟨next, n⟩, hn, h⟩ := h
    cases h
    exact freezeHolding_events hn
  · cases h
    exact List.prefix_refl _
  · cases h
    exact List.prefix_refl _

theorem persistAppend_events {a : LedgerAppend} (h : persistAppend env db a = .ok db') :
    db.events <+: db'.events := by
  simp only [persistAppend, bind_eq_ok] at h
  obtain ⟨e, -, ⟨next, inserted⟩, happend, h⟩ := h
  split_ifs at h
  · exact (append_events happend).trans (freeze_events h)
  · cases h
    exact append_events happend

theorem commit_events {op : Operation} (h : op.commit env db = .ok db') :
    db.events <+: db'.events := by
  have hsame : ∀ next : Database, next.events = db.events → db.events <+: next.events := by
    intro next heq
    rw [heq]
  cases op with
  | deposit r | withdraw r | allocate r dest | transfer r frm dest =>
    obtain ⟨⟨next, views⟩, hrun, rfl⟩ := map_eq_ok.mp h
    exact executeFundPlan_events hrun
  | allocateToStrategy r execution fresh =>
    obtain ⟨⟨next, views⟩, hrun, rfl⟩ := map_eq_ok.mp h
    simp only [allocateToStrategy, bind_eq_ok] at hrun
    obtain ⟨⟨opened, sleeve⟩, hopened, hrun⟩ := hrun
    exact (hsame opened (getOrCreateStrategySleeve_events hopened)).trans
      (executeFundPlan_events hrun)
  | ensureBaseSleeves tenant account fresh =>
    obtain ⟨⟨next, base⟩, hrun, rfl⟩ := map_eq_ok.mp h
    exact hsame next (ensureBaseSleeves_events hrun)
  | openStrategySleeve tenant account execution fresh =>
    obtain ⟨⟨next, sleeve⟩, hrun, rfl⟩ := map_eq_ok.mp h
    exact hsame next (getOrCreateStrategySleeve_events hrun)
  | closeSleeve tenant account id reason =>
    obtain ⟨⟨next, result⟩, hrun, rfl⟩ := map_eq_ok.mp h
    exact closeSleeve_events hrun
  | ingest message =>
    obtain ⟨a, -, hrun⟩ := bind_eq_ok.mp h
    exact persistAppend_events hrun
  | driftAction tenant account drift reads onDate =>
    obtain ⟨⟨next, action⟩, hrun, rfl⟩ := map_eq_ok.mp h
    exact applyDriftAction_events hrun
  | freezeForCashDrift tenant account cashDrift onDate =>
    obtain ⟨⟨next, n⟩, hrun, rfl⟩ := map_eq_ok.mp h
    exact freezeUnfrozen_events hrun
  | split tenant account symbol ratio externalId =>
    obtain ⟨⟨next, n⟩, hrun, rfl⟩ := map_eq_ok.mp h
    simp only [CorporateActionService.applySplit, bind_eq_ok] at hrun
    obtain ⟨holders, -, events, -, hrun⟩ := hrun
    exact appendCorporateEvents_events (applyCorporateEvents_appends hrun)
  | symbolChange tenant account oldSymbol newSymbol externalId =>
    obtain ⟨⟨next, n⟩, hrun, rfl⟩ := map_eq_ok.mp h
    simp only [CorporateActionService.applySymbolChange, bind_eq_ok] at hrun
    obtain ⟨holders, -, events, -, hrun⟩ := hrun
    exact appendCorporateEvents_events (applyCorporateEvents_appends hrun)
  | dividend tenant account symbol totalAmount payId =>
    obtain ⟨⟨next, n⟩, hrun, rfl⟩ := map_eq_ok.mp h
    simp only [CorporateActionService.applyDividend, bind_eq_ok] at hrun
    obtain ⟨holders, -, events, -, hrun⟩ := hrun
    exact appendCorporateEvents_events (applyCorporateEvents_appends hrun)

theorem perform_events (op : Operation) : db.events <+: (op.perform env db).events :=
  Operation.perform_induction (P := fun d => db.events <+: d.events) (List.prefix_refl _)
    fun _ h => commit_events h

/-- The log at the end of a run begins with the log at its start. -/
theorem run_events {ops : List Operation}
    (h : Transition.run (accountStep env) db ops = some db') : db.events <+: db'.events := by
  refine Transition.run_invariant (I := fun d => db.events <+: d.events)
    (fun d op d' hd _ hstep => ?_) (List.prefix_refl _)
    (Transition.meets_of_forall (fun _ _ _ => trivial) db) h
  cases hstep
  exact hd.trans (perform_events op)

end LlamaTrade
