import LlamaTrade.ClosedSleeves

/-!
# Sleeves keep their identity

Operations write the status of a sleeve and add sleeves behind the others. What a sleeve is
looked up by never changes, so a lookup that found a sleeve finds it again in every run.
-/

namespace LlamaTrade

variable {env : Platform} {db db' : Database}

/-- A sleeve without its status. -/
def Sleeve.identity (s : Sleeve) : Sleeve := { s with status := .active }

/-- The sleeves of the first database are the first ones of the second, up to their status. -/
def SleevesKept (db db' : Database) : Prop :=
  db.sleeves.map Sleeve.identity <+: db'.sleeves.map Sleeve.identity

theorem SleevesKept.refl (db : Database) : SleevesKept db db := List.prefix_refl _

theorem SleevesKept.trans {db₁ db₂ db₃ : Database} (h : SleevesKept db₁ db₂)
    (h' : SleevesKept db₂ db₃) : SleevesKept db₁ db₃ :=
  List.IsPrefix.trans h h'

theorem sleevesKept_of_eq (h : db'.sleeves = db.sleeves) : SleevesKept db db' := by
  unfold SleevesKept
  rw [h]

theorem sleevesKept_setSleeveStatus (id : UUID) (status : SleeveStatus) :
    SleevesKept db (db.setSleeveStatus id status) := by
  have hmap : (db.setSleeveStatus id status).sleeves.map Sleeve.identity =
      db.sleeves.map Sleeve.identity := by
    simp only [Database.setSleeveStatus, List.map_map]
    refine List.map_congr_left fun s _ => ?_
    by_cases hid : s.id = id <;> simp [Sleeve.identity, hid]
  unfold SleevesKept
  rw [hmap]

theorem sleevesKept_of_status {id : UUID} {status : SleeveStatus}
    (h : db'.sleeves = (db.setSleeveStatus id status).sleeves) : SleevesKept db db' :=
  (sleevesKept_setSleeveStatus id status).trans (sleevesKept_of_eq h)

theorem addSleeve_kept {sleeve : Sleeve} (h : db.addSleeve sleeve = .ok db') : SleevesKept db db' := by
  unfold Database.addSleeve at h
  split_ifs at h
  cases h
  rw [SleevesKept, List.map_append]
  exact List.prefix_append _ _

theorem ensureBaseSleeve_kept {tenant account fresh : UUID} {type : SleeveType} {sleeve : Sleeve}
    (h : ensureBaseSleeve db tenant account type fresh = .ok (db', sleeve)) : SleevesKept db db' := by
  unfold ensureBaseSleeve at h
  split at h
  · cases h
    exact SleevesKept.refl _
  · simp only [bind_eq_ok] at h
    obtain ⟨next, hadd, h⟩ := h
    cases h
    exact addSleeve_kept hadd

theorem getOrCreateStrategySleeve_kept {tenant account execution fresh : UUID} {sleeve : Sleeve}
    (h : getOrCreateStrategySleeve db tenant account execution fresh = .ok (db', sleeve)) :
    SleevesKept db db' := by
  unfold getOrCreateStrategySleeve at h
  split at h
  · cases h
    exact SleevesKept.refl _
  · simp only [bind_eq_ok] at h
    obtain ⟨next, hadd, h⟩ := h
    cases h
    exact addSleeve_kept hadd

theorem closeSleeve_kept {tenant account id : UUID} {reason : Option String} {result : CloseResult}
    (h : closeSleeve env db tenant account id reason = .ok (db', result)) : SleevesKept db db' := by
  simp only [closeSleeve, bind_eq_ok] at h
  obtain ⟨sleeve, -, h⟩ := h
  split_ifs at h
  · cases h
    exact SleevesKept.refl _
  · simp only [bind_eq_ok] at h
    obtain ⟨⟨plan, unmanaged, unallocated⟩, -, ⟨next, inserted⟩, happend, -, -, h⟩ := h
    cases h
    exact (sleevesKept_of_eq (append_sleeves happend)).trans (sleevesKept_setSleeveStatus _ _)

theorem freezeHolding_kept {tenant account : UUID} {acc : AccountProjection Decimal} {drift : Drift}
    {onDate : String} {sleeves : List Sleeve} {n : ℕ}
    (h : freezeHolding env tenant account acc drift onDate db sleeves = .ok (db', n)) :
    SleevesKept db db' := by
  induction sleeves generalizing db n with
  | nil =>
    cases h
    exact SleevesKept.refl _
  | cons sleeve sleeves ih =>
    simp only [freezeHolding, bind_eq_ok] at h
    obtain ⟨none, -, h⟩ := h
    split_ifs at h
    · exact ih h
    · exact ih h
    · simp only [bind_eq_ok] at h
      obtain ⟨eventId, -, next, hnext, ⟨last, frozen⟩, hloop, h⟩ := h
      cases h
      exact (sleevesKept_of_status (freezeSleeve_sleeves hnext)).trans (ih hloop)

theorem freezeUnfrozen_kept {tenant account : UUID} {cashDrift : Decimal} {onDate : String}
    {sleeves : List Sleeve} {n : ℕ}
    (h : freezeUnfrozen env tenant account cashDrift onDate db sleeves = .ok (db', n)) :
    SleevesKept db db' := by
  induction sleeves generalizing db n with
  | nil =>
    cases h
    exact SleevesKept.refl _
  | cons sleeve sleeves ih =>
    simp only [freezeUnfrozen] at h
    split_ifs at h
    · exact ih h
    · simp only [bind_eq_ok] at h
      obtain ⟨next, hnext, ⟨last, frozen⟩, hloop, h⟩ := h
      cases h
      exact (sleevesKept_of_status (freezeSleeve_sleeves hnext)).trans (ih hloop)

theorem applyDriftAction_kept {tenant account : UUID} {drift : Drift} {reads : AdoptionReads}
    {onDate action : String}
    (h : applyDriftAction env db tenant account drift reads onDate = .ok (db', action)) :
    SleevesKept db db' := by
  unfold applyDriftAction at h
  split at h
  · exact sleevesKept_of_eq (adoptExternalTrade_sleeves h)
  · simp only [bind_eq_ok] at h
    obtain ⟨⟨next, n⟩, hn, h⟩ := h
    cases h
    exact freezeHolding_kept hn
  · simp only [bind_eq_ok] at h
    obtain ⟨⟨next, n⟩, hn, h⟩ := h
    cases h
    exact freezeHolding_kept hn
  · cases h
    exact SleevesKept.refl _
  · cases h
    exact SleevesKept.refl _

theorem freeze_kept {a : LedgerAppend} (h : freezeIfInvariantViolated env db a = .ok db') :
    SleevesKept db db' := by
  simp only [freezeIfInvariantViolated, bind_eq_ok] at h
  obtain ⟨violations, -, h⟩ := h
  split_ifs at h
  · cases h
    exact SleevesKept.refl _
  · split at h
    · cases h
      exact SleevesKept.refl _
    · split_ifs at h
      · cases h
        exact SleevesKept.refl _
      · obtain ⟨⟨next, inserted⟩, happend, h⟩ := bind_eq_ok.mp h
        cases h
        exact sleevesKept_of_status (append_sleeves happend)

theorem persistAppend_kept {a : LedgerAppend} (h : persistAppend env db a = .ok db') :
    SleevesKept db db' := by
  simp only [persistAppend, bind_eq_ok] at h
  obtain ⟨e, -, ⟨next, inserted⟩, happend, h⟩ := h
  have hnext := sleevesKept_of_eq (append_sleeves happend)
  split_ifs at h
  · exact hnext.trans (freeze_kept h)
  · cases h
    exact hnext

theorem commit_sleevesKept {op : Operation} (h : op.commit env db = .ok db') : SleevesKept db db' := by
  cases op with
  | deposit r | withdraw r | allocate r dest | transfer r frm dest =>
    obtain ⟨⟨next, views⟩, hrun, rfl⟩ := map_eq_ok.mp h
    exact sleevesKept_of_eq (executeFundPlan_sleeves hrun)
  | allocateToStrategy r execution fresh =>
    obtain ⟨⟨next, views⟩, hrun, rfl⟩ := map_eq_ok.mp h
    simp only [allocateToStrategy, bind_eq_ok] at hrun
    obtain ⟨⟨opened, sleeve⟩, hopened, hrun⟩ := hrun
    exact (getOrCreateStrategySleeve_kept hopened).trans
      (sleevesKept_of_eq (executeFundPlan_sleeves hrun))
  | ensureBaseSleeves tenant account fresh =>
    obtain ⟨⟨next, base⟩, hrun, rfl⟩ := map_eq_ok.mp h
    simp only [ensureBaseSleeves, bind_eq_ok] at hrun
    obtain ⟨⟨db₁, unallocated⟩, h₁, ⟨db₂, manual⟩, h₂, ⟨db₃, unmanaged⟩, h₃, hrun⟩ := hrun
    cases hrun
    exact ((ensureBaseSleeve_kept h₁).trans (ensureBaseSleeve_kept h₂)).trans
      (ensureBaseSleeve_kept h₃)
  | openStrategySleeve tenant account execution fresh =>
    obtain ⟨⟨next, sleeve⟩, hrun, rfl⟩ := map_eq_ok.mp h
    exact getOrCreateStrategySleeve_kept hrun
  | closeSleeve tenant account id reason =>
    obtain ⟨⟨next, result⟩, hrun, rfl⟩ := map_eq_ok.mp h
    exact closeSleeve_kept hrun
  | ingest message =>
    obtain ⟨a, -, hrun⟩ := bind_eq_ok.mp h
    exact persistAppend_kept hrun
  | driftAction tenant account drift reads onDate =>
    obtain ⟨⟨next, action⟩, hrun, rfl⟩ := map_eq_ok.mp h
    exact applyDriftAction_kept hrun
  | freezeForCashDrift tenant account cashDrift onDate =>
    obtain ⟨⟨next, n⟩, hrun, rfl⟩ := map_eq_ok.mp h
    exact freezeUnfrozen_kept hrun
  | split tenant account symbol ratio externalId =>
    obtain ⟨⟨next, n⟩, hrun, rfl⟩ := map_eq_ok.mp h
    simp only [CorporateActionService.applySplit, bind_eq_ok] at hrun
    obtain ⟨holders, -, events, -, hrun⟩ := hrun
    exact sleevesKept_of_eq (applyCorporateEvents_sleeves hrun)
  | symbolChange tenant account oldSymbol newSymbol externalId =>
    obtain ⟨⟨next, n⟩, hrun, rfl⟩ := map_eq_ok.mp h
    simp only [CorporateActionService.applySymbolChange, bind_eq_ok] at hrun
    obtain ⟨holders, -, events, -, hrun⟩ := hrun
    exact sleevesKept_of_eq (applyCorporateEvents_sleeves hrun)
  | dividend tenant account symbol totalAmount payId =>
    obtain ⟨⟨next, n⟩, hrun, rfl⟩ := map_eq_ok.mp h
    simp only [CorporateActionService.applyDividend, bind_eq_ok] at hrun
    obtain ⟨holders, -, events, -, hrun⟩ := hrun
    exact sleevesKept_of_eq (applyCorporateEvents_sleeves hrun)

theorem run_sleevesKept {ops : List Operation}
    (h : Transition.run (accountStep env) db ops = some db') : SleevesKept db db' := by
  refine Transition.run_invariant (I := fun d => SleevesKept db d) (fun d op d' hd _ hstep => ?_)
    (SleevesKept.refl db) (Transition.meets_of_forall (fun _ _ _ => trivial) db) h
  cases hstep
  exact hd.trans (Operation.perform_induction (SleevesKept.refl d) fun _ hc => commit_sleevesKept hc)

/-! ## Lookups -/

theorem find_kept {l l' : List Sleeve} {p : Sleeve → Bool}
    (hp : ∀ s : Sleeve, p s.identity = p s)
    (h : l.map Sleeve.identity <+: l'.map Sleeve.identity) {s : Sleeve} (hs : l.find? p = some s) :
    ∃ s', l'.find? p = some s' ∧ s'.identity = s.identity := by
  have hcomp : p ∘ Sleeve.identity = p := funext hp
  have hfound : (l.map Sleeve.identity).find? p = some s.identity := by
    rw [List.find?_map, hcomp, hs, Option.map_some]
  obtain ⟨rest, hrest⟩ := h
  have hlater : (l'.map Sleeve.identity).find? p = some s.identity := by
    rw [← hrest, List.find?_append, hfound, Option.some_or]
  rw [List.find?_map, hcomp] at hlater
  exact Option.map_eq_some_iff.mp hlater

theorem getSleeveByType_kept (h : SleevesKept db db') {tenant account : UUID} {type : SleeveType}
    {s : Sleeve} (hs : db.getSleeveByType tenant account type = some s) :
    ∃ s', db'.getSleeveByType tenant account type = some s' ∧ s'.identity = s.identity :=
  find_kept (fun _ => rfl) h hs

theorem getSleeve_kept (h : SleevesKept db db') {tenant id : UUID} {s : Sleeve}
    (hs : db.getSleeve tenant id = some s) :
    ∃ s', db'.getSleeve tenant id = some s' ∧ s'.identity = s.identity :=
  find_kept (fun _ => rfl) h hs

end LlamaTrade
