import LlamaTrade.ClosedEmptiness
import LlamaTrade.CorporateHolders

/-!
# Whether closed sleeves stay empty

A close moves everything out of a sleeve, and late fills are rerouted. But an allocation, a
transfer or the strategy that is provisioned again may name the closed sleeve as their
target, and none of them looks at its status. Closed sleeves are empty in every run whose
steps reach no closed sleeve.
-/

namespace LlamaTrade

open Arithmetic

variable {env : Platform} {db db' : Database}

/-! ## Ingestion -/

section Ingest

variable {a e : LedgerAppend} {text : String} {sleeve : UUID} {tail : Payload}

/-- A terminal message releases no amount that a closed sleeve has reserved. -/
def ReleasesNoClosed (db : Database) (a : LedgerAppend) : Prop :=
  releasesReservation a.eventType → ∀ coid, present a.data "client_order_id" = some coid →
    ∀ s ∈ db.sleeves, s.status = .closed → ∀ amount,
      (pendingReservations db a.tenantId a.accountId)[coid.pyStr]? = some (s.id.text, amount) →
        amount.IsZero

/-- The sleeve text of the rerouted append reads as the sleeve of the append. -/
theorem Translated.routed (h : Translated a text sleeve tail) (db : Database) :
    ∃ text' id, (rerouteIfSleeveClosed db a).data.lookup "sleeve_id" = some (.str text') ∧
      UUID.parse text' = .ok id ∧ (rerouteIfSleeveClosed db a).sleeveId = some id := by
  have hkeep : ∃ text' id, a.data.lookup "sleeve_id" = some (.str text') ∧
      UUID.parse text' = .ok id ∧ a.sleeveId = some id :=
    ⟨text, sleeve, by simp [h.data], h.parsed, h.sleeveId⟩
  unfold rerouteIfSleeveClosed
  split
  · exact hkeep
  · split_ifs
    · split
      · exact hkeep
      · rename_i unmanaged _
        exact ⟨unmanaged.id.text, unmanaged.id, by rw [Payload.lookup_set, if_pos rfl],
          unmanaged.id.parse_text, rfl⟩
    · exact hkeep

theorem ClosedEmpty.persistAppend (h : ClosedEmpty db) (htranslated : Translated a text sleeve tail)
    (htype : a.eventType = .orderFilled ∨ sleeveKeys a.eventType = [])
    (hopen : a.eventType = .orderFilled ∨ a.eventType = .orderSubmitted → RoutedOpen db a)
    (hreleases : ReleasesNoClosed db a) (hrun : persistAppend env db a = .ok db') :
    ClosedEmpty db' := by
  simp only [LlamaTrade.persistAppend, bind_eq_ok] at hrun
  obtain ⟨e, hprepared, ⟨next, inserted⟩, happend, hrun⟩ := hrun
  obtain ⟨hheader, hsleeve⟩ := prepared_header hprepared
  obtain ⟨text', routed, hlookup, hparsed, hrouted⟩ := htranslated.routed db
  have hdata : e.data.lookup "sleeve_id" = some (.str text') :=
    (prepared_lookup hprepared (by decide) (by decide)).trans hlookup
  have hcoid : present e.data "client_order_id" = present a.data "client_order_id" := by
    unfold present Payload.get
    rw [prepared_lookup hprepared (by decide) (by decide), reroute_lookup db a (by decide)]
  have hne : a.eventType = .orderFilled ∨ a.eventType = .orderSubmitted → ∀ s ∈ db.sleeves,
      s.status = .closed → e.tenantId = s.tenantId → text' ≠ s.id.text := by
    intro hkind s hs hclosed htenant heq
    rw [heq, s.id.parse_text] at hparsed
    cases hparsed
    refine hopen hkind s ?_ hclosed
    unfold sleeveRow
    rw [hrouted, (reroute_header db a).tenantId, ← hheader.tenantId, htenant, Option.bind_some,
      getSleeve_of_mem hs]
  have hnext : ClosedEmpty next := by
    refine h.append happend fun s hs hclosed htenant haccount => ⟨?_, ?_⟩
    · intro key hkey hnamed
      rw [hheader.eventType] at hkey
      rcases htype with hfill | hnone
      · rw [hfill] at hkey
        have hkeys : key = "sleeve_id" := by simpa [sleeveKeys] using hkey
        simp only [hkeys, Payload.text, Payload.item, hdata] at hnamed
        exact hne (.inl hfill) s hs hclosed htenant (Except.ok.inj hnamed)
      · rw [hnone] at hkey
        cases hkey
    · intro coid hpresent
      rw [hcoid] at hpresent
      rw [hheader.eventType, hheader.tenantId, hheader.accountId]
      refine ⟨fun hsubmitted x hx => ?_, fun hterminal amount hpending =>
        hreleases hterminal coid hpresent s hs hclosed amount hpending⟩
      have hx' : x = .str text' := by
        simp only [present, Payload.get, hdata, Option.getD_some] at hx
        exact (Option.some.inj hx).symm
      rw [hx']
      exact hne (.inr hsubmitted) s hs hclosed htenant
  split_ifs at hrun
  · simp only [freezeIfInvariantViolated, bind_eq_ok] at hrun
    obtain ⟨violations, -, hrun⟩ := hrun
    split_ifs at hrun
    · cases hrun
      exact hnext
    · split at hrun
      · cases hrun
        exact hnext
      · split_ifs at hrun
        · cases hrun
          exact hnext
        · simp only [bind_eq_ok] at hrun
          obtain ⟨⟨last, inserted'⟩, hfreeze, hrun⟩ := hrun
          cases hrun
          exact hnext.freeze hfreeze rfl rfl
  · cases hrun
    exact hnext

end Ingest

/-! ## Corporate actions -/

section Corporate

variable {tenant account : UUID} {α : Type}

/-- A sleeve of the projection that reads as the id of a closed sleeve is named by its
canonical text. -/
def ClosedSpelled (db : Database) (tenant account : UUID) : Prop :=
  ∀ (key : String) (p : SleeveProjection Decimal),
    (db.projectAccount tenant account).sleeves[key]? = some p →
      ∀ s ∈ db.sleeves, s.status = .closed → UUID.parse key = .ok s.id → key = s.id.text

/-- A holder is no closed sleeve, if an empty sleeve holds nothing. -/
theorem ClosedEmpty.holder_ne {held : SleeveProjection Decimal → Except PyError (Option α)}
    {holders : List (UUID × α)} (h : ClosedEmpty db) (hspelled : ClosedSpelled db tenant account)
    (hnone : ∀ p : SleeveProjection Decimal, p.IsEmpty → held p = .ok none)
    (hrun : holdersOf db tenant account held = .ok holders) {x : UUID × α} (hx : x ∈ holders)
    {s : Sleeve} (hs : s ∈ db.sleeves) (hclosed : s.status = .closed) (htenant : s.tenantId = tenant)
    (haccount : s.accountId = account) : s.id ≠ x.1 := by
  intro hid
  rcases mem_collectHolders hrun hx with hnil | ⟨key, p, hmem, hparse, hheld⟩
  · cases hnil
  · have hget := Std.ExtTreeMap.mem_toList_iff_getElem?_eq_some.mp hmem
    have hkey := hspelled key p hget s hs hclosed (hid ▸ hparse)
    obtain ⟨-, -, hempty⟩ := h s hs hclosed
    rw [htenant, haccount, ← hkey, AccountProjection.sleeve,
      Std.ExtTreeMap.getD_eq_getD_getElem?, hget, Option.getD_some] at hempty
    rw [hnone p hempty] at hheld
    cases hheld

theorem heldPosition_isEmpty (symbol : String) {p : SleeveProjection Decimal} (h : p.IsEmpty) :
    heldPosition symbol p = .ok none := by
  unfold heldPosition
  split
  · rfl
  · rename_i pos hpos
    obtain ⟨hfin, hval⟩ := h.positions symbol pos hpos
    have heq : eq pos.qty zero = .ok true := by
      refine (Decimal.eq_finite hfin Decimal.isZero_zero.1).trans ?_
      rw [hval, Decimal.isZero_zero.2, decide_eq_true rfl]
    rw [heq]
    rfl

theorem heldQty_isEmpty (symbol : String) {p : SleeveProjection Decimal} (h : p.IsEmpty) :
    heldQty symbol p = .ok none := by
  rw [heldQty, heldPosition_isEmpty symbol h]
  rfl

theorem positiveQty_isEmpty (symbol : String) {p : SleeveProjection Decimal} (h : p.IsEmpty) :
    positiveQty symbol p = .ok none := by
  unfold positiveQty
  split
  · rfl
  · rename_i pos hpos
    obtain ⟨hfin, hval⟩ := h.positions symbol pos hpos
    have hlt : lt zero pos.qty = .ok false := by
      refine (Decimal.lt_finite Decimal.isZero_zero.1 hfin).trans ?_
      rw [hval, Decimal.isZero_zero.2, decide_eq_false (lt_irrefl _)]
    rw [hlt]
    rfl

theorem ClosedEmpty.appendCorporateEvents {events : List PlannedCorporateEvent} (h : ClosedEmpty db)
    (hrun : appendCorporateEvents env tenant account db events = .ok db')
    (helsewhere : ∀ s ∈ db.sleeves, s.status = .closed → s.tenantId = tenant →
      s.accountId = account → ∀ ev ∈ events, Elsewhere ev.eventType ev.data s.id.text) :
    ClosedEmpty db' := by
  induction events generalizing db with
  | nil =>
    cases hrun
    exact h
  | cons ev events ih =>
    rw [LlamaTrade.appendCorporateEvents, bind_eq_ok] at hrun
    obtain ⟨⟨next, inserted⟩, happend, hrest⟩ := hrun
    have hnext : ClosedEmpty next := h.append happend fun s hs hclosed htenant haccount =>
      Elsewhere.spares (helsewhere s hs hclosed htenant.symm haccount.symm ev List.mem_cons_self) db
    refine ih hnext hrest fun s hs hclosed htenant haccount ev' hev' => ?_
    rw [append_sleeves happend] at hs
    exact helsewhere s hs hclosed htenant haccount ev' (List.mem_cons_of_mem _ hev')

/-- Corporate events of holders leave the closed sleeves empty. -/
theorem ClosedEmpty.applyCorporateEvents {held : SleeveProjection Decimal → Except PyError (Option α)}
    {holders : List (UUID × α)} {events : List PlannedCorporateEvent} {n : ℕ} (h : ClosedEmpty db)
    (hspelled : ClosedSpelled db tenant account)
    (hnone : ∀ p : SleeveProjection Decimal, p.IsEmpty → held p = .ok none)
    (hholders : holdersOf db tenant account held = .ok holders)
    (hevents : ∀ ev ∈ events, OfHolder (holders.map (·.1)) ev)
    (hrun : applyCorporateEvents env db tenant account events = .ok (db', n)) : ClosedEmpty db' := by
  have hrun' : LlamaTrade.appendCorporateEvents env tenant account db events = .ok db' := by
    simp only [LlamaTrade.applyCorporateEvents, bind_eq_ok] at hrun
    obtain ⟨next, hnext, hrun⟩ := hrun
    split_ifs at hrun
    · cases hrun
      exact hnext
    · simp only [bind_eq_ok] at hrun
      obtain ⟨-, -, hrun⟩ := hrun
      cases hrun
      exact hnext
  refine h.appendCorporateEvents hrun' fun s hs hclosed htenant haccount ev hev => ?_
  obtain ⟨hholder, hkeys, hsleeve, horder⟩ := hevents ev hev
  obtain ⟨x, hx, hid⟩ := List.mem_map.mp hholder
  refine ⟨fun key hkey hnamed => ?_, horder⟩
  rw [hkeys key hkey, hsleeve] at hnamed
  exact h.holder_ne hspelled hnone hholders hx hs hclosed htenant haccount
    (UUID.text_injective ((Except.ok.inj hnamed).symm.trans (congrArg UUID.text hid.symm)))

end Corporate

/-! ## Runs -/

/-- The operation reaches no closed sleeve: capital goes to sleeves that are open, a close
goes through, a message is booked on an open sleeve and releases nothing of a closed one,
and no holder of a corporate action is a closed sleeve under another spelling. -/
def ReachesNoClosed (env : Platform) (db : Database) : Operation → Prop
  | .allocate _ dest => NotClosed db dest
  | .transfer _ _ dest => NotClosed db dest
  | .allocateToStrategy r execution _ =>
    ∀ s, db.getStrategySleeve r.tenantId r.accountId execution = some s → s.status ≠ .closed
  | .closeSleeve tenant account id _ =>
    ∀ s, closeableSleeve db tenant account id = .ok s → s.status ≠ .closed →
      CloseGoesThrough env db tenant account id
  | .ingest message => ∀ a, appendFromMessage env message = .ok a →
      (a.eventType = .orderFilled ∨ a.eventType = .orderSubmitted → RoutedOpen db a) ∧
        ReleasesNoClosed db a
  | .split tenant account _ _ _ => ClosedSpelled db tenant account
  | .symbolChange tenant account _ _ _ => ClosedSpelled db tenant account
  | .dividend tenant account _ _ _ => ClosedSpelled db tenant account
  | _ => True

/-- The legs of a message are those of a fill. -/
theorem appendFromMessage_keys {message : FillMessage} {a : LedgerAppend}
    (h : appendFromMessage env message = .ok a) :
    a.eventType = .orderFilled ∨ sleeveKeys a.eventType = [] := by
  cases message with
  | fill fill =>
    simp only [appendFromMessage, fillToAppend, bind_eq_ok] at h
    obtain ⟨coid, -, text, -, symbol, -, side, -, qty, -, price, -, _, -, tenant, -, _, -, account, -,
      sleeve, -, ha⟩ := h
    cases ha
    exact .inl rfl
  | reservation reservation =>
    simp only [appendFromMessage, reservationToAppend, bind_eq_ok] at h
    obtain ⟨kind, -, t, ht, coid, -, text, -, _, -, tenant, -, _, -, account, -, sleeve, -, ha⟩ := h
    cases ha
    right
    unfold lifecycleEventType at ht
    split_ifs at ht <;> (cases ht; rfl)

/-- An operation that reaches no closed sleeve keeps them empty. -/
theorem commit_closedEmpty {op : Operation} (hreaches : ReachesNoClosed env db op)
    (hempty : ClosedEmpty db) (h : op.commit env db = .ok db') : ClosedEmpty db' := by
  cases op with
  | deposit r =>
    obtain ⟨⟨next, views⟩, hrun, rfl⟩ := map_eq_ok.mp h
    exact hempty.deposit hrun
  | withdraw r =>
    obtain ⟨⟨next, views⟩, hrun, rfl⟩ := map_eq_ok.mp h
    exact hempty.withdraw hrun
  | allocate r dest =>
    obtain ⟨⟨next, views⟩, hrun, rfl⟩ := map_eq_ok.mp h
    exact hempty.allocate hreaches hrun
  | transfer r frm dest =>
    obtain ⟨⟨next, views⟩, hrun, rfl⟩ := map_eq_ok.mp h
    exact hempty.transfer hreaches hrun
  | allocateToStrategy r execution fresh =>
    obtain ⟨⟨next, views⟩, hrun, rfl⟩ := map_eq_ok.mp h
    exact hempty.allocateToStrategy hreaches hrun
  | ensureBaseSleeves tenant account fresh =>
    obtain ⟨⟨next, base⟩, hrun, rfl⟩ := map_eq_ok.mp h
    exact hempty.ensureBaseSleeves hrun
  | openStrategySleeve tenant account execution fresh =>
    obtain ⟨⟨next, sleeve⟩, hrun, rfl⟩ := map_eq_ok.mp h
    exact hempty.getOrCreateStrategySleeve hrun
  | closeSleeve tenant account id reason =>
    obtain ⟨⟨next, result⟩, hrun, rfl⟩ := map_eq_ok.mp h
    exact hempty.closeSleeve hreaches hrun
  | ingest message =>
    obtain ⟨a, ha, hrun⟩ := bind_eq_ok.mp h
    obtain ⟨text, sleeve, tail, htranslated⟩ := appendFromMessage_translated ha
    obtain ⟨hopen, hreleases⟩ := hreaches a ha
    exact hempty.persistAppend htranslated (appendFromMessage_keys ha) hopen hreleases hrun
  | driftAction tenant account drift reads onDate =>
    obtain ⟨⟨next, action⟩, hrun, rfl⟩ := map_eq_ok.mp h
    exact hempty.applyDriftAction hrun
  | freezeForCashDrift tenant account cashDrift onDate =>
    obtain ⟨⟨next, n⟩, hrun, rfl⟩ := map_eq_ok.mp h
    exact hempty.freezeUnfrozen hrun
  | split tenant account symbol ratio externalId =>
    obtain ⟨⟨next, n⟩, hrun, rfl⟩ := map_eq_ok.mp h
    simp only [CorporateActionService.applySplit, planSplit, bind_eq_ok] at hrun
    obtain ⟨holders, hholders, events, ⟨_, -, hevents⟩, hrun⟩ := hrun
    split_ifs at hevents
    exact hempty.applyCorporateEvents hreaches (fun p hp => heldQty_isEmpty symbol hp) hholders
      (splitEvents_ofHolder hevents) hrun
  | symbolChange tenant account oldSymbol newSymbol externalId =>
    obtain ⟨⟨next, n⟩, hrun, rfl⟩ := map_eq_ok.mp h
    simp only [CorporateActionService.applySymbolChange, planSymbolChange, bind_eq_ok] at hrun
    obtain ⟨holders, hholders, events, hevents, hrun⟩ := hrun
    split_ifs at hevents
    exact hempty.applyCorporateEvents hreaches (fun p hp => heldPosition_isEmpty oldSymbol hp)
      hholders (renameEvents_ofHolder hevents) hrun
  | dividend tenant account symbol totalAmount payId =>
    obtain ⟨⟨next, n⟩, hrun, rfl⟩ := map_eq_ok.mp h
    simp only [CorporateActionService.applyDividend, bind_eq_ok] at hrun
    obtain ⟨holders, hholders, events, hevents, hrun⟩ := hrun
    exact hempty.applyCorporateEvents hreaches (fun p hp => positiveQty_isEmpty symbol hp) hholders
      (splitDividend_ofHolder hevents) hrun

/-- In every run whose operations reach no closed sleeve, the closed sleeves are empty at
every point. -/
theorem closed_sleeves_stay_empty {ops rest : List Operation} (hempty : ClosedEmpty db)
    (hreaches : Transition.Meets (accountStep env) (ReachesNoClosed env) db (ops ++ rest))
    (hrun : Transition.run (accountStep env) db ops = some db') : ClosedEmpty db' := by
  refine Transition.run_invariant (fun d op d' hd hok hstep => ?_) hempty
    (Transition.meets_left hreaches) hrun
  cases hstep
  exact Operation.perform_induction hd fun next hnext => commit_closedEmpty hok hd hnext

namespace Sample

/-- The digests of the close, of a late buy and of the freeze that the buy causes. -/
def latePlatform : Platform where
  digest key :=
    if key = strategy.text ++ ":close" then 0x743d0888906788e8f7abf2bb07279df9
    else if key = "b1" then 0x7dc96f776c8423e57a2785489a3f9c43
    else if key = "7dc96f77-6c84-23e5-7a27-85489a3f9c43:invariant_freeze" then
      0xf4390f75bb50bcda4a7f6eb9e7d6d1da
    else 0
  storesTimestamp _ := true

def lateBuy : Operation := .ingest buy

/-- An allocation of 100 to the strategy sleeve. -/
def reallocate : Operation :=
  .allocate ⟨tenant, account, .finite false 100 0, "", fun _ => 9⟩ strategy

theorem late_evaluated :
    (funded.findEvent (closeEventId latePlatform strategy) = none ∧
      ((funded.projectAccount tenant account).sleeve strategy.text).positions.isEmpty = true ∧
      (appendFromMessage latePlatform buy).map (fun a =>
        (sleeveRow (closeStrategy.perform latePlatform funded)
          (rerouteIfSleeveClosed (closeStrategy.perform latePlatform funded) a)).map (·.status)) =
            .ok (some .active) ∧
      (appendFromMessage latePlatform buy).map (fun a =>
        (present a.data "client_order_id").bind fun coid => (pendingReservations
          (closeStrategy.perform latePlatform funded) a.tenantId a.accountId)[coid.pyStr]?) =
            .ok none) ∧
    strategyRow .closed ∈ (reallocate.perform closingPlatform
      (closeStrategy.perform closingPlatform funded)).sleeves ∧
    (((reallocate.perform closingPlatform (closeStrategy.perform closingPlatform
      funded)).projectAccount tenant account).sleeve strategy.text).cash.toRat = 100 := by
  decide +kernel

theorem funded_closedEmpty : ClosedEmpty funded := by
  intro s hs hclosed
  have hopen : ∀ s ∈ funded.sleeves, s.status ≠ .closed := by decide
  exact absurd hclosed (hopen s hs)

end Sample

/-- The strategy sleeve is closed, and a fill that comes late goes to the Unmanaged sleeve. -/
theorem closed_sleeves_stay_empty_lateBuy :
    ClosedEmpty (Sample.lateBuy.perform Sample.latePlatform
      (Sample.closeStrategy.perform Sample.latePlatform Sample.funded)) := by
  obtain ⟨hfresh, hpositions, hrouted, hpending⟩ := Sample.late_evaluated.1
  have hcloses : ReachesNoClosed Sample.latePlatform Sample.funded Sample.closeStrategy := by
    intro s _ _
    refine ⟨hfresh, fun unmanaged _ symbol pos hpos => ?_⟩
    rw [Std.ExtTreeMap.isEmpty_iff.mp hpositions] at hpos
    simp at hpos
  have hlate : ReachesNoClosed Sample.latePlatform
      (Sample.closeStrategy.perform Sample.latePlatform Sample.funded) Sample.lateBuy := by
    intro a ha
    rw [ha] at hrouted hpending
    refine ⟨fun _ s hs => ?_, fun _ coid hcoid s _ _ amount hentry => ?_⟩
    · have hstatus := Except.ok.inj hrouted
      simp only [hs, Option.map_some, Option.some.injEq] at hstatus
      rw [hstatus]
      decide
    · have hnone := Except.ok.inj hpending
      simp only [hcoid, Option.bind_some, hentry] at hnone
      cases hnone
  have hmeets : Transition.Meets (accountStep Sample.latePlatform)
      (ReachesNoClosed Sample.latePlatform) Sample.funded
      ([Sample.closeStrategy, Sample.lateBuy] ++ []) := by
    have hstep : accountStep Sample.latePlatform Sample.funded Sample.closeStrategy =
        some (Sample.closeStrategy.perform Sample.latePlatform Sample.funded) := rfl
    exact Transition.meets_cons hstep hcloses ⟨hlate, fun _ _ => trivial⟩
  exact closed_sleeves_stay_empty Sample.funded_closedEmpty hmeets rfl

/-- An allocation to the closed sleeve goes through and strands 100 in it. -/
theorem allocation_funds_closed :
    ClosedEmpty Sample.funded ∧ ¬ ClosedEmpty (Sample.reallocate.perform Sample.closingPlatform
      (Sample.closeStrategy.perform Sample.closingPlatform Sample.funded)) := by
  refine ⟨Sample.funded_closedEmpty, fun hempty => ?_⟩
  obtain ⟨hclosed, hcash⟩ := Sample.late_evaluated.2
  obtain ⟨-, -, hsleeve⟩ := hempty _ hclosed rfl
  have hzero := hsleeve.cash.2
  rw [show (Sample.strategyRow .closed).tenantId = Sample.tenant from rfl,
    show (Sample.strategyRow .closed).accountId = Sample.account from rfl,
    show (Sample.strategyRow .closed).id = Sample.strategy from rfl, hcash] at hzero
  norm_num at hzero

end LlamaTrade
