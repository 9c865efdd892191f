import LlamaTrade.ClosedSleeves
import LlamaTrade.EmptiedSleeves

/-!
# Operations that keep closed sleeves empty

An append that names other sleeves keeps a closed sleeve empty. The capital operations name
the Unallocated sleeve and their targets, provisioning opens sleeves that are active, a close
empties the sleeve it closes, and freezes and adoptions book nothing on a closed sleeve.
-/

namespace LlamaTrade

open Arithmetic

variable {env : Platform} {db db' : Database}

/-- Every CLOSED sleeve is empty, and none is a base sleeve that takes re-homed holdings. -/
def ClosedEmpty (db : Database) : Prop :=
  ∀ s ∈ db.sleeves, s.status = .closed → s.type ≠ .unallocated ∧ s.type ≠ .unmanaged ∧
    ((db.projectAccount s.tenantId s.accountId).sleeve s.id.text).IsEmpty

/-! ## Appends -/

section Appends

variable {a : LedgerAppend} {inserted : Bool}

/-- The reservations that are open in an account. -/
def pendingReservations (db : Database) (tenant account : UUID) : Dict (String × Decimal) :=
  (foldInto (D := Decimal) .empty (db.readAccountEvents tenant account)).res.pending

/-- The append leaves the sleeve alone. -/
structure Spares (db : Database) (a : LedgerAppend) (id : String) : Prop where
  legs : ∀ key ∈ sleeveKeys a.eventType, a.data.text key ≠ .ok id
  reservation : ReservationSpares
    (foldInto .empty (db.readAccountEvents a.tenantId a.accountId)) a.eventType a.data id

theorem append_readAccountEvents (h : db.append env a = .ok (db', inserted))
    (tenant account : UUID) :
    db'.readAccountEvents tenant account = db.readAccountEvents tenant account ∨
      a.tenantId = tenant ∧ a.accountId = account ∧ db'.readAccountEvents tenant account =
        db.readAccountEvents tenant account ++ [⟨db.nextSequence, a.eventType.value, a.data⟩] := by
  obtain ⟨-, ⟨hnone, rfl, -⟩ | ⟨row, -, -, rfl, -⟩⟩ := append_eq_ok h
  · by_cases hhere : a.tenantId = tenant ∧ a.accountId = account
    · refine .inr ⟨hhere.1, hhere.2, ?_⟩
      simp [Database.readAccountEvents, Database.insertRow, Database.newRow, hhere]
    · left
      simp only [Database.readAccountEvents, Database.insertRow, List.filter_append,
        Database.newRow, List.filter_cons, List.filter_nil, decide_eq_true_eq, if_neg hhere,
        List.append_nil]
  · exact .inl rfl

theorem append_isEmpty {tenant account : UUID} {id : String}
    (h : db.append env a = .ok (db', inserted))
    (hspares : a.tenantId = tenant → a.accountId = account → Spares db a id)
    (hempty : ((db.projectAccount tenant account).sleeve id).IsEmpty) :
    ((db'.projectAccount tenant account).sleeve id).IsEmpty := by
  unfold Database.projectAccount fold at hempty ⊢
  rcases append_readAccountEvents h tenant account with heq | ⟨rfl, rfl, heq⟩
  · rw [heq]
    exact hempty
  · obtain ⟨hlegs, hreservation⟩ := hspares rfl rfl
    rw [heq, foldInto_append, foldInto_cons, foldInto_nil]
    exact foldEvent_isEmpty hlegs hreservation hempty

theorem ClosedEmpty.append (h : ClosedEmpty db) (hrun : db.append env a = .ok (db', inserted))
    (hspares : ∀ s ∈ db.sleeves, s.status = .closed → a.tenantId = s.tenantId →
      a.accountId = s.accountId → Spares db a s.id.text) : ClosedEmpty db' := by
  intro s hs hclosed
  rw [append_sleeves hrun] at hs
  obtain ⟨hunallocated, hunmanaged, hempty⟩ := h s hs hclosed
  exact ⟨hunallocated, hunmanaged, append_isEmpty hrun (hspares s hs hclosed) hempty⟩

/-- Sleeves may be added or change their status, as long as none becomes closed. -/
theorem ClosedEmpty.of_sleeves (h : ClosedEmpty db) (hevents : db'.events = db.events)
    (hclosed : ∀ s ∈ db'.sleeves, s.status = .closed → s ∈ db.sleeves) : ClosedEmpty db' := by
  intro s hs hstatus
  have hsame : db'.projectAccount s.tenantId s.accountId =
      db.projectAccount s.tenantId s.accountId := by
    simp only [Database.projectAccount, Database.readAccountEvents, hevents]
  rw [hsame]
  exact h s (hclosed s hs hstatus) hstatus

/-- An event without an order that names other sleeves. -/
structure Elsewhere (t : LedgerEventType) (data : Payload) (id : String) : Prop where
  legs : ∀ key ∈ sleeveKeys t, data.text key ≠ .ok id
  order : present data "client_order_id" = none

theorem Elsewhere.spares {id : String} (h : Elsewhere a.eventType a.data id) (db : Database) :
    Spares db a id :=
  ⟨h.legs, reservationSpares_of_none h.order⟩

end Appends

/-! ## The sleeves that operations name -/

section Named

variable {s u : Sleeve} {tenant account : UUID}

theorem mem_of_getSleeve {id : UUID} (h : db.getSleeve tenant id = some s) :
    s ∈ db.sleeves ∧ s.tenantId = tenant ∧ s.id = id := by
  have hfound := List.find?_some h
  exact ⟨List.mem_of_find?_eq_some h, by simpa using hfound⟩

theorem getSleeve_of_mem (h : s ∈ db.sleeves) : db.getSleeve s.tenantId s.id = some s := by
  cases hget : db.getSleeve s.tenantId s.id with
  | none =>
    have hnone := List.find?_eq_none.mp hget s h
    simp at hnone
  | some found =>
    obtain ⟨hmem, -, hid⟩ := mem_of_getSleeve hget
    rw [List.inj_on_of_nodup_map db.uniqueSleeves hmem h hid]

theorem mem_of_getSleeveByType {type : SleeveType}
    (h : db.getSleeveByType tenant account type = some u) : u ∈ db.sleeves ∧ u.type = type := by
  have hfound := List.find?_some h
  simp only [decide_eq_true_eq] at hfound
  exact ⟨List.mem_of_find?_eq_some h, hfound.2.2.1⟩

/-- Different sleeves have different texts. -/
theorem text_ne_of_ne (hs : s ∈ db.sleeves) (hu : u ∈ db.sleeves) (h : s ≠ u) :
    s.id.text ≠ u.id.text := by
  intro htext
  exact h (List.inj_on_of_nodup_map db.uniqueSleeves hs hu (UUID.text_injective htext))

theorem ClosedEmpty.ne_base (h : ClosedEmpty db) (hs : s ∈ db.sleeves) (hclosed : s.status = .closed)
    {type : SleeveType} (htype : type = .unallocated ∨ type = .unmanaged)
    (hu : db.getSleeveByType tenant account type = some u) : s.id.text ≠ u.id.text := by
  obtain ⟨humem, hutype⟩ := mem_of_getSleeveByType hu
  obtain ⟨hunallocated, hunmanaged, -⟩ := h s hs hclosed
  refine text_ne_of_ne hs humem fun heq => ?_
  rcases htype with rfl | rfl
  · exact hunallocated (heq ▸ hutype)
  · exact hunmanaged (heq ▸ hutype)

/-- No sleeve with this id is closed. -/
def NotClosed (db : Database) (id : UUID) : Prop :=
  ∀ s ∈ db.sleeves, s.id = id → s.status ≠ .closed

theorem NotClosed.text_ne {id : UUID} (h : NotClosed db id) (hs : s ∈ db.sleeves)
    (hclosed : s.status = .closed) : s.id.text ≠ id.text :=
  fun htext => h s hs (UUID.text_injective htext) hclosed

end Named

/-! ## Capital operations -/

section Funds

variable {r : FundRequest}

theorem sleeveAmount_elsewhere {t : LedgerEventType} {sleeve : UUID} {amount : Decimal} {id : String}
    (ht : t = .fundsDeposited ∨ t = .fundsWithdrawn) (h : id ≠ sleeve.text) :
    Elsewhere t (sleeveAmount sleeve amount) id := by
  have htext : (sleeveAmount sleeve amount).text "sleeve_id" = .ok sleeve.text := rfl
  refine ⟨fun key hkey hnamed => ?_, rfl⟩
  have hkeys : key = "sleeve_id" := by
    rcases ht with rfl | rfl <;> simpa [sleeveKeys] using hkey
  rw [hkeys, htext] at hnamed
  exact h (Except.ok.inj hnamed).symm

theorem movedAmount_elsewhere {t : LedgerEventType} {frm dest : UUID} {amount : Decimal} {id : String}
    (ht : t = .capitalAllocated ∨ t = .capitalTransferred) (hfrm : id ≠ frm.text)
    (hdest : id ≠ dest.text) : Elsewhere t (movedAmount frm dest amount) id := by
  have hfromText : (movedAmount frm dest amount).text "from_sleeve_id" = .ok frm.text := rfl
  have hdestText : (movedAmount frm dest amount).text "to_sleeve_id" = .ok dest.text := rfl
  refine ⟨fun key hkey hnamed => ?_, rfl⟩
  have hkeys : key = "from_sleeve_id" ∨ key = "to_sleeve_id" := by
    rcases ht with rfl | rfl <;> simpa [sleeveKeys] using hkey
  rcases hkeys with rfl | rfl
  · rw [hfromText] at hnamed
    exact hfrm (Except.ok.inj hnamed).symm
  · rw [hdestText] at hnamed
    exact hdest (Except.ok.inj hnamed).symm

theorem ClosedEmpty.appendFundEvents {op : String} {index : ℕ} {events : List PlannedFundEvent}
    (h : ClosedEmpty db) (hrun : appendFundEvents env r op db index events = .ok db')
    (helsewhere : ∀ s ∈ db.sleeves, s.status = .closed →
      ∀ ev ∈ events, Elsewhere ev.eventType ev.data s.id.text) : ClosedEmpty db' := by
  induction events generalizing db index with
  | nil =>
    cases hrun
    exact h
  | cons ev events ih =>
    rw [LlamaTrade.appendFundEvents, bind_eq_ok] at hrun
    obtain ⟨⟨next, inserted⟩, happend, hrest⟩ := hrun
    have hnext : ClosedEmpty next := h.append happend fun s hs hclosed _ _ =>
      Elsewhere.spares (helsewhere s hs hclosed ev List.mem_cons_self) db
    refine ih hnext hrest fun s hs hclosed ev' hev' => ?_
    rw [append_sleeves happend] at hs
    exact helsewhere s hs hclosed ev' (List.mem_cons_of_mem _ hev')

theorem ClosedEmpty.executeFundPlan {plan : Except PyError FundPlan} {views : List SleeveView}
    (h : ClosedEmpty db) (hrun : executeFundPlan env db r plan = .ok (db', views))
    (helsewhere : ∀ p, plan = .ok p → ∀ s ∈ db.sleeves, s.status = .closed →
      ∀ ev ∈ p.events, Elsewhere ev.eventType ev.data s.id.text) : ClosedEmpty db' := by
  simp only [LlamaTrade.executeFundPlan, bind_eq_ok] at hrun
  obtain ⟨p, hp, next, happend, -, -, hrun⟩ := hrun
  cases hrun
  exact h.appendFundEvents happend (helsewhere p hp)

theorem requireUnallocated_eq {u : Sleeve} (h : requireUnallocated db r = .ok u) :
    db.getSleeveByType r.tenantId r.accountId .unallocated = some u := by
  unfold requireUnallocated at h
  split at h
  · rename_i hfound
    cases h
    exact hfound
  · cases h

theorem requireSleeve_eq {id : UUID} {s : Sleeve} (h : requireSleeve db r id = .ok s) :
    db.getSleeve r.tenantId id = some s ∧ s.accountId = r.accountId := by
  unfold requireSleeve at h
  split at h
  · rename_i hfound
    split_ifs at h with haccount
    cases h
    exact ⟨hfound, haccount⟩
  · cases h

theorem ClosedEmpty.deposit {views : List SleeveView} (h : ClosedEmpty db)
    (hrun : deposit env db r = .ok (db', views)) : ClosedEmpty db' := by
  refine h.executeFundPlan hrun fun p hp s hs hclosed => ?_
  simp only [depositPlan, planDeposit, bind_eq_ok] at hp
  obtain ⟨u, hu, events, ⟨-, -, hevents⟩, hp⟩ := hp
  cases hevents
  cases hp
  simpa using sleeveAmount_elsewhere (.inl rfl)
    (h.ne_base hs hclosed (.inl rfl) (requireUnallocated_eq hu))

theorem ClosedEmpty.withdraw {views : List SleeveView} (h : ClosedEmpty db)
    (hrun : withdraw env db r = .ok (db', views)) : ClosedEmpty db' := by
  refine h.executeFundPlan hrun fun p hp s hs hclosed => ?_
  simp only [withdrawPlan, planWithdraw, bind_eq_ok] at hp
  obtain ⟨u, hu, free, -, events, ⟨-, -, -, -, hevents⟩, hp⟩ := hp
  cases hevents
  cases hp
  simpa using sleeveAmount_elsewhere (.inr rfl)
    (h.ne_base hs hclosed (.inl rfl) (requireUnallocated_eq hu))

theorem ClosedEmpty.allocate {dest : UUID} {views : List SleeveView} (h : ClosedEmpty db)
    (hopen : NotClosed db dest) (hrun : allocate env db r dest = .ok (db', views)) :
    ClosedEmpty db' := by
  refine h.executeFundPlan hrun fun p hp s hs hclosed => ?_
  simp only [allocatePlan, planAllocate, bind_eq_ok] at hp
  obtain ⟨u, hu, sleeve, -, free, -, _, -, events, ⟨-, -, -, -, hevents⟩, hp⟩ := hp
  cases hevents
  cases hp
  simpa using movedAmount_elsewhere (.inl rfl)
    (h.ne_base hs hclosed (.inl rfl) (requireUnallocated_eq hu)) (hopen.text_ne hs hclosed)

/-- A positive amount exceeds zero, in any spelling. -/
theorem lt_of_isZero {x amount : Decimal} (hx : x.IsZero) (h : le amount zero = .ok false) :
    lt x amount = .ok true := by
  cases amount with
  | nan s g d => cases h
  | infinity s =>
    cases s with
    | true => cases h
    | false =>
      obtain ⟨hfin, -⟩ := hx
      cases x with
      | finite s c e => rfl
      | infinity s => cases hfin
      | nan s g d => cases hfin
  | finite s c e =>
    have hle := (Decimal.le_finite (x := .finite s c e) rfl Decimal.isZero_zero.1).symm.trans h
    have hlt : (lt x (.finite s c e) : Except PyError Bool) = _ := Decimal.lt_finite hx.1 rfl
    rw [Decimal.isZero_zero.2] at hle
    rw [hlt, hx.2, decide_eq_true (not_le.mp (of_decide_eq_false (Except.ok.inj hle)))]

theorem requirePositive_eq {amount : Decimal} {x : Unit} (h : requirePositive amount = .ok x) :
    le amount zero = .ok false := by
  simp only [requirePositive, bind_eq_ok] at h
  obtain ⟨positive, hpositive, h⟩ := h
  split_ifs at h with hle
  rw [Bool.not_eq_true] at hle
  exact hle ▸ hpositive

/-- A transfer is planned only for a positive amount that the source has free. -/
theorem transferPlan_cases {frm dest : UUID} {p : FundPlan} (h : transferPlan db r frm dest = .ok p) :
    ∃ fromSleeve destSleeve free, requireSleeve db r frm = .ok fromSleeve ∧
      requireSleeve db r dest = .ok destSleeve ∧ freeCash db r frm = .ok free ∧
      lt free r.amount = .ok false ∧ le r.amount zero = .ok false ∧
      p = ⟨"transfer", [⟨.capitalTransferred, movedAmount frm dest r.amount⟩], [frm, dest],
        [fromSleeve, destSleeve]⟩ := by
  simp only [transferPlan, bind_eq_ok] at h
  obtain ⟨fromSleeve, hfrom, destSleeve, hdest, free, hfree, short, hshort, h⟩ := h
  split_ifs at h with hcase
  rw [Bool.not_eq_true] at hcase
  simp only [planTransfer, bind_eq_ok] at h
  obtain ⟨plan, ⟨_, hpositive, _, -, hplan⟩, h⟩ := h
  have hevent : plan.transfer = ⟨.capitalTransferred, movedAmount frm dest r.amount⟩ := by
    split_ifs at hplan
    · cases hplan
      rfl
    · simp only [bind_eq_ok] at hplan
      obtain ⟨_, -, _, -, hplan⟩ := hplan
      cases hplan
      rfl
  cases h
  rw [hevent]
  exact ⟨fromSleeve, destSleeve, free, hfrom, hdest, hfree, hcase ▸ hshort,
    requirePositive_eq hpositive, rfl⟩

/-- Nothing can be transferred out of an empty sleeve. -/
theorem ClosedEmpty.transfer {frm dest : UUID} {views : List SleeveView} (h : ClosedEmpty db)
    (hopen : NotClosed db dest) (hrun : transfer env db r frm dest = .ok (db', views)) :
    ClosedEmpty db' := by
  refine h.executeFundPlan hrun fun p hp s hs hclosed => ?_
  obtain ⟨fromSleeve, destSleeve, free, hfrom, -, hfree, hshort, hpositive, rfl⟩ :=
    transferPlan_cases hp
  have hne : s.id.text ≠ frm.text := by
    intro htext
    obtain ⟨hget, haccount⟩ := requireSleeve_eq hfrom
    obtain ⟨hmem, htenant, hid⟩ := mem_of_getSleeve hget
    have hsame : s = fromSleeve := List.inj_on_of_nodup_map db.uniqueSleeves hs hmem
      ((UUID.text_injective htext).trans hid.symm)
    obtain ⟨-, -, hempty⟩ := h s hs hclosed
    rw [htext, hsame, htenant, haccount] at hempty
    have hzero : free.IsZero := sub_isZero hempty.cash hempty.reserved hfree
    have hlt := lt_of_isZero hzero hpositive
    rw [hshort] at hlt
    cases hlt
  simpa using movedAmount_elsewhere (.inr rfl) hne (hopen.text_ne hs hclosed)

end Funds

/-! ## Provisioning -/

theorem addSleeve_eq {sleeve : Sleeve} (h : db.addSleeve sleeve = .ok db') :
    db'.events = db.events ∧ db'.sleeves = db.sleeves ++ [sleeve] := by
  unfold Database.addSleeve at h
  split_ifs at h
  cases h
  exact ⟨rfl, rfl⟩

theorem ClosedEmpty.addSleeve {sleeve : Sleeve} (h : ClosedEmpty db) (hopen : sleeve.status ≠ .closed)
    (hrun : db.addSleeve sleeve = .ok db') : ClosedEmpty db' := by
  obtain ⟨hevents, hsleeves⟩ := addSleeve_eq hrun
  refine h.of_sleeves hevents fun s hs hclosed => ?_
  rw [hsleeves, List.mem_append, List.mem_singleton] at hs
  rcases hs with hs | rfl
  · exact hs
  · exact absurd hclosed hopen

theorem ClosedEmpty.ensureBaseSleeve {tenant account fresh : UUID} {type : SleeveType}
    {sleeve : Sleeve} (h : ClosedEmpty db)
    (hrun : ensureBaseSleeve db tenant account type fresh = .ok (db', sleeve)) : ClosedEmpty db' := by
  unfold LlamaTrade.ensureBaseSleeve at hrun
  split at hrun
  · cases hrun
    exact h
  · simp only [bind_eq_ok] at hrun
    obtain ⟨next, hadd, hrun⟩ := hrun
    cases hrun
    exact h.addSleeve (by simp [newSleeve]) hadd

theorem ClosedEmpty.ensureBaseSleeves {tenant account : UUID} {fresh : ℕ → UUID}
    {base : List Sleeve} (h : ClosedEmpty db)
    (hrun : ensureBaseSleeves db tenant account fresh = .ok (db', base)) : ClosedEmpty db' := by
  simp only [LlamaTrade.ensureBaseSleeves, bind_eq_ok] at hrun
  obtain ⟨⟨db₁, unallocated⟩, h₁, ⟨db₂, manual⟩, h₂, ⟨db₃, unmanaged⟩, h₃, hrun⟩ := hrun
  cases hrun
  exact ((h.ensureBaseSleeve h₁).ensureBaseSleeve h₂).ensureBaseSleeve h₃

/-- Opening the sleeve of an execution closes none, and a sleeve that is not closed before is
not closed after. -/
theorem getOrCreateStrategySleeve_cases {tenant account execution fresh : UUID} {sleeve : Sleeve}
    (hrun : getOrCreateStrategySleeve db tenant account execution fresh = .ok (db', sleeve)) :
    (db.getStrategySleeve tenant account execution = some sleeve ∧ db' = db) ∨
      sleeve = newSleeve tenant account .strategy (some execution) fresh ∧
        db.addSleeve sleeve = .ok db' := by
  unfold getOrCreateStrategySleeve at hrun
  split at hrun
  · rename_i hfound
    cases hrun
    exact .inl ⟨hfound, rfl⟩
  · simp only [bind_eq_ok] at hrun
    obtain ⟨next, hadd, hrun⟩ := hrun
    cases hrun
    exact .inr ⟨rfl, hadd⟩

theorem ClosedEmpty.getOrCreateStrategySleeve {tenant account execution fresh : UUID}
    {sleeve : Sleeve} (h : ClosedEmpty db)
    (hrun : getOrCreateStrategySleeve db tenant account execution fresh = .ok (db', sleeve)) :
    ClosedEmpty db' := by
  rcases getOrCreateStrategySleeve_cases hrun with ⟨-, rfl⟩ | ⟨rfl, hadd⟩
  · exact h
  · exact h.addSleeve (by simp [newSleeve]) hadd

theorem ClosedEmpty.allocateToStrategy {r : FundRequest} {execution fresh : UUID}
    {views : List SleeveView} (h : ClosedEmpty db)
    (hopen : ∀ s, db.getStrategySleeve r.tenantId r.accountId execution = some s →
      s.status ≠ .closed)
    (hrun : allocateToStrategy env db r execution fresh = .ok (db', views)) : ClosedEmpty db' := by
  simp only [LlamaTrade.allocateToStrategy, bind_eq_ok] at hrun
  obtain ⟨⟨next, sleeve⟩, hopened, hrun⟩ := hrun
  refine (h.getOrCreateStrategySleeve hopened).allocate ?_ hrun
  have hsleeve : sleeve ∈ next.sleeves ∧ sleeve.status ≠ .closed := by
    rcases getOrCreateStrategySleeve_cases hopened with ⟨hfound, rfl⟩ | ⟨rfl, hadd⟩
    · exact ⟨List.mem_of_find?_eq_some hfound, hopen sleeve hfound⟩
    · refine ⟨?_, by simp [newSleeve]⟩
      rw [(addSleeve_eq hadd).2]
      exact List.mem_append_right _ List.mem_cons_self
  intro s hs hid
  rw [List.inj_on_of_nodup_map next.uniqueSleeves hs hsleeve.1 hid]
  exact hsleeve.2

/-! ## Closing a sleeve -/

section Close

variable {tenant account id : UUID} {reason : Option String}

/-- The close of a sleeve that is not closed yet goes through: its event is not in the log,
and the Unmanaged sleeve can take the positions. -/
def CloseGoesThrough (env : Platform) (db : Database) (tenant account id : UUID) : Prop :=
  db.findEvent (closeEventId env id) = none ∧
    ∀ unmanaged, db.getSleeveByType tenant account .unmanaged = some unmanaged →
      TakesPositions ((db.projectAccount tenant account).sleeve unmanaged.id.text)
        ((db.projectAccount tenant account).sleeve id.text)

theorem closeableSleeve_eq {s : Sleeve} (h : closeableSleeve db tenant account id = .ok s) :
    (s ∈ db.sleeves ∧ s.tenantId = tenant ∧ s.id = id) ∧ s.accountId = account ∧
      s.type ≠ .unallocated ∧ s.type ≠ .unmanaged := by
  unfold closeableSleeve at h
  split at h
  · cases h
  · rename_i sleeve hget
    split_ifs at h with haccount htype
    cases h
    obtain ⟨hunallocated, hunmanaged⟩ := not_or.mp htype
    exact ⟨mem_of_getSleeve hget, not_not.mp haccount, hunallocated, hunmanaged⟩

theorem rehomeTargets_eq {unmanaged unallocated : Sleeve}
    (h : rehomeTargets db tenant account = .ok (unmanaged, unallocated)) :
    db.getSleeveByType tenant account .unmanaged = some unmanaged ∧
      db.getSleeveByType tenant account .unallocated = some unallocated := by
  unfold rehomeTargets at h
  split at h
  · rename_i hunmanaged hunallocated
    cases h
    exact ⟨hunmanaged, hunallocated⟩
  · cases h

theorem closePlan_eq {plan : ClosePlan Decimal} {unmanaged unallocated : Sleeve}
    (h : closePlan db tenant account id reason = .ok (plan, unmanaged, unallocated)) :
    eq ((db.projectAccount tenant account).sleeve id.text).reserved zero = .ok true ∧
      rehomeTargets db tenant account = .ok (unmanaged, unallocated) ∧
      ∃ positions, rehomedPositions (db.openLots tenant account id)
          ((db.projectAccount tenant account).sleeve id.text).positions.toList = .ok positions ∧
        planSleeveClose id positions ((db.projectAccount tenant account).sleeve id.text).cash
          unmanaged.id unallocated.id reason = .ok plan := by
  simp only [closePlan, bind_eq_ok] at h
  obtain ⟨free, hfree, h⟩ := h
  split_ifs at h with hcase
  simp only [bind_eq_ok] at h
  obtain ⟨⟨unmanaged', unallocated'⟩, htargets, positions, hpositions, plan', hplan, h⟩ := h
  cases h
  exact ⟨hcase ▸ hfree, htargets, positions, hpositions, hplan⟩

theorem closeData_elsewhere {source unmanaged unallocated : UUID}
    {ps : List (RehomedPosition Decimal)} {cash : Decimal} {other : String}
    (hsource : other ≠ source.text) (hunmanaged : other ≠ unmanaged.text)
    (hunallocated : other ≠ unallocated.text) :
    Elsewhere .sleeveClosed (closeData source unmanaged unallocated ps cash reason) other := by
  obtain ⟨hsourceText, hunmanagedText, hunallocatedText, -⟩ :=
    closeData_lookup source unmanaged unallocated ps cash reason
  refine ⟨fun key hkey hnamed => ?_, present_closeData ..⟩
  simp only [sleeveKeys, List.mem_cons, List.not_mem_nil, or_false] at hkey
  rcases hkey with rfl | rfl | rfl
  · simp only [Payload.text, Payload.item, hsourceText] at hnamed
    exact hsource (Except.ok.inj hnamed).symm
  · simp only [Payload.text, Payload.item, hunmanagedText] at hnamed
    exact hunmanaged (Except.ok.inj hnamed).symm
  · simp only [Payload.text, Payload.item, hunallocatedText] at hnamed
    exact hunallocated (Except.ok.inj hnamed).symm

theorem ClosedEmpty.closeSleeve {result : CloseResult} (h : ClosedEmpty db)
    (hcloses : ∀ s, closeableSleeve db tenant account id = .ok s → s.status ≠ .closed →
      CloseGoesThrough env db tenant account id)
    (hrun : closeSleeve env db tenant account id reason = .ok (db', result)) : ClosedEmpty db' := by
  simp only [LlamaTrade.closeSleeve, bind_eq_ok] at hrun
  obtain ⟨sleeve, hsleeve, hrun⟩ := hrun
  split_ifs at hrun with hstatus
  · cases hrun
    exact h
  · simp only [bind_eq_ok] at hrun
    obtain ⟨⟨plan, unmanaged, unallocated⟩, hplan, ⟨next, inserted⟩, happend, -, -, hrun⟩ := hrun
    cases hrun
    obtain ⟨hfresh, htakes⟩ := hcloses sleeve hsleeve hstatus
    obtain ⟨⟨hmem, htenant, hid⟩, haccount, hnotUnallocated, hnotUnmanaged⟩ :=
      closeableSleeve_eq hsleeve
    obtain ⟨hreserved, htargets, positions, hpositions, hplan⟩ := closePlan_eq hplan
    obtain ⟨hunmanaged, hunallocated⟩ := rehomeTargets_eq htargets
    have hunmanagedText : id.text ≠ unmanaged.id.text := by
      obtain ⟨humem, hutype⟩ := mem_of_getSleeveByType hunmanaged
      exact hid ▸ text_ne_of_ne hmem humem fun heq => hnotUnmanaged (heq ▸ hutype)
    have hunallocatedText : id.text ≠ unallocated.id.text := by
      obtain ⟨humem, hutype⟩ := mem_of_getSleeveByType hunallocated
      exact hid ▸ text_ne_of_ne hmem humem fun heq => hnotUnallocated (heq ▸ hutype)
    have hkept : ClosedEmpty next := by
      refine h.append happend fun s hs hclosed _ _ => Elsewhere.spares ?_ db
      have hother : s.id.text ≠ id.text :=
        hid ▸ text_ne_of_ne hs hmem fun heq => hstatus (heq ▸ hclosed)
      rw [planSleeveClose] at hplan
      simp only [bind_eq_ok] at hplan
      obtain ⟨nonzero, -, hplan⟩ := hplan
      cases hplan
      exact closeData_elsewhere hother (h.ne_base hs hclosed (.inr rfl) hunmanaged)
        (h.ne_base hs hclosed (.inl rfl) hunallocated)
    have hemptied : ((next.projectAccount tenant account).sleeve id.text).IsEmpty := by
      obtain ⟨haccepted, hcases⟩ := append_eq_ok happend
      obtain ⟨legs, hlegs, hbalanced⟩ := haccepted.balanced
      rcases append_readAccountEvents happend tenant account with heq | ⟨-, -, heq⟩
      · exfalso
        rcases hcases with ⟨hnone, rfl, -⟩ | ⟨row, hrow, -⟩
        · simp [Database.readAccountEvents, Database.insertRow, Database.newRow, closeAppend] at heq
        · rw [show (closeAppend env tenant account id plan.eventData).eventId =
            closeEventId env id from rfl, hfresh] at hrow
          cases hrow
      · unfold Database.projectAccount fold
        rw [heq, foldInto_append, foldInto_cons, foldInto_nil]
        exact foldEvent_close hunmanagedText hunallocatedText (fold_rounded _ _) hreserved
          (htakes unmanaged hunmanaged) hpositions hplan hlegs hbalanced
    intro s hs hclosed
    obtain ⟨s₁, hs₁, heq⟩ := List.mem_map.mp hs
    split_ifs at heq with hsame
    · have hfound : s₁ = sleeve := by
        rw [append_sleeves happend] at hs₁
        exact List.inj_on_of_nodup_map db.uniqueSleeves hs₁ hmem (hsame.trans hid.symm)
      subst hfound
      subst heq
      refine ⟨hnotUnallocated, hnotUnmanaged, ?_⟩
      dsimp only
      rw [htenant, haccount, hid]
      exact hemptied
    · subst heq
      exact hkept s₁ hs₁ hclosed

end Close

/-! ## Freezes and adoptions -/

theorem ClosedEmpty.freeze {id : UUID} {a : LedgerAppend} {inserted : Bool} (h : ClosedEmpty db)
    (hrun : (db.setSleeveStatus id .frozen).append env a = .ok (db', inserted))
    (htype : a.eventType = .sleeveFrozen) (horder : present a.data "client_order_id" = none) :
    ClosedEmpty db' := by
  have hfrozen : ClosedEmpty (db.setSleeveStatus id .frozen) := by
    refine h.of_sleeves rfl fun s hs hclosed => ?_
    obtain ⟨s₁, hs₁, heq⟩ := List.mem_map.mp hs
    split_ifs at heq
    · rw [← heq] at hclosed
      cases hclosed
    · exact heq ▸ hs₁
  refine hfrozen.append hrun fun s _ _ _ _ => Elsewhere.spares ⟨fun key hkey => ?_, horder⟩ _
  rw [htype] at hkey
  cases hkey

theorem ClosedEmpty.freezeSleeve {tenant account eventId : UUID} {sleeve : Sleeve} {reason : String}
    (h : ClosedEmpty db)
    (hrun : freezeSleeve env db tenant account sleeve reason eventId = .ok db') : ClosedEmpty db' := by
  simp only [LlamaTrade.freezeSleeve, bind_eq_ok] at hrun
  obtain ⟨⟨next, inserted⟩, happend, hrun⟩ := hrun
  cases hrun
  exact h.freeze happend rfl rfl

theorem ClosedEmpty.freezeHolding {tenant account : UUID} {acc : AccountProjection Decimal}
    {drift : Drift} {onDate : String} {sleeves : List Sleeve} {n : ℕ} (h : ClosedEmpty db)
    (hrun : freezeHolding env tenant account acc drift onDate db sleeves = .ok (db', n)) :
    ClosedEmpty db' := by
  induction sleeves generalizing db n with
  | nil =>
    cases hrun
    exact h
  | cons sleeve sleeves ih =>
    simp only [LlamaTrade.freezeHolding, bind_eq_ok] at hrun
    obtain ⟨none, -, hrun⟩ := hrun
    split_ifs at hrun
    · exact ih h hrun
    · exact ih h hrun
    · simp only [bind_eq_ok] at hrun
      obtain ⟨eventId, -, next, hnext, ⟨last, frozen⟩, hloop, hrun⟩ := hrun
      cases hrun
      exact ih (h.freezeSleeve hnext) hloop

theorem ClosedEmpty.freezeUnfrozen {tenant account : UUID} {cashDrift : Decimal} {onDate : String}
    {sleeves : List Sleeve} {n : ℕ} (h : ClosedEmpty db)
    (hrun : freezeUnfrozen env tenant account cashDrift onDate db sleeves = .ok (db', n)) :
    ClosedEmpty db' := by
  induction sleeves generalizing db n with
  | nil =>
    cases hrun
    exact h
  | cons sleeve sleeves ih =>
    simp only [LlamaTrade.freezeUnfrozen] at hrun
    split_ifs at hrun
    · exact ih h hrun
    · simp only [bind_eq_ok] at hrun
      obtain ⟨next, hnext, ⟨last, frozen⟩, hloop, hrun⟩ := hrun
      cases hrun
      exact ih (h.freezeSleeve hnext) hloop

/-- An adopted holding goes to the Unmanaged sleeve, which is never closed. -/
theorem ClosedEmpty.adoptExternalTrade {tenant account : UUID} {drift : Drift} {reads : AdoptionReads}
    {onDate action : String} (h : ClosedEmpty db)
    (hrun : adoptExternalTrade env db tenant account drift reads onDate = .ok (db', action)) :
    ClosedEmpty db' := by
  unfold LlamaTrade.adoptExternalTrade at hrun
  split_ifs at hrun
  · cases hrun
    exact h
  · split at hrun
    · rename_i unmanaged avgPrice hunmanaged _
      simp only [bind_eq_ok] at hrun
      obtain ⟨delta, -, eventId, -, ⟨next, inserted⟩, happend, hrun⟩ := hrun
      cases hrun
      refine h.append happend fun s hs hclosed _ _ =>
        Elsewhere.spares ⟨fun key hkey hnamed => ?_, rfl⟩ db
      have hkeys : key = "sleeve_id" := by simpa [sleeveKeys] using hkey
      rw [hkeys] at hnamed
      exact h.ne_base hs hclosed (.inr rfl) hunmanaged (Except.ok.inj hnamed).symm
    · cases hrun
      exact h

theorem ClosedEmpty.applyDriftAction {tenant account : UUID} {drift : Drift} {reads : AdoptionReads}
    {onDate action : String} (h : ClosedEmpty db)
    (hrun : applyDriftAction env db tenant account drift reads onDate = .ok (db', action)) :
    ClosedEmpty db' := by
  unfold LlamaTrade.applyDriftAction at hrun
  split at hrun
  · exact h.adoptExternalTrade hrun
  · simp only [bind_eq_ok] at hrun
    obtain ⟨⟨next, n⟩, hn, hrun⟩ := hrun
    cases hrun
    exact h.freezeHolding hn
  · simp only [bind_eq_ok] at hrun
    obtain ⟨⟨next, n⟩, hn, hrun⟩ := hrun
    cases hrun
    exact h.freezeHolding hn
  · cases hrun
    exact h
  · cases hrun
    exact h

end LlamaTrade
