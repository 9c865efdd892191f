import LlamaTrade.ClosedEmptiness
import LlamaTrade.GrowingLogs
import LlamaTrade.KeptSleeves

/-!
# Capital requests that are retried

A request with an id appends its event under the id once. A retry is checked against the
free cash before its event is looked up, and the first run has spent the cash that the retry
is checked against: the retry succeeds exactly when the source could pay a second time and
the invariants still hold.
-/

namespace LlamaTrade

open Arithmetic

/-- The operations of `FundService`. -/
inductive FundOp where
  | deposit
  | withdraw
  | allocate (dest : UUID)
  | transfer (frm dest : UUID)

namespace FundOp

def plan (db : Database) (r : FundRequest) : FundOp → Except PyError FundPlan
  | deposit => depositPlan db r
  | withdraw => withdrawPlan db r
  | allocate dest => allocatePlan db r dest
  | transfer frm dest => transferPlan db r frm dest

def execute (env : Platform) (db : Database) (r : FundRequest) :
    FundOp → Except PyError (Database × List SleeveView)
  | deposit => LlamaTrade.deposit env db r
  | withdraw => LlamaTrade.withdraw env db r
  | allocate dest => LlamaTrade.allocate env db r dest
  | transfer frm dest => LlamaTrade.transfer env db r frm dest

theorem execute_eq (env : Platform) (db : Database) (r : FundRequest) (op : FundOp) :
    op.execute env db r = executeFundPlan env db r (op.plan db r) := by
  cases op <;> rfl

/-- The sleeve whose free cash is checked. -/
def source (p : FundPlan) : FundOp → Option UUID
  | deposit => none
  | _ => p.touched.head?

end FundOp

/-- The sleeve has the amount free. -/
def Affords (db : Database) (r : FundRequest) (id : UUID) : Prop :=
  ∃ free, freeCash db r id = .ok free ∧ lt free r.amount = .ok false

/-! ## Plans -/

section Plans

variable {db db' : Database} {r : FundRequest}

theorem le_of_lt_eq_false {x y : Decimal} (h : lt y x = .ok false) : le x y = .ok true := by
  have hlt : Decimal.lt y x = .ok false := h
  show Decimal.le x y = .ok true
  unfold Decimal.lt at hlt
  unfold Decimal.le
  split_ifs at hlt with hnan
  rw [if_neg (by rwa [Bool.or_comm] at hnan)]
  have hcompare : (y.compareValue x == .lt) = false := Except.ok.inj hlt
  have hswap : x.compareValue y = (y.compareValue x).swap := by
    cases x with
    | finite s₁ c₁ e₁ =>
      cases y with
      | finite s₂ c₂ e₂ =>
        rw [Decimal.compareValue, Decimal.compareValue, min_comm]
        exact (Int.instTransOrd.eq_swap)
      | infinity s => cases s <;> rfl
      | nan s g d => simp [Decimal.isNan] at hnan
    | infinity s =>
      cases y with
      | finite s₂ c₂ e₂ => cases s <;> rfl
      | infinity s₂ => cases s <;> cases s₂ <;> rfl
      | nan s g d => simp [Decimal.isNan] at hnan
    | nan s g d => simp [Decimal.isNan] at hnan
  rw [hswap]
  cases hcase : y.compareValue x with
  | lt =>
    rw [hcase] at hcompare
    cases hcompare
  | eq => rfl
  | gt => rfl

theorem requirePositive_iff {amount : Decimal} :
    requirePositive amount = .ok () ↔ le amount zero = .ok false := by
  constructor
  · exact requirePositive_eq
  · intro h
    rw [requirePositive, h]
    rfl

theorem requireFreeCash_iff {free amount : Decimal} :
    requireFreeCash free amount = .ok () ↔ lt free amount = .ok false := by
  constructor
  · intro h
    simp only [requireFreeCash, bind_eq_ok] at h
    obtain ⟨short, hshort, h⟩ := h
    split_ifs at h with hcase
    rw [Bool.not_eq_true] at hcase
    exact hcase ▸ hshort
  · intro h
    rw [requireFreeCash, h]
    rfl

/-- What two plans of an operation have in common: everything but the rows they show. -/
structure SamePlan (p q : FundPlan) : Prop where
  op : q.op = p.op
  events : q.events = p.events
  touched : q.touched = p.touched

theorem requireUnallocated_kept (h : SleevesKept db db') {u : Sleeve}
    (hu : requireUnallocated db r = .ok u) :
    ∃ u', requireUnallocated db' r = .ok u' ∧ u'.id = u.id := by
  obtain ⟨u', hu', hid⟩ := getSleeveByType_kept h (requireUnallocated_eq hu)
  have hsame : u'.id = u.id := by
    have hids := congrArg Sleeve.id hid
    exact hids
  refine ⟨u', ?_, hsame⟩
  rw [requireUnallocated, hu']

theorem requireSleeve_kept (h : SleevesKept db db') {id : UUID} {s : Sleeve}
    (hs : requireSleeve db r id = .ok s) : ∃ s', requireSleeve db' r id = .ok s' := by
  obtain ⟨hget, haccount⟩ := requireSleeve_eq hs
  obtain ⟨s', hs', hid⟩ := getSleeve_kept h hget
  refine ⟨s', ?_⟩
  have haccount' : s'.accountId = r.accountId := by
    have haccounts := congrArg Sleeve.accountId hid
    exact haccounts.trans haccount
  rw [requireSleeve, hs']
  exact if_pos haccount'

theorem depositPlan_iff {p : FundPlan} : depositPlan db r = .ok p ↔
    ∃ u, requireUnallocated db r = .ok u ∧ le r.amount zero = .ok false ∧
      p = ⟨"deposit", [⟨.fundsDeposited, sleeveAmount u.id r.amount⟩], [u.id], [u]⟩ := by
  simp only [depositPlan, planDeposit, bind_eq_ok]
  constructor
  · rintro ⟨u, hu, events, ⟨_, hpositive, hevents⟩, hp⟩
    cases hevents
    cases hp
    exact ⟨u, hu, requirePositive_eq hpositive, rfl⟩
  · rintro ⟨u, hu, hpositive, rfl⟩
    exact ⟨u, hu, _, ⟨(), requirePositive_iff.mpr hpositive, rfl⟩, rfl⟩

theorem withdrawPlan_iff {p : FundPlan} : withdrawPlan db r = .ok p ↔
    ∃ u, requireUnallocated db r = .ok u ∧ le r.amount zero = .ok false ∧ Affords db r u.id ∧
      p = ⟨"withdraw", [⟨.fundsWithdrawn, sleeveAmount u.id r.amount⟩], [u.id], [u]⟩ := by
  simp only [withdrawPlan, planWithdraw, bind_eq_ok]
  constructor
  · rintro ⟨u, hu, free, hfree, events, ⟨_, hpositive, _, hcash, hevents⟩, hp⟩
    cases hevents
    cases hp
    exact ⟨u, hu, requirePositive_eq hpositive, ⟨free, hfree, requireFreeCash_iff.mp hcash⟩, rfl⟩
  · rintro ⟨u, hu, hpositive, ⟨free, hfree, hcash⟩, rfl⟩
    exact ⟨u, hu, free, hfree, _, ⟨(), requirePositive_iff.mpr hpositive, (),
      requireFreeCash_iff.mpr hcash, rfl⟩, rfl⟩

theorem allocatePlan_iff {dest : UUID} {p : FundPlan} : allocatePlan db r dest = .ok p ↔
    ∃ u s, requireUnallocated db r = .ok u ∧ requireSleeve db r dest = .ok s ∧
      le r.amount zero = .ok false ∧ Affords db r u.id ∧
        p = ⟨"allocate", [⟨.capitalAllocated, movedAmount u.id dest r.amount⟩], [u.id, dest], [s]⟩ := by
  simp only [allocatePlan, planAllocate, bind_eq_ok]
  constructor
  · rintro ⟨u, hu, s, hs, free, hfree, _, -, events, ⟨_, hpositive, _, hcash, hevents⟩, hp⟩
    cases hevents
    cases hp
    exact ⟨u, s, hu, hs, requirePositive_eq hpositive, ⟨free, hfree, requireFreeCash_iff.mp hcash⟩,
      rfl⟩
  · rintro ⟨u, s, hu, hs, hpositive, ⟨free, hfree, hcash⟩, rfl⟩
    exact ⟨u, hu, s, hs, free, hfree, false, hcash, _, ⟨(), requirePositive_iff.mpr hpositive, (),
      requireFreeCash_iff.mpr hcash, rfl⟩, rfl⟩

theorem transferPlan_iff {frm dest : UUID} {p : FundPlan} : transferPlan db r frm dest = .ok p ↔
    ∃ s s', requireSleeve db r frm = .ok s ∧ requireSleeve db r dest = .ok s' ∧
      le r.amount zero = .ok false ∧ Affords db r frm ∧
        p = ⟨"transfer", [⟨.capitalTransferred, movedAmount frm dest r.amount⟩], [frm, dest],
          [s, s']⟩ := by
  constructor
  · intro h
    obtain ⟨s, s', free, hs, hs', hfree, hcash, hpositive, hp⟩ := transferPlan_cases h
    exact ⟨s, s', hs, hs', hpositive, ⟨free, hfree, hcash⟩, hp⟩
  · rintro ⟨s, s', hs, hs', hpositive, ⟨free, hfree, hcash⟩, rfl⟩
    simp only [transferPlan, planTransfer, hs, hs', hfree, hcash, ok_bind, Bool.false_eq_true,
      if_false, requirePositive_iff.mpr hpositive, le_of_lt_eq_false hcash, if_true]
    rfl

/-- Once an operation could be planned, the free cash of its source decides whether it can be
planned again. -/
theorem plan_again (h : SleevesKept db db') {op : FundOp} {p : FundPlan}
    (hplan : op.plan db r = .ok p) :
    (∀ q, op.plan db' r = .ok q →
      SamePlan p q ∧ ∀ id, op.source p = some id → Affords db' r id) ∧
    ((∀ id, op.source p = some id → Affords db' r id) → ∃ q, op.plan db' r = .ok q) := by
  cases op with
  | deposit =>
    obtain ⟨u, hu, hpositive, rfl⟩ := depositPlan_iff.mp hplan
    obtain ⟨u', hu', hid⟩ := requireUnallocated_kept h hu
    constructor
    · intro q hq
      obtain ⟨v, hv, -, rfl⟩ := depositPlan_iff.mp hq
      cases hu'.symm.trans hv
      refine ⟨⟨rfl, by rw [hid], by rw [hid]⟩, fun id hsource => ?_⟩
      cases hsource
    · intro _
      exact ⟨_, depositPlan_iff.mpr ⟨u', hu', hpositive, rfl⟩⟩
  | withdraw =>
    obtain ⟨u, hu, hpositive, -, rfl⟩ := withdrawPlan_iff.mp hplan
    obtain ⟨u', hu', hid⟩ := requireUnallocated_kept h hu
    constructor
    · intro q hq
      obtain ⟨v, hv, -, hafford, rfl⟩ := withdrawPlan_iff.mp hq
      cases hu'.symm.trans hv
      refine ⟨⟨rfl, by rw [hid], by rw [hid]⟩, fun id hsource => ?_⟩
      cases hsource
      exact hid ▸ hafford
    · intro hafford
      exact ⟨_, withdrawPlan_iff.mpr ⟨u', hu', hpositive, hid ▸ hafford u.id rfl, rfl⟩⟩
  | allocate dest =>
    obtain ⟨u, s, hu, hs, hpositive, -, rfl⟩ := allocatePlan_iff.mp hplan
    obtain ⟨u', hu', hid⟩ := requireUnallocated_kept h hu
    obtain ⟨s', hs'⟩ := requireSleeve_kept h hs
    constructor
    · intro q hq
      obtain ⟨v, t, hv, -, -, hafford, rfl⟩ := allocatePlan_iff.mp hq
      cases hu'.symm.trans hv
      refine ⟨⟨rfl, by rw [hid], by rw [hid]⟩, fun id hsource => ?_⟩
      cases hsource
      exact hid ▸ hafford
    · intro hafford
      exact ⟨_, allocatePlan_iff.mpr ⟨u', s', hu', hs', hpositive, hid ▸ hafford u.id rfl, rfl⟩⟩
  | transfer frm dest =>
    obtain ⟨s, t, hs, ht, hpositive, -, rfl⟩ := transferPlan_iff.mp hplan
    obtain ⟨s', hs'⟩ := requireSleeve_kept h hs
    obtain ⟨t', ht'⟩ := requireSleeve_kept h ht
    constructor
    · intro q hq
      obtain ⟨_, _, -, -, -, hafford, rfl⟩ := transferPlan_iff.mp hq
      refine ⟨⟨rfl, rfl, rfl⟩, fun id hsource => ?_⟩
      cases hsource
      exact hafford
    · intro hafford
      exact ⟨_, transferPlan_iff.mpr ⟨s', t', hs', ht', hpositive, hafford frm rfl, rfl⟩⟩

end Plans

/-! ## Retries -/

section Retries

variable {env : Platform} {before after db db' : Database} {r : FundRequest}

/-- The same request, sent again: only the ids that `uuid4` would draw differ. -/
def FundRequest.again (r : FundRequest) (fresh : ℕ → UUID) : FundRequest := { r with fresh }

theorem fundAppend_again (hid : r.requestId ≠ "") (fresh : ℕ → UUID) (op : String) (index : ℕ)
    (ev : PlannedFundEvent) :
    fundAppend env (r.again fresh) op index ev = fundAppend env r op index ev := by
  have hevent : fundEventId env (r.again fresh) op index = fundEventId env r op index := by
    unfold fundEventId
    rw [if_neg hid, if_neg (show (r.again fresh).requestId ≠ "" from hid)]
    rfl
  rw [fundAppend, fundAppend, hevent]
  rfl

/-- Events that were appended before are not appended again. -/
theorem appendFundEvents_again (hid : r.requestId ≠ "") {op : String} {index : ℕ}
    {events : List PlannedFundEvent} (h : appendFundEvents env r op before index events = .ok after)
    (hkept : ∀ row ∈ after.events, row ∈ db.events) (fresh : ℕ → UUID) :
    appendFundEvents env (r.again fresh) op db index events = .ok db := by
  induction events generalizing before index with
  | nil => rfl
  | cons ev events ih =>
    rw [appendFundEvents, bind_eq_ok] at h
    obtain ⟨⟨next, inserted⟩, happend, hrest⟩ := h
    obtain ⟨row, hrow, hrowId, htenant⟩ := append_books happend
    have hmem := hkept row ((appendFundEvents_events hrest).subset hrow)
    have hfind : db.findEvent (fundAppend env r op index ev).eventId = some row := by
      rw [← hrowId]
      exact findEvent_eq_some_of_mem hmem
    have hagain : db.append env (fundAppend env (r.again fresh) op index ev) = .ok (db, false) := by
      rw [fundAppend_again hid, append_of_accepted (append_eq_ok happend).1]
      split
      · rename_i hnone
        rw [hfind] at hnone
        cases hnone
      · rename_i row' hrow'
        cases hfind.symm.trans hrow'
        exact if_pos htenant
    rw [appendFundEvents, hagain, ok_bind]
    exact ih hrest

/-- The source has the amount free once more, and the sleeves of the request and the account
meet the invariants. -/
structure StillValid (db : Database) (r : FundRequest) (op : FundOp) (p : FundPlan) : Prop where
  affords : ∀ id, op.source p = some id → Affords db r id
  invariants : assertWriteInvariants (db.projectAccount r.tenantId r.accountId)
    (p.touched.map UUID.text) = .ok ()

/-- A request with an id that has committed, sent again after any run of operations, succeeds
and changes no sleeve exactly when it would be valid as a new request. -/
theorem retry_succeeds_iff (hid : r.requestId ≠ "") {op : FundOp} {p : FundPlan}
    {views : List SleeveView} {ops : List Operation} (hplan : op.plan before r = .ok p)
    (hfirst : op.execute env before r = .ok (after, views))
    (hrun : Transition.run (accountStep env) after ops = some db) (fresh : ℕ → UUID) :
    (∃ db' views', op.execute env db (r.again fresh) = .ok (db', views') ∧
      ∀ id, (db'.projectAccount r.tenantId r.accountId).sleeve id =
        (db.projectAccount r.tenantId r.accountId).sleeve id) ↔ StillValid db r op p := by
  rw [FundOp.execute_eq, hplan] at hfirst
  have hsleeves : SleevesKept before db :=
    (sleevesKept_of_eq (executeFundPlan_sleeves hfirst)).trans (run_sleevesKept hrun)
  simp only [executeFundPlan, ok_bind, bind_eq_ok] at hfirst
  obtain ⟨next, happend, _, -, hfirst⟩ := hfirst
  cases hfirst
  have hkept : ∀ row ∈ after.events, row ∈ db.events := fun _ hrow => (run_events hrun).subset hrow
  have hplans : op.plan db (r.again fresh) = op.plan db r := by
    cases op <;> rfl
  obtain ⟨honly, hcan⟩ := plan_again hsleeves hplan
  rw [FundOp.execute_eq, hplans]
  constructor
  · rintro ⟨db', views', hexecute, -⟩
    simp only [executeFundPlan, bind_eq_ok] at hexecute
    obtain ⟨q, hq, last, hlast, _, hassert, hexecute⟩ := hexecute
    obtain ⟨hsame, hafford⟩ := honly q hq
    refine ⟨hafford, ?_⟩
    rw [hsame.op, hsame.events, appendFundEvents_again hid happend hkept fresh] at hlast
    cases hlast
    rw [← hsame.touched]
    exact hassert
  · intro hvalid
    obtain ⟨q, hq⟩ := hcan hvalid.affords
    obtain ⟨hsame, -⟩ := honly q hq
    refine ⟨db, q.shown.map fun s =>
      ⟨s, ((db.projectAccount r.tenantId r.accountId).sleeve s.id.text).cash⟩, ?_, fun _ => rfl⟩
    simp only [executeFundPlan, hq, ok_bind, hsame.op, hsame.events, hsame.touched,
      appendFundEvents_again hid happend hkept fresh]
    rw [show (r.again fresh).tenantId = r.tenantId from rfl,
      show (r.again fresh).accountId = r.accountId from rfl, hvalid.invariants]
    rfl

end Retries

namespace Sample

/-- The digest of the transfer's event. -/
def transferPlatform : Platform where
  digest key :=
    if key = "00000000-0000-0000-0000-000000000002:transfer:req-1:0" then
      0xfe28c3d78b20308c655e8ae16508f908
    else 0
  storesTimestamp _ := true

/-- A transfer back from the strategy that holds 1000. -/
def transferRequest (amount : ℕ) : FundRequest :=
  ⟨tenant, account, .finite false amount 0, "req-1", fun _ => 9⟩

def transferBack : FundOp := .transfer strategy unallocated

def afterTransfer (amount : ℕ) : Database :=
  (Operation.transfer (transferRequest amount) strategy unallocated).perform transferPlatform funded

end Sample

theorem retry_succeeds_transfer :
    ∃ db' views', Sample.transferBack.execute Sample.transferPlatform (Sample.afterTransfer 400)
        (Sample.transferRequest 400) = .ok (db', views') ∧
      ∀ id, (db'.projectAccount Sample.tenant Sample.account).sleeve id =
        ((Sample.afterTransfer 400).projectAccount Sample.tenant Sample.account).sleeve id := by
  have hcommit : (Sample.transferBack.execute Sample.transferPlatform Sample.funded
      (Sample.transferRequest 400)).map (·.1) = .ok (Sample.afterTransfer 400) :=
    @Operation.commit_of_isOk Sample.transferPlatform Sample.funded
      (.transfer (Sample.transferRequest 400) Sample.strategy Sample.unallocated) (by decide +kernel)
  obtain ⟨⟨after, views⟩, hfirst, hafter⟩ := map_eq_ok.mp hcommit
  have hexecute := hfirst
  rw [FundOp.execute_eq, executeFundPlan, bind_eq_ok] at hexecute
  obtain ⟨p, hplan, -⟩ := hexecute
  have hshape : p.touched = [Sample.strategy, Sample.unallocated] := by
    obtain ⟨_, _, -, -, -, -, rfl⟩ := transferPlan_iff.mp hplan
    rfl
  have hrun : Transition.run (accountStep Sample.transferPlatform) after [] =
      some (Sample.afterTransfer 400) := congrArg some hafter
  refine (retry_succeeds_iff (by decide) hplan hfirst hrun _).mpr ⟨fun id hsource => ?_, ?_⟩
  · have hcash : (freeCash (Sample.afterTransfer 400) (Sample.transferRequest 400) Sample.strategy >>=
        fun free => lt free (Sample.transferRequest 400).amount) = .ok false := by decide
    rw [show Sample.transferBack.source p = p.touched.head? from rfl, hshape] at hsource
    cases hsource
    exact bind_eq_ok.mp hcash
  · rw [hshape]
    decide

/-- A transfer of all the cash cannot be retried: the source no longer has the amount. -/
theorem retry_of_committed_transfer_fails :
    (Sample.transferRequest 1000).requestId ≠ "" ∧
    (Sample.transferBack.execute Sample.transferPlatform Sample.funded
      (Sample.transferRequest 1000)).toOption.map (fun first =>
        (Sample.transferBack.execute Sample.transferPlatform first.1
          (Sample.transferRequest 1000)).isOk) = some false := by
  constructor
  · decide
  · decide +kernel

end LlamaTrade
