import LlamaTrade.CapitalTransactions
import LlamaTrade.CashMoves
import LlamaTrade.ClosedEmptiness

/-!
# Concurrent capital requests

A request that takes cash out of a sleeve has seen the sleeve with enough of it when it
asserts the invariants. Between that check and its commit only other transactions commit:
the lock keeps fund requests apart, but not a fund request and a close of the sleeve it
takes from. Where no two such transactions are both past their check, no sleeve is overdrawn.
-/

namespace LlamaTrade

open Arithmetic

/-! ## What requests plan -/

section Planned

variable {env : Platform} {db : Database}

theorem credits_of_legs {id : String} {t : LedgerEventType} {data : Payload} {seq : ℕ}
    (h : ∀ ps, buildPostings (D := Decimal) t data = .ok ps → ∀ p ∈ ps, p.IsCashOf id →
      p.amount.isFinite → 0 ≤ p.amount.toRat) : Credits id ⟨seq, t.value, data⟩ := by
  intro m hm
  have hfin := cashMoves_finite m hm
  unfold cashMoves at hm
  rw [LedgerEventType.coerce_value] at hm
  dsimp only at hm
  split at hm
  · cases hm
  · rename_i ps hps
    obtain ⟨p, hp, rfl⟩ := List.mem_map.mp hm
    obtain ⟨hmem, hcash⟩ := List.mem_filter.mp hp
    exact h ps (build_of_validated hps) p hmem (of_decide_eq_true hcash) hfin

theorem nonneg_of_positive {amount : Decimal} (hfin : amount.isFinite)
    (h : le amount zero = .ok false) : 0 ≤ amount.toRat := by
  have hle := (Decimal.le_finite hfin Decimal.isZero_zero.1).symm.trans h
  rw [Decimal.isZero_zero.2] at hle
  exact (not_le.mp (of_decide_eq_false (Except.ok.inj hle))).le

/-- A deposit takes from no sleeve, and a withdrawal from its own only. -/
theorem sleeveAmount_credits {t : LedgerEventType} {sleeve : UUID} {amount : Decimal} {id : String}
    {seq : ℕ} (ht : t = .fundsDeposited ∨ t = .fundsWithdrawn) (hne : id ≠ sleeve.text) :
    Credits id ⟨seq, t.value, sleeveAmount sleeve amount⟩ := by
  refine credits_of_legs fun ps hps p hp hcash _ => ?_
  obtain ⟨key, hkey, htext⟩ := buildPostings_names hps hp hcash.2
  have hkeys : key = "sleeve_id" := by
    rcases ht with rfl | rfl <;> simpa [sleeveKeys] using hkey
  rw [hkeys] at htext
  exact absurd (Except.ok.inj htext).symm hne

theorem movedAmount_credits {t : LedgerEventType} {frm dest : UUID} {amount : Decimal} {id : String}
    {seq : ℕ} (ht : t = .capitalAllocated ∨ t = .capitalTransferred)
    (hpositive : le amount zero = .ok false) (hne : id ≠ frm.text) :
    Credits id ⟨seq, t.value, movedAmount frm dest amount⟩ := by
  refine credits_of_legs fun ps hps p hp hcash hfin => ?_
  have hbuild : buildPostings (D := Decimal) t (movedAmount frm dest amount) = (do
      let out ← neg amount
      return [⟨some frm.text, .cash, out, none, none⟩, ⟨some dest.text, .cash, amount, none, none⟩]) := by
    have hnumber : number (D := Decimal) (movedAmount frm dest amount) "amount" = .ok amount :=
      parse_text amount
    rcases ht with rfl | rfl
    · simp only [buildPostings, hnumber, ok_bind]
      rfl
    · simp only [buildPostings, hnumber, ok_bind]
      rfl
  rw [hbuild] at hps
  simp only [bind_eq_ok] at hps
  obtain ⟨out, -, hps⟩ := hps
  cases hps
  simp only [List.mem_cons, List.not_mem_nil, or_false] at hp
  rcases hp with rfl | rfl
  · exact absurd (Option.some.inj hcash.2).symm hne
  · exact nonneg_of_positive hfin hpositive

theorem rehomePostings_bucket {frm dest : String} {entries : List Json} {ps : List (Posting Decimal)}
    (h : rehomePostings frm dest entries = .ok ps) {p : Posting Decimal} (hp : p ∈ ps) :
    p.bucket = .position := by
  induction entries generalizing ps with
  | nil =>
    cases h
    cases hp
  | cons entry entries ih =>
    simp only [rehomePostings, rehomePosting, bind_eq_ok] at h
    obtain ⟨legs, ⟨_, -, _, -, _, -, _, -, _, -, hlegs⟩, others, hothers, h⟩ := h
    cases hlegs
    cases h
    rcases List.mem_append.mp hp with hp | hp
    · simp only [List.mem_cons, List.not_mem_nil, or_false] at hp
      rcases hp with rfl | rfl <;> rfl
    · exact ih hothers hp

theorem closeData_credits {source unmanaged unallocated : UUID} {ps : List (RehomedPosition Decimal)}
    {cash : Decimal} {reason : Option String} {id : String} {seq : ℕ} (hcash : 0 ≤ cash.toRat)
    (hne : id ≠ source.text) : Credits id ⟨seq, LedgerEventType.sleeveClosed.value,
      closeData source unmanaged unallocated ps cash reason⟩ := by
  refine credits_of_legs fun legs hlegs p hp hmoves _ => ?_
  obtain ⟨moved, hmoved, hcases⟩ := buildPostings_closeData_cases hlegs
  have hnot : p ∉ moved := by
    intro hin
    have hbucket := rehomePostings_bucket hmoved hin
    rw [hmoves.1] at hbucket
    cases hbucket
  rcases hcases with ⟨-, rfl⟩ | ⟨out, -, rfl⟩
  · exact absurd hp hnot
  · rcases List.mem_append.mp hp with hp | hp
    · exact absurd hp hnot
    · simp only [List.mem_cons, List.not_mem_nil, or_false] at hp
      rcases hp with rfl | rfl
      · exact absurd (Option.some.inj hmoves.2).symm hne
      · exact hcash

/-- The appends take cash out of one sleeve only, and those of a close are its close event. -/
structure PlannedFrom (env : Platform) (request : CapitalRequest) (source : UUID)
    (appends : List LedgerAppend) : Prop where
  credits : ∀ a ∈ appends, ∀ (id : String) (seq : ℕ), id ≠ source.text →
    Credits id ⟨seq, a.eventType.value, a.data⟩
  closes : ∀ tenant account id reason, request = .close tenant account id reason →
    source = id ∧ ∀ a ∈ appends, a.eventId = closeEventId env id

/-- What a request plans takes cash out of the first sleeve whose invariants it asserts. -/
theorem plan_from {request : CapitalRequest} {lotsOf : String → List (Lot Decimal)}
    {plan : CapitalPlan} (h : request.plan env db lotsOf = .ok plan)
    (hcash : ∀ id, 0 ≤ ((db.projectAccount request.account.1 request.account.2).sleeve id).cash.toRat) :
    ∃ source a rest, plan.touched.head? = some source ∧ plan.appends = a :: rest ∧
      PlannedFrom env request source plan.appends := by
  cases request with
  | deposit r =>
    obtain ⟨fundPlan, hplan, rfl⟩ := map_eq_ok.mp h
    simp only [depositPlan, planDeposit, bind_eq_ok] at hplan
    obtain ⟨u, -, events, ⟨-, -, hevents⟩, hplan⟩ := hplan
    cases hevents
    cases hplan
    refine ⟨u.id, _, [], rfl, rfl, ⟨fun a ha id seq hne => ?_, fun _ _ _ _ heq => by cases heq⟩⟩
    rw [List.mem_singleton.mp ha]
    exact sleeveAmount_credits (.inl rfl) hne
  | withdraw r =>
    obtain ⟨fundPlan, hplan, rfl⟩ := map_eq_ok.mp h
    simp only [withdrawPlan, planWithdraw, bind_eq_ok] at hplan
    obtain ⟨u, -, free, -, events, ⟨-, -, -, -, hevents⟩, hplan⟩ := hplan
    cases hevents
    cases hplan
    refine ⟨u.id, _, [], rfl, rfl, ⟨fun a ha id seq hne => ?_, fun _ _ _ _ heq => by cases heq⟩⟩
    rw [List.mem_singleton.mp ha]
    exact sleeveAmount_credits (.inr rfl) hne
  | allocate r dest =>
    obtain ⟨fundPlan, hplan, rfl⟩ := map_eq_ok.mp h
    simp only [allocatePlan, planAllocate, bind_eq_ok] at hplan
    obtain ⟨u, -, sleeve, -, free, -, _, -, events, ⟨_, hpositive, -, -, hevents⟩, hplan⟩ := hplan
    cases hevents
    cases hplan
    refine ⟨u.id, _, [], rfl, rfl, ⟨fun a ha id seq hne => ?_, fun _ _ _ _ heq => by cases heq⟩⟩
    rw [List.mem_singleton.mp ha]
    exact movedAmount_credits (.inl rfl) (requirePositive_eq hpositive) hne
  | transfer r frm dest =>
    obtain ⟨fundPlan, hplan, rfl⟩ := map_eq_ok.mp h
    obtain ⟨_, _, _, -, -, -, -, hpositive, rfl⟩ := transferPlan_cases hplan
    refine ⟨frm, _, [], rfl, rfl, ⟨fun a ha id seq hne => ?_, fun _ _ _ _ heq => by cases heq⟩⟩
    rw [List.mem_singleton.mp ha]
    exact movedAmount_credits (.inr rfl) hpositive hne
  | close tenant account id reason =>
    have h : closeAppends env db tenant account id reason lotsOf = .ok plan := h
    simp only [closeAppends, bind_eq_ok] at h
    obtain ⟨free, -, h⟩ := h
    split_ifs at h
    simp only [bind_eq_ok] at h
    obtain ⟨⟨unmanaged, unallocated⟩, -, positions, -, closed, hclosed, h⟩ := h
    cases h
    simp only [planSleeveClose, bind_eq_ok] at hclosed
    obtain ⟨nonzero, -, hclosed⟩ := hclosed
    cases hclosed
    refine ⟨id, _, [], rfl, rfl, ⟨fun a ha other seq hne => ?_, ?_⟩⟩
    · rw [List.mem_singleton.mp ha]
      exact closeData_credits (hcash id.text) hne
    · rintro tenant' account' id' reason' heq
      cases heq
      refine ⟨rfl, fun a ha => ?_⟩
      rw [List.mem_singleton.mp ha]
      rfl

end Planned

/-! ## What a statement leaves to the other transactions -/

/-- The transactions other than `t` find themselves, their locks and the rows they see or own
as they were. -/
structure Frame (t : ℕ) (w w' : World) : Prop where
  txn : ∀ u, u ≠ t → w'.txn u = w.txn u
  lock : ∀ u, u ≠ t → w.lock = some u → w'.lock = some u
  kept : ∀ r ∈ w.rows, r.owner ≠ some t → r ∈ w'.rows
  owned : ∀ r ∈ w'.rows, ∀ u, u ≠ t → r.owner = some u → r ∈ w.rows

section Frames

variable {w : World} {t : ℕ}

theorem frame_setPhase (request : CapitalRequest) (phase : Phase) :
    Frame t w (w.setPhase t request phase) where
  txn _ hu := Function.update_of_ne hu _ _
  lock _ _ h := h
  kept _ hr _ := hr
  owned _ hr _ _ _ := hr

theorem frame_rollback : Frame t w (w.rollback t) where
  txn _ hu := Function.update_of_ne hu _ _
  lock u hu h := by
    have hne : w.lock ≠ some t := fun heq => hu (Option.some.inj (h.symm.trans heq))
    exact (if_neg hne).trans h
  kept r hr howner := List.mem_filter.mpr ⟨hr, by simpa using howner⟩
  owned r hr _ _ _ := List.mem_of_mem_filter hr

theorem frame_commit (request : CapitalRequest) : Frame t w (w.commit t request) where
  txn _ hu := Function.update_of_ne hu _ _
  lock u hu h := by
    have hne : w.lock ≠ some t := fun heq => hu (Option.some.inj (h.symm.trans heq))
    exact (if_neg hne).trans h
  kept r hr howner := List.mem_map.mpr ⟨r, hr, if_neg howner⟩
  owned r hr _ _ howner := by
    obtain ⟨r₁, hr₁, heq⟩ := List.mem_map.mp hr
    split_ifs at heq with hmine
    · rw [← heq] at howner
      cases howner
    · exact heq ▸ hr₁

theorem frame_insertRow {a : LedgerAppend} (h : a.eventId ∉ w.rows.map (·.row.eventId))
    (request : CapitalRequest) (phase : Phase) :
    Frame t w ((w.insertRow t a h).setPhase t request phase) where
  txn _ hu := Function.update_of_ne hu _ _
  lock _ _ h := h
  kept _ hr _ := List.mem_append_left _ hr
  owned r hr u hu howner := by
    rcases List.mem_append.mp hr with hr | hr
    · exact hr
    · rw [List.mem_singleton.mp hr] at howner
      exact absurd (Option.some.inj howner).symm hu

end Frames

/-! ## The invariant -/

/-- What a phase has still to append, and the sleeves it asserts. -/
def Phase.planned : Phase → Option (List LedgerAppend × List UUID)
  | .appending a rest touched => some (a :: rest, touched)
  | .marking touched | .checking touched | .checked touched => some ([], touched)
  | _ => none

/-- The sleeve that a transaction takes cash out of. -/
def Transaction.source (x : Transaction) : Option UUID := x.phase.planned.bind fun p => p.2.head?

/-- What holds of a transaction in flight. -/
structure TxnGood (env : Platform) (tenant account : UUID) (w : World) (t : ℕ) (x : Transaction) :
    Prop where
  account : x.request.account = (tenant, account)
  lock : x.request.isClose = false → x.phase ≠ .begun → w.lock = some t
  planned : ∀ appends touched, x.phase.planned = some (appends, touched) →
    ∃ source, touched.head? = some source ∧ PlannedFrom env x.request source appends
  inserted : ∀ touched tenant account id reason, x.phase.planned = some ([], touched) →
    x.request = .close tenant account id reason →
      ∃ r ∈ w.rows, r.row.eventId = closeEventId env id ∧ (r.owner = none ∨ r.owner = some t)

/-- What holds of a row that its transaction has not committed. -/
structure RowGood (env : Platform) (x : Transaction) (r : LogRow) : Prop where
  credits : ∃ source, x.source = some source ∧ ∀ id, id ≠ source.text → Credits id r.row.event
  closes : ∀ tenant account id reason, x.request = .close tenant account id reason →
    r.row.eventId = closeEventId env id

/-- What holds of the transactions and the rows in flight. -/
structure FlightInv (env : Platform) (tenant account : UUID) (w : World) : Prop where
  txns : ∀ t x, w.txn t = some x → TxnGood env tenant account w t x
  rows : ∀ r ∈ w.rows, ∀ t, r.owner = some t → ∃ x, w.txn t = some x ∧ RowGood env x r

section Flight

variable {env : Platform} {tenant account : UUID} {w w' : World} {t : ℕ}

/-- The other transactions stay good. -/
theorem TxnGood.frame {u : ℕ} {x : Transaction} (h : TxnGood env tenant account w u x) (hu : u ≠ t)
    (hframe : Frame t w w') : TxnGood env tenant account w' u x where
  account := h.account
  lock hfund hphase := hframe.lock u hu (h.lock hfund hphase)
  planned := h.planned
  inserted touched tenant' account' id reason hphase hclose := by
    obtain ⟨r, hr, hid, howner⟩ := h.inserted touched tenant' account' id reason hphase hclose
    refine ⟨r, hframe.kept r hr ?_, hid, howner⟩
    rcases howner with howner | howner
    · rw [howner]
      simp
    · rw [howner]
      exact fun heq => hu (Option.some.inj heq)

/-- The invariant after a statement of `t`: it is enough to look at `t` and its rows. -/
theorem FlightInv.step (h : FlightInv env tenant account w) (hframe : Frame t w w')
    (htxn : ∀ x, w'.txn t = some x → TxnGood env tenant account w' t x)
    (hrows : ∀ r ∈ w'.rows, r.owner = some t → ∃ x, w'.txn t = some x ∧ RowGood env x r) :
    FlightInv env tenant account w' where
  txns u x hx := by
    by_cases hu : u = t
    · subst hu
      exact htxn x hx
    · rw [hframe.txn u hu] at hx
      exact (h.txns u x hx).frame hu hframe
  rows r hr u howner := by
    by_cases hu : u = t
    · subst hu
      exact hrows r hr howner
    · rw [hframe.txn u hu]
      exact h.rows r (hframe.owned r hr u hu howner) u howner

theorem FlightInv.rollback (h : FlightInv env tenant account w) (t : ℕ) :
    FlightInv env tenant account (w.rollback t) := by
  refine h.step frame_rollback (fun x hx => ?_) fun r hr howner => ?_
  · rw [show (w.rollback t).txn t = none from Function.update_self _ _ _] at hx
    cases hx
  · have hne := (List.mem_filter.mp hr).2
    simp [howner] at hne

theorem FlightInv.commit (h : FlightInv env tenant account w) (t : ℕ) (request : CapitalRequest) :
    FlightInv env tenant account (w.commit t request) := by
  refine h.step (frame_commit request) (fun x hx => ?_) fun r hr howner => ?_
  · rw [show (w.commit t request).txn t = none from Function.update_self _ _ _] at hx
    cases hx
  · obtain ⟨r₁, -, heq⟩ := List.mem_map.mp hr
    split_ifs at heq with hmine
    · rw [← heq] at howner
      cases howner
    · exact absurd (heq ▸ howner) hmine

/-- A transaction may go to a phase with the same plan. -/
theorem FlightInv.setPhase (h : FlightInv env tenant account w) {x : Transaction}
    (hx : w.txn t = some x) {phase : Phase} (hphase : x.phase ≠ .begun)
    (hplanned : phase.planned = x.phase.planned) :
    FlightInv env tenant account (w.setPhase t x.request phase) := by
  have hgood := h.txns t x hx
  have htxn : (w.setPhase t x.request phase).txn t = some ⟨x.request, phase⟩ :=
    Function.update_self _ _ _
  refine h.step (frame_setPhase _ _) (fun y hy => ?_) fun r hr howner => ?_
  · rw [htxn] at hy
    cases hy
    refine ⟨hgood.account, fun hfund _ => hgood.lock hfund hphase, fun appends touched hp => ?_,
      fun touched tenant' account' id reason hp hclose => ?_⟩
    · exact hgood.planned appends touched (hplanned ▸ hp)
    · exact hgood.inserted touched tenant' account' id reason (hplanned ▸ hp) hclose
  · obtain ⟨y, hy, hrow⟩ := h.rows r hr t howner
    cases hx.symm.trans hy
    obtain ⟨source, hsource, hcredits⟩ := hrow.credits
    refine ⟨_, htxn, ⟨⟨source, ?_, hcredits⟩, hrow.closes⟩⟩
    unfold Transaction.source at hsource ⊢
    dsimp only
    rw [hplanned]
    exact hsource

/-- A transaction without a plan owns no row. -/
theorem FlightInv.no_rows (h : FlightInv env tenant account w) {x : Transaction}
    (hx : w.txn t = some x) (hplanned : x.phase.planned = none) :
    ∀ r ∈ w.rows, r.owner ≠ some t := by
  intro r hr howner
  obtain ⟨y, hy, hrow⟩ := h.rows r hr t howner
  cases hx.symm.trans hy
  obtain ⟨source, hsource, -⟩ := hrow.credits
  rw [Transaction.source, hplanned] at hsource
  cases hsource

theorem txnGood_unplanned {x : Transaction} (haccount : x.request.account = (tenant, account))
    (hlock : x.request.isClose = false → x.phase ≠ .begun → w.lock = some t)
    (hplanned : x.phase.planned = none) : TxnGood env tenant account w t x := by
  refine ⟨haccount, hlock, fun _ _ hp => ?_, fun _ _ _ _ _ hp => ?_⟩
  · rw [hplanned] at hp
    cases hp
  · rw [hplanned] at hp
    cases hp

theorem FlightInv.start (h : FlightInv env tenant account w) (ht : w.txn t = none)
    {request : CapitalRequest} (haccount : request.account = (tenant, account)) :
    FlightInv env tenant account (w.setPhase t request .begun) := by
  refine h.step (frame_setPhase _ _) (fun x hx => ?_) fun r hr howner => ?_
  · rw [show (w.setPhase t request .begun).txn t = _ from Function.update_self _ _ _] at hx
    cases hx
    exact txnGood_unplanned haccount (fun _ hne => absurd rfl hne) rfl
  · obtain ⟨x, hx, -⟩ := h.rows r hr t howner
    cases ht.symm.trans hx

theorem FlightInv.lockStep {x : Transaction} (h : FlightInv env tenant account w)
    (hx : w.txn t = some x) (hstep : lockStep w t x = some w') : FlightInv env tenant account w' := by
  obtain ⟨request, phase⟩ := x
  cases phase with
  | begun =>
    simp only [LlamaTrade.lockStep] at hstep
    split_ifs at hstep with hclose hfree
    cases hstep
    have hframe : Frame t w ({ w.setPhase t request .ready with lock := some t } : World) := by
      refine ⟨fun u hu => Function.update_of_ne hu _ _, fun u _ hlock => ?_, fun _ hr _ => hr,
        fun _ hr _ _ _ => hr⟩
      rw [hfree] at hlock
      cases hlock
    refine h.step hframe (fun y hy => ?_) fun r hr howner => ?_
    · rw [show (World.txn { w.setPhase t request .ready with lock := some t }) t = _ from
        Function.update_self _ _ _] at hy
      cases hy
      exact txnGood_unplanned (h.txns t _ hx).account (fun _ _ => rfl) rfl
    · exact absurd howner (h.no_rows hx rfl r hr)
  | _ => cases hstep

theorem FlightInv.findStep {x : Transaction} (h : FlightInv env tenant account w)
    (hx : w.txn t = some x) (hstep : findStep w t x = some w') : FlightInv env tenant account w' := by
  obtain ⟨request, phase⟩ := x
  unfold LlamaTrade.findStep at hstep
  split at hstep
  · rename_i tenant' account' id reason heq
    cases heq
    split at hstep
    · cases hstep
      exact h.rollback t
    · split_ifs at hstep
      · cases hstep
        exact h.rollback t
      · cases hstep
        refine h.step (frame_setPhase _ _) (fun y hy => ?_) fun r hr howner => ?_
        · rw [show (w.setPhase t (.close tenant' account' id reason) .ready).txn t = _ from
            Function.update_self _ _ _] at hy
          cases hy
          exact txnGood_unplanned (h.txns t _ hx).account (fun hfund => by cases hfund) rfl
        · exact absurd howner (h.no_rows hx rfl r hr)
  · cases hstep

theorem planned_appended (request : CapitalRequest) (touched : List UUID) :
    (request.appended touched).planned = some ([], touched) := by
  unfold CapitalRequest.appended
  split_ifs <;> rfl

theorem planned_toAppend (request : CapitalRequest) (touched : List UUID)
    (appends : List LedgerAppend) :
    (request.toAppend touched appends).planned = some (appends, touched) := by
  cases appends with
  | nil => exact planned_appended request touched
  | cons a rest => rfl

theorem view_eq_committed (h : ∀ r ∈ w.rows, r.owner ≠ some t) : w.view t = w.committed := by
  have hfilter : w.rows.filter (fun r => r.owner == none || r.owner == some t) =
      w.rows.filter fun r => r.owner == none := by
    refine List.filter_congr fun r hr => ?_
    have hne := h r hr
    simp [hne]
  simp only [World.view, World.committed, World.tables, hfilter]

theorem FlightInv.planStep {x : Transaction} {lotsOf : String → List (Lot Decimal)}
    (h : FlightInv env tenant account w)
    (hcash : ∀ id, 0 ≤ ((w.committed.projectAccount tenant account).sleeve id).cash.toRat)
    (hx : w.txn t = some x) (hstep : planStep env w t lotsOf x = some w') :
    FlightInv env tenant account w' := by
  obtain ⟨request, phase⟩ := x
  cases phase with
  | ready =>
    have hnone := h.no_rows hx rfl
    have hgood := h.txns t _ hx
    simp only [LlamaTrade.planStep] at hstep
    split at hstep
    · cases hstep
      exact h.rollback t
    · rename_i plan hplan
      cases hstep
      rw [view_eq_committed hnone] at hplan
      obtain ⟨source, a, rest, hsource, happends, hfrom⟩ := plan_from hplan (by
        rw [hgood.account]
        exact hcash)
      refine h.step (frame_setPhase _ _) (fun y hy => ?_) fun r hr howner => ?_
      · rw [show (w.setPhase t request (request.toAppend plan.touched plan.appends)).txn t = _ from
          Function.update_self _ _ _] at hy
        cases hy
        refine ⟨hgood.account, fun hfund _ => hgood.lock hfund (by simp), fun appends touched hp => ?_,
          fun touched tenant' account' id reason hp hclose => ?_⟩
        · rw [planned_toAppend] at hp
          cases hp
          exact ⟨source, hsource, hfrom⟩
        · rw [planned_toAppend, happends] at hp
          cases hp
      · exact absurd howner (hnone r hr)
  | _ => cases hstep

theorem row_of_findEvent {id : UUID} {row : EventRow} (h : (w.view t).findEvent id = some row) :
    ∃ r ∈ w.rows, r.row.eventId = id ∧ (r.owner = none ∨ r.owner = some t) := by
  obtain ⟨r, hr, rfl⟩ := List.mem_map.mp (List.mem_of_find?_eq_some h)
  obtain ⟨hmem, hvisible⟩ := List.mem_filter.mp hr
  refine ⟨r, hmem, by simpa using List.find?_some h, ?_⟩
  simpa using hvisible

theorem PlannedFrom.tail {request : CapitalRequest} {source : UUID} {a : LedgerAppend}
    {rest : List LedgerAppend} (h : PlannedFrom env request source (a :: rest)) :
    PlannedFrom env request source rest where
  credits b hb := h.credits b (List.mem_cons_of_mem _ hb)
  closes tenant account id reason hclose :=
    ⟨(h.closes tenant account id reason hclose).1,
      fun b hb => (h.closes tenant account id reason hclose).2 b (List.mem_cons_of_mem _ hb)⟩

theorem FlightInv.appendStep {x : Transaction} (h : FlightInv env tenant account w)
    (hx : w.txn t = some x) (hstep : appendStep env w t x = some w') :
    FlightInv env tenant account w' := by
  obtain ⟨request, phase⟩ := x
  cases phase with
  | appending a rest touched =>
    have hgood := h.txns t _ hx
    obtain ⟨source, hsource, hfrom⟩ := hgood.planned (a :: rest) touched rfl
    simp only [LlamaTrade.appendStep] at hstep
    split_ifs at hstep with hflight
    split at hstep
    · cases hstep
      exact h.rollback t
    · split at hstep
      · rename_i row hfind
        cases hstep
        have htxn : (w.setPhase t request (request.toAppend touched rest)).txn t =
            some ⟨request, request.toAppend touched rest⟩ := Function.update_self _ _ _
        refine h.step (frame_setPhase _ _) (fun y hy => ?_) fun r hr howner => ?_
        · rw [htxn] at hy
          cases hy
          refine ⟨hgood.account, fun hfund _ => hgood.lock hfund (by simp),
            fun appends touched' hp => ?_, fun touched' tenant' account' id reason hp hclose => ?_⟩
          · rw [planned_toAppend] at hp
            cases hp
            exact ⟨source, hsource, hfrom.tail⟩
          · obtain ⟨r, hr, hid, howner⟩ := row_of_findEvent hfind
            refine ⟨r, hr, ?_, howner⟩
            rw [hid]
            exact (hfrom.closes tenant' account' id reason hclose).2 a List.mem_cons_self
        · obtain ⟨y, hy, hrow⟩ := h.rows r hr t howner
          cases hx.symm.trans hy
          obtain ⟨source', hsource', hcredits⟩ := hrow.credits
          refine ⟨_, htxn, ⟨⟨source', ?_, hcredits⟩, hrow.closes⟩⟩
          rw [Transaction.source, planned_toAppend]
          exact hsource'
      · rename_i hfind
        cases hstep
        have hnew := w.notMem_of_free hflight hfind
        have htxn : ((w.insertRow t a hnew).setPhase t request (request.toAppend touched rest)).txn t =
            some ⟨request, request.toAppend touched rest⟩ := Function.update_self _ _ _
        refine h.step (frame_insertRow hnew _ _) (fun y hy => ?_) fun r hr howner => ?_
        · rw [htxn] at hy
          cases hy
          refine ⟨hgood.account, fun hfund _ => hgood.lock hfund (by simp),
            fun appends touched' hp => ?_, fun touched' tenant' account' id reason hp hclose => ?_⟩
          · rw [planned_toAppend] at hp
            cases hp
            exact ⟨source, hsource, hfrom.tail⟩
          · exact ⟨_, List.mem_append_right _ List.mem_cons_self,
              (hfrom.closes tenant' account' id reason hclose).2 a List.mem_cons_self, .inr rfl⟩
        · rcases List.mem_append.mp hr with hr | hr
          · obtain ⟨y, hy, hrow⟩ := h.rows r hr t howner
            cases hx.symm.trans hy
            obtain ⟨source', hsource', hcredits⟩ := hrow.credits
            refine ⟨_, htxn, ⟨⟨source', ?_, hcredits⟩, hrow.closes⟩⟩
            rw [Transaction.source, planned_toAppend]
            exact hsource'
          · rw [List.mem_singleton.mp hr]
            refine ⟨_, htxn, ⟨⟨source, ?_, fun id hne => ?_⟩, fun tenant' account' id reason hclose => ?_⟩⟩
            · rw [Transaction.source, planned_toAppend]
              exact hsource
            · exact hfrom.credits a List.mem_cons_self id _ hne
            · exact (hfrom.closes tenant' account' id reason hclose).2 a List.mem_cons_self
  | _ => cases hstep

theorem FlightInv.markStep {x : Transaction} (h : FlightInv env tenant account w)
    (hx : w.txn t = some x) (hstep : markStep w t x = some w') : FlightInv env tenant account w' := by
  obtain ⟨request, phase⟩ := x
  unfold LlamaTrade.markStep at hstep
  split at hstep
  · rename_i tenant' account' id reason touched heq
    cases heq
    split_ifs at hstep
    cases hstep
    have hset : FlightInv env tenant account
        (w.setPhase t (.close tenant' account' id reason) (.checking touched)) :=
      h.setPhase hx (by simp) rfl
    exact ⟨fun u y hy => ⟨(hset.txns u y hy).account, (hset.txns u y hy).lock,
      (hset.txns u y hy).planned, (hset.txns u y hy).inserted⟩, hset.rows⟩
  · cases hstep

theorem FlightInv.checkStep {x : Transaction} (h : FlightInv env tenant account w)
    (hx : w.txn t = some x) (hstep : checkStep tenant account w t x = some w') :
    FlightInv env tenant account w' := by
  obtain ⟨request, phase⟩ := x
  cases phase with
  | checking touched =>
    simp only [LlamaTrade.checkStep] at hstep
    split at hstep
    · cases hstep
      exact h.rollback t
    · cases hstep
      exact h.setPhase hx (by simp) rfl
  | _ => cases hstep

end Flight

end LlamaTrade
