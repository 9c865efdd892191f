import LlamaTrade.ClosedSleeves
import LlamaTrade.ConcurrentCapital

/-!
# Races between capital requests

The rows behind those of the start are the late rows. What a transaction saw at its check is
what it sees at its commit, less the rows that other transactions committed in between. As
long as these take nothing out of its source, the check still stands.
-/

namespace LlamaTrade

open Arithmetic Interleaved

/-! ## Late rows -/

section Late

variable (tenant account : UUID)

/-- The events of the account among the rows that pass a test. -/
def accountEvents (rows : List LogRow) (p : LogRow → Bool) : List LedgerEvent :=
  ((rows.filter p).filter fun r => r.row.tenantId = tenant ∧ r.row.accountId = account).map
    (·.row.event)

/-- A row that a statement outside of every transaction sees. -/
def isCommitted (r : LogRow) : Bool := r.owner == none

/-- A row that a statement of the transaction sees. -/
def isVisible (t : ℕ) (r : LogRow) : Bool := r.owner == none || r.owner == some t

variable {tenant account} {p q : LogRow → Bool} {rows : List LogRow}

theorem accountEvents_append (rows rows' : List LogRow) :
    accountEvents tenant account (rows ++ rows') p =
      accountEvents tenant account rows p ++ accountEvents tenant account rows' p := by
  simp only [accountEvents, List.filter_append, List.map_append]

theorem accountEvents_map {f : LogRow → LogRow} (hf : ∀ r, (f r).row = r.row) :
    accountEvents tenant account (rows.map f) p = accountEvents tenant account rows (p ∘ f) := by
  simp only [accountEvents, List.filter_map, List.map_map, Function.comp_def, hf]

/-- Rows that do not pass the test may be deleted. -/
theorem accountEvents_filter (h : ∀ r ∈ rows, p r = true → q r = true) :
    accountEvents tenant account (rows.filter q) p = accountEvents tenant account rows p := by
  have hfilter : (rows.filter q).filter p = rows.filter p := by
    rw [List.filter_filter]
    refine List.filter_congr fun r hr => ?_
    cases hp : p r with
    | true => rw [h r hr hp, Bool.and_self]
    | false => rw [Bool.false_and]
  rw [accountEvents, hfilter, accountEvents]

theorem readAccountEvents_tables (w : World) :
    (w.tables p).readAccountEvents tenant account = accountEvents tenant account w.rows p := by
  simp only [Database.readAccountEvents, World.tables, accountEvents, List.filter_map, List.map_map]
  rfl

theorem accountEvents_quiet {db : Database} (hp : ∀ row, p ⟨row, none⟩ = true) :
    accountEvents tenant account (quiet db).rows p = db.readAccountEvents tenant account := by
  have hall : (quiet db).rows.filter p = (quiet db).rows := by
    refine List.filter_eq_self.mpr fun r hr => ?_
    obtain ⟨row, -, rfl⟩ := List.mem_map.mp hr
    exact hp row
  simp only [Database.readAccountEvents, accountEvents, hall]
  simp only [quiet, List.filter_map, List.map_map]
  rfl

theorem accountEvents_extends {P : LedgerEvent → Prop} (h : ∀ r ∈ rows, p r = true → q r = true)
    (hok : ∀ r ∈ rows, q r = true → p r = false → P r.row.event) :
    Extends P (accountEvents tenant account rows p) (accountEvents tenant account rows q) := by
  unfold accountEvents
  refine @Extends.map _ (fun r : LogRow => P r.row.event) _ P _ (fun _ hr => hr) _ _ ?_
  rw [List.filter_filter, List.filter_filter]
  refine extends_filter (fun r hr hpass => ?_) fun r hr hpass hnot => ?_
  · obtain ⟨hof, hpr⟩ := Bool.and_eq_true_iff.mp hpass
    exact Bool.and_eq_true_iff.mpr ⟨hof, h r hr hpr⟩
  · obtain ⟨hof, hqr⟩ := Bool.and_eq_true_iff.mp hpass
    refine hok r hr hqr ?_
    rw [hof, Bool.true_and] at hnot
    exact hnot

end Late

/-! ## The invariant -/

/-- The projection at the start, as the fold leaves it. -/
def startFold (db : Database) (tenant account : UUID) : FoldState Decimal :=
  foldInto .empty (db.readAccountEvents tenant account)

/-- The late rows fold without poison and leave the sleeve with cash that is not negative. -/
structure SeenGood (s : FoldState Decimal) (events : List LedgerEvent) (id : String) : Prop where
  clean : (foldInto s events).acc.poisonEvents = s.acc.poisonEvents
  nonneg : 0 ≤ ((foldInto s events).acc.sleeve id).cash.toRat

/-- What holds along every run: behind the rows of the start are the late rows, the committed
ones leave no sleeve overdrawn, and what a transaction sees past its check is what it saw
there with credits of its source in between. -/
structure CashInv (env : Platform) (db : Database) (tenant account : UUID) (late : List LogRow)
    (w : World) : Prop where
  flight : FlightInv env tenant account w
  rows : w.rows = (quiet db).rows ++ late
  committed : ∀ id, SeenGood (startFold db tenant account)
    (accountEvents tenant account late isCommitted) id
  checked : ∀ t request touched source, w.txn t = some ⟨request, .checked touched⟩ →
    touched.head? = some source → ∃ seen,
      Extends (Credits source.text) seen (accountEvents tenant account late (isVisible t)) ∧
        SeenGood (startFold db tenant account) seen source.text

section Cash

variable {env : Platform} {db : Database} {tenant account : UUID} {late late' : List LogRow}
  {w w' : World} {t : ℕ}

theorem projectAccount_tables (h : w.rows = (quiet db).rows ++ late) {p : LogRow → Bool}
    (hp : ∀ row, p ⟨row, none⟩ = true) : (w.tables p).projectAccount tenant account =
      (foldInto (startFold db tenant account) (accountEvents tenant account late p)).acc := by
  rw [Database.projectAccount, readAccountEvents_tables, h, accountEvents_append,
    accountEvents_quiet hp, startFold, ← foldInto_append]
  rfl

theorem CashInv.projectAccount_committed (h : CashInv env db tenant account late w) :
    w.committed.projectAccount tenant account = (foldInto (startFold db tenant account)
      (accountEvents tenant account late isCommitted)).acc :=
  projectAccount_tables h.rows fun _ => rfl

theorem CashInv.projectAccount_view (h : CashInv env db tenant account late w) (t : ℕ) :
    (w.view t).projectAccount tenant account = (foldInto (startFold db tenant account)
      (accountEvents tenant account late (isVisible t))).acc :=
  projectAccount_tables h.rows fun _ => rfl

theorem soundCash_startFold (id : String) : SoundCash (startFold db tenant account) id :=
  soundCash_fold _ id

/-- Further credits keep a good state good, if none of them is skipped. -/
theorem SeenGood.extend {s : FoldState Decimal} {seen events : List LedgerEvent} {id : String}
    (h : SeenGood s seen id) (hs : SoundCash s id) (hext : Extends (Credits id) seen events)
    (hclean : (foldInto s events).acc.poisonEvents = s.acc.poisonEvents) : SeenGood s events id :=
  ⟨hclean, le_trans h.nonneg (foldInto_cash_le hext hs hs le_rfl h.clean hclean)⟩

/-- A statement of `t` that shows no row to the others and leaves it before its commit. -/
theorem CashInv.hidden (h : CashInv env db tenant account late w)
    (hflight : FlightInv env tenant account w') (hrows : w'.rows = (quiet db).rows ++ late')
    (hcommitted : accountEvents tenant account late' isCommitted =
      accountEvents tenant account late isCommitted)
    (hvisible : ∀ u, u ≠ t → accountEvents tenant account late' (isVisible u) =
      accountEvents tenant account late (isVisible u))
    (htxn : ∀ u, u ≠ t → w'.txn u = w.txn u)
    (hphase : ∀ request touched, w'.txn t ≠ some ⟨request, .checked touched⟩) :
    CashInv env db tenant account late' w' where
  flight := hflight
  rows := hrows
  committed id := by
    rw [hcommitted]
    exact h.committed id
  checked u request touched source hu hsource := by
    have hne : u ≠ t := by
      rintro rfl
      exact hphase request touched hu
    rw [htxn u hne] at hu
    rw [hvisible u hne]
    exact h.checked u request touched source hu hsource

theorem CashInv.rollback (h : CashInv env db tenant account late w) (t : ℕ) :
    ∃ late', CashInv env db tenant account late' (w.rollback t) := by
  refine ⟨late.filter fun r => r.owner ≠ some t, h.hidden (t := t) (h.flight.rollback t) ?_ ?_
    (fun u hu => ?_) (fun u hu => Function.update_of_ne hu _ _) fun request touched heq => ?_⟩
  · have hquiet : (quiet db).rows.filter (fun r => decide (r.owner ≠ some t)) = (quiet db).rows := by
      refine List.filter_eq_self.mpr fun r hr => ?_
      obtain ⟨row, -, rfl⟩ := List.mem_map.mp hr
      simp
    show w.rows.filter _ = _
    rw [h.rows, List.filter_append, hquiet]
  · refine accountEvents_filter fun r _ hr => ?_
    simp [eq_of_beq hr]
  · refine accountEvents_filter fun r _ hr => ?_
    rcases Bool.or_eq_true_iff.mp hr with hr | hr
    · simp [eq_of_beq hr]
    · simp [eq_of_beq hr, hu]
  · rw [show (w.rollback t).txn t = none from Function.update_self _ _ _] at heq
    cases heq

theorem CashInv.setPhase (h : CashInv env db tenant account late w) {request : CapitalRequest}
    {phase : Phase} (hphase : ∀ touched, phase ≠ .checked touched)
    (hflight : FlightInv env tenant account (w.setPhase t request phase)) :
    CashInv env db tenant account late (w.setPhase t request phase) := by
  refine h.hidden (t := t) hflight h.rows rfl (fun _ _ => rfl)
    (fun u hu => Function.update_of_ne hu _ _) fun request' touched heq => ?_
  rw [show (w.setPhase t request phase).txn t = _ from Function.update_self _ _ _] at heq
  cases heq
  exact hphase touched rfl

theorem CashInv.insertRow (h : CashInv env db tenant account late w) {a : LedgerAppend}
    (hnew : a.eventId ∉ w.rows.map (·.row.eventId)) {request : CapitalRequest} {phase : Phase}
    (hphase : ∀ touched, phase ≠ .checked touched)
    (hflight : FlightInv env tenant account ((w.insertRow t a hnew).setPhase t request phase)) :
    ∃ late', CashInv env db tenant account late'
      ((w.insertRow t a hnew).setPhase t request phase) := by
  refine ⟨late ++ [⟨⟨a.eventId, a.tenantId, a.accountId, a.sleeveId,
    ⟨maxSequence (w.rows.map (·.row.event)) + 1, a.eventType.value, a.data⟩⟩, some t⟩],
    h.hidden (t := t) hflight ?_ ?_ (fun u hu => ?_) (fun u hu => Function.update_of_ne hu _ _)
      fun request' touched heq => ?_⟩
  · rw [← List.append_assoc, ← h.rows]
    rfl
  · rw [accountEvents_append]
    exact List.append_nil _
  · rw [accountEvents_append]
    simp [accountEvents, isVisible, Ne.symm hu]
  · rw [show ((w.insertRow t a hnew).setPhase t request phase).txn t = _ from
      Function.update_self _ _ _] at heq
    cases heq
    exact hphase touched rfl

/-! ## Check and commit -/

theorem sleevesViolations_cash {acc : AccountProjection Decimal} {ids : List String}
    (h : sleevesViolations acc ids = .ok []) {id : String} (hid : id ∈ ids) :
    lt (acc.sleeve id).cash zero = .ok false := by
  induction ids with
  | nil => cases hid
  | cons other ids ih =>
    simp only [sleevesViolations, bind_eq_ok] at h
    obtain ⟨violations, hviolations, others, hothers, h⟩ := h
    obtain ⟨hnil, hrest⟩ := List.append_eq_nil_iff.mp (Except.ok.inj h)
    rcases List.mem_cons.mp hid with rfl | hid
    · simp only [checkSleeveInvariants, bind_eq_ok] at hviolations
      obtain ⟨overdrawn, hcash, _, -, _, -, hviolations⟩ := hviolations
      rw [← Except.ok.inj hviolations, List.append_assoc, List.append_eq_nil_iff] at hnil
      cases overdrawn with
      | true => cases hnil.1
      | false => exact hcash
    · exact ih (hrest ▸ hothers) hid

theorem assertWriteInvariants_cash {acc : AccountProjection Decimal} {ids : List String}
    (h : assertWriteInvariants acc ids = .ok ()) {id : String} (hid : id ∈ ids) :
    lt (acc.sleeve id).cash zero = .ok false := by
  simp only [assertWriteInvariants, bind_eq_ok] at h
  obtain ⟨violations, hviolations, others, -, h⟩ := h
  split_ifs at h with hempty
  have hnil := (List.append_eq_nil_iff.mp (List.isEmpty_iff.mp hempty)).1
  exact sleevesViolations_cash (hnil ▸ hviolations) hid

theorem nonneg_of_not_lt {cash : Decimal} (hfin : cash.isFinite) (h : lt cash zero = .ok false) :
    0 ≤ cash.toRat := by
  have hlt := (Decimal.lt_finite hfin Decimal.isZero_zero.1).symm.trans h
  rw [Decimal.isZero_zero.2] at hlt
  exact not_lt.mp (of_decide_eq_false (Except.ok.inj hlt))

theorem CashInv.check (h : CashInv env db tenant account late w) {request : CapitalRequest}
    {touched : List UUID} (hx : w.txn t = some ⟨request, .checking touched⟩)
    (hclean : ((w.view t).projectAccount tenant account).poisonEvents =
      (db.projectAccount tenant account).poisonEvents)
    (hcheck : assertWriteInvariants ((w.view t).projectAccount tenant account)
      (touched.map UUID.text) = .ok ()) :
    CashInv env db tenant account late (w.setPhase t request (.checked touched)) where
  flight := h.flight.setPhase hx (by simp) rfl
  rows := h.rows
  committed := h.committed
  checked u request' touched' source hu hsource := by
    by_cases hne : u = t
    · subst hne
      rw [show (w.setPhase u request (.checked touched)).txn u = _ from
        Function.update_self _ _ _] at hu
      cases hu
      have hmem : source.text ∈ touched.map UUID.text :=
        List.mem_map_of_mem (List.mem_of_mem_head? hsource)
      have hcash := assertWriteInvariants_cash hcheck hmem
      rw [h.projectAccount_view u] at hclean hcash
      exact ⟨_, Extends.refl _, hclean,
        nonneg_of_not_lt (foldInto_cash_finite (soundCash_startFold _).finite _) hcash⟩
    · rw [show (w.setPhase t request (.checked touched)).txn u = w.txn u from
        Function.update_of_ne hne _ _] at hu
      exact h.checked u request' touched' source hu hsource

/-- Two transactions past their check that take from the same sleeve are a close and a fund
request, or the one has nothing left to append: fund requests hold the lock, and two closes
of a sleeve append the same event. -/
theorem FlightInv.rows_credit (h : FlightInv env tenant account w) {u : ℕ} {x y : Transaction}
    (hx : w.txn t = some x) (hy : w.txn u = some y) (hne : u ≠ t) {touched touched' : List UUID}
    (hxphase : x.phase = .checked touched) (hyphase : y.phase = .checked touched') {source : UUID}
    (hsource : y.source = some source)
    (hrace : x.request.isClose ≠ y.request.isClose → x.source ≠ y.source) :
    ∀ r ∈ w.rows, r.owner = some t → Credits source.text r.row.event := by
  intro r hr howner
  obtain ⟨x', hx', hrow⟩ := h.rows r hr t howner
  cases hx.symm.trans hx'
  obtain ⟨source', hsource', hcredits⟩ := hrow.credits
  by_cases hsame : source' = source
  · subst hsame
    have hkind : x.request.isClose = y.request.isClose := by
      by_contra hkind
      exact hrace hkind (hsource'.trans hsource.symm)
    have hxgood := h.txns t x hx
    have hygood := h.txns u y hy
    cases hclose : x.request.isClose with
    | false =>
      have hlock := hxgood.lock hclose (by simp [hxphase])
      have hlock' := hygood.lock (hkind ▸ hclose) (by simp [hyphase])
      exact absurd (Option.some.inj (hlock'.symm.trans hlock)) hne
    | true =>
      obtain ⟨xr, xphase⟩ := x
      obtain ⟨yr, yphase⟩ := y
      cases xr with
      | close tenant₁ account₁ id₁ reason₁ =>
        cases yr with
        | close tenant₂ account₂ id₂ reason₂ =>
          cases hxphase
          cases hyphase
          obtain ⟨s₁, hs₁, hfrom₁⟩ := hxgood.planned [] touched rfl
          obtain ⟨s₂, hs₂, hfrom₂⟩ := hygood.planned [] touched' rfl
          have hid₁ := (hfrom₁.closes _ _ _ _ rfl).1
          have hid₂ := (hfrom₂.closes _ _ _ _ rfl).1
          have hsrc₁ : s₁ = source' := Option.some.inj (hs₁.symm.trans hsource')
          have hsrc₂ : s₂ = source' := Option.some.inj (hs₂.symm.trans hsource)
          obtain ⟨r', hr', hid', howner'⟩ := hygood.inserted touched' _ _ _ _ rfl rfl
          have hids : r.row.eventId = r'.row.eventId := by
            rw [hrow.closes _ _ _ _ rfl, hid', ← hid₁, ← hid₂, hsrc₁, hsrc₂]
          have heq := List.inj_on_of_nodup_map w.uniqueIds hr hr' hids
          rw [← heq, howner] at howner'
          rcases howner' with howner' | howner'
          · cases howner'
          · exact absurd (Option.some.inj howner').symm hne
        | _ => cases hkind
      | _ => cases hclose
  · exact hcredits source.text fun heq => hsame (UUID.text_injective heq).symm

theorem isVisible_of_isCommitted {r : LogRow} (h : isCommitted r = true) : isVisible t r = true := by
  unfold isVisible
  rw [show (r.owner == none) = true from h, Bool.true_or]

/-- What a transaction sees beyond the committed rows is its own. -/
theorem owner_of_isVisible {r : LogRow} (h : isVisible t r = true) (hnot : isCommitted r = false) :
    r.owner = some t := by
  rcases Bool.or_eq_true_iff.mp h with h | h
  · rw [isCommitted, h] at hnot
    cases hnot
  · exact eq_of_beq h

/-- A row after the commit of a transaction. -/
def LogRow.settled (t : ℕ) (r : LogRow) : LogRow :=
  if r.owner = some t then { r with owner := none } else r

theorem LogRow.settled_row (r : LogRow) : (r.settled t).row = r.row := by
  unfold LogRow.settled
  split_ifs <;> rfl

theorem isCommitted_settled : isCommitted ∘ LogRow.settled t = isVisible t := by
  funext r
  simp only [Function.comp_apply, LogRow.settled]
  by_cases howner : r.owner = some t <;> simp [isCommitted, isVisible, howner]

theorem isVisible_settled (u : ℕ) (r : LogRow) :
    isVisible u (r.settled t) = (isVisible u r || r.owner == some t) := by
  unfold LogRow.settled
  by_cases howner : r.owner = some t <;> simp [isVisible, howner]

theorem CashInv.commit (h : CashInv env db tenant account late w) {request : CapitalRequest}
    {touched : List UUID} (hx : w.txn t = some ⟨request, .checked touched⟩)
    (hclean : ((w.view t).projectAccount tenant account).poisonEvents =
      (db.projectAccount tenant account).poisonEvents)
    (hrace : ∀ u y touched', u ≠ t → w.txn u = some y → y.phase = .checked touched' →
      request.isClose ≠ y.request.isClose →
        (⟨request, .checked touched⟩ : Transaction).source ≠ y.source) :
    CashInv env db tenant account (late.map (LogRow.settled t)) (w.commit t request) := by
  have hmem : ∀ r ∈ late, r ∈ w.rows := fun r hr => h.rows ▸ List.mem_append_right _ hr
  obtain ⟨source, hsource, -⟩ := (h.flight.txns t _ hx).planned [] touched rfl
  rw [h.projectAccount_view t] at hclean
  refine ⟨h.flight.commit t request, ?_, fun id => ?_,
    fun u request' touched' source' hu hsource' => ?_⟩
  · show w.rows.map (LogRow.settled t) = _
    rw [h.rows, List.map_append]
    refine congrArg (· ++ _) ?_
    rw [quiet, List.map_map]
    refine List.map_congr_left fun row _ => ?_
    simp [LogRow.settled]
  · rw [accountEvents_map LogRow.settled_row, isCommitted_settled]
    by_cases hid : id = source.text
    · obtain ⟨seen, hext, hgood⟩ := h.checked t request touched source hx hsource
      rw [hid]
      exact hgood.extend (soundCash_startFold _) hext hclean
    · refine (h.committed id).extend (soundCash_startFold _) (accountEvents_extends
        (fun r _ hr => isVisible_of_isCommitted hr) fun r hr hvisible hnot => ?_) hclean
      obtain ⟨x, hx', hrow⟩ := h.flight.rows r (hmem r hr) t (owner_of_isVisible hvisible hnot)
      cases hx.symm.trans hx'
      obtain ⟨source', hsource', hcredits⟩ := hrow.credits
      cases hsource.symm.trans hsource'
      exact hcredits id hid
  · have hne : u ≠ t := by
      rintro rfl
      rw [show (w.commit u request).txn u = none from Function.update_self _ _ _] at hu
      cases hu
    rw [show (w.commit t request).txn u = w.txn u from Function.update_of_ne hne _ _] at hu
    obtain ⟨seen, hext, hgood⟩ := h.checked u request' touched' source' hu hsource'
    refine ⟨seen, hext.trans ?_, hgood⟩
    rw [accountEvents_map LogRow.settled_row]
    refine accountEvents_extends (fun r _ hr => ?_) fun r hr hvisible hnot => ?_
    · rw [Function.comp_apply, isVisible_settled, hr, Bool.true_or]
    · rw [Function.comp_apply, isVisible_settled, hnot, Bool.false_or] at hvisible
      exact h.flight.rows_credit hx hu hne rfl rfl hsource' (hrace u _ touched' hne hu rfl) r
        (hmem r hr) (eq_of_beq hvisible)

end Cash

/-! ## Runs -/

/-- A check or a commit folds no event as poison that was not so at the start, and at a
commit no fund request and close of the sleeve it takes from are both past their check. -/
def NoRace (tenant account : UUID) (n : ℤ) (w : World) : Statement → Prop
  | .check t => ((w.view t).projectAccount tenant account).poisonEvents = n
  | .commit t => ((w.view t).projectAccount tenant account).poisonEvents = n ∧
      ∀ x u y touched, w.txn t = some x → u ≠ t → w.txn u = some y → y.phase = .checked touched →
        x.request.isClose ≠ y.request.isClose → x.source ≠ y.source
  | _ => True

section Runs

variable {env : Platform} {db : Database} {tenant account : UUID} {w w' : World}

theorem toAppend_ne_checked (request : CapitalRequest) (touched touched' : List UUID)
    (appends : List LedgerAppend) : request.toAppend touched appends ≠ .checked touched' := by
  cases appends with
  | nil =>
    unfold CapitalRequest.toAppend CapitalRequest.appended
    split_ifs <;> simp
  | cons a rest => simp [CapitalRequest.toAppend]

theorem cashInv_step (h : ∃ late, CashInv env db tenant account late w) {a : Statement}
    (hrace : NoRace tenant account (db.projectAccount tenant account).poisonEvents w a)
    (hstep : capitalStep env tenant account w a = some w') :
    ∃ late, CashInv env db tenant account late w' := by
  obtain ⟨late, h⟩ := h
  cases a with
  | start t request =>
    simp only [capitalStep] at hstep
    split_ifs at hstep with hfree
    cases hstep
    exact ⟨late, h.setPhase (by simp) (h.flight.start (Option.isNone_iff_eq_none.mp hfree.1) hfree.2)⟩
  | lock t =>
    obtain ⟨x, hx, hstep⟩ := Option.bind_eq_some_iff.mp hstep
    have hflight := h.flight.lockStep hx hstep
    obtain ⟨request, phase⟩ := x
    cases phase with
    | begun =>
      simp only [lockStep] at hstep
      split_ifs at hstep
      cases hstep
      refine ⟨late, h.hidden (t := t) hflight h.rows rfl (fun _ _ => rfl)
        (fun u hu => Function.update_of_ne hu _ _) fun request' touched heq => ?_⟩
      rw [show (World.txn { w.setPhase t request .ready with lock := some t }) t = _ from
        Function.update_self _ _ _] at heq
      cases heq
    | _ => cases hstep
  | find t =>
    obtain ⟨x, hx, hstep⟩ := Option.bind_eq_some_iff.mp hstep
    have hflight := h.flight.findStep hx hstep
    unfold findStep at hstep
    split at hstep
    · split at hstep
      · cases hstep
        exact h.rollback t
      · split_ifs at hstep
        · cases hstep
          exact h.rollback t
        · cases hstep
          exact ⟨late, h.setPhase (by simp) hflight⟩
    · cases hstep
  | plan t lotsOf =>
    obtain ⟨x, hx, hstep⟩ := Option.bind_eq_some_iff.mp hstep
    have hflight := h.flight.planStep (fun id => by
      rw [h.projectAccount_committed]
      exact (h.committed id).nonneg) hx hstep
    obtain ⟨request, phase⟩ := x
    cases phase with
    | ready =>
      simp only [planStep] at hstep
      split at hstep
      · cases hstep
        exact h.rollback t
      · cases hstep
        exact ⟨late, h.setPhase (fun _ => toAppend_ne_checked _ _ _ _) hflight⟩
    | _ => cases hstep
  | append t =>
    obtain ⟨x, hx, hstep⟩ := Option.bind_eq_some_iff.mp hstep
    have hflight := h.flight.appendStep hx hstep
    obtain ⟨request, phase⟩ := x
    cases phase with
    | appending a rest touched =>
      simp only [appendStep] at hstep
      split_ifs at hstep
      split at hstep
      · cases hstep
        exact h.rollback t
      · split at hstep
        · cases hstep
          exact ⟨late, h.setPhase (fun _ => toAppend_ne_checked _ _ _ _) hflight⟩
        · cases hstep
          exact h.insertRow _ (fun _ => toAppend_ne_checked _ _ _ _) hflight
    | _ => cases hstep
  | mark t =>
    obtain ⟨x, hx, hstep⟩ := Option.bind_eq_some_iff.mp hstep
    have hflight := h.flight.markStep hx hstep
    unfold markStep at hstep
    split at hstep
    · rename_i tenant' account' id reason touched
      split_ifs at hstep
      cases hstep
      refine ⟨late, h.hidden (t := t) hflight h.rows rfl (fun _ _ => rfl)
        (fun u hu => Function.update_of_ne hu _ _) fun request' touched' heq => ?_⟩
      rw [show (World.txn { w.setPhase t (.close tenant' account' id reason) (.checking touched) with
        rowLocks := (id, t) :: w.rowLocks }) t = _ from Function.update_self _ _ _] at heq
      cases heq
    · cases hstep
  | check t =>
    obtain ⟨⟨request, phase⟩, hx, hstep⟩ := Option.bind_eq_some_iff.mp hstep
    cases phase with
    | checking touched =>
      simp only [checkStep] at hstep
      split at hstep
      · cases hstep
        exact h.rollback t
      · rename_i hcheck
        cases hstep
        exact ⟨late, h.check hx hrace hcheck⟩
    | _ => cases hstep
  | commit t =>
    obtain ⟨⟨request, phase⟩, hx, hstep⟩ := Option.bind_eq_some_iff.mp hstep
    cases phase with
    | checked touched =>
      cases hstep
      exact ⟨_, h.commit hx hrace.1 fun u y touched' => hrace.2 _ u y touched' hx⟩
    | _ => cases hstep
  | rollback t =>
    obtain ⟨x, -, hstep⟩ := Option.map_eq_some_iff.mp hstep
    cases hstep
    exact h.rollback t

theorem cashInv_quiet
    (h : ∀ id, lt ((db.projectAccount tenant account).sleeve id).cash zero = .ok false) :
    CashInv env db tenant account [] (quiet db) where
  flight := by
    refine ⟨fun t x hx => ?_, fun r hr t howner => ?_⟩
    · cases hx
    · obtain ⟨row, -, rfl⟩ := List.mem_map.mp hr
      cases howner
  rows := (List.append_nil _).symm
  committed id := ⟨rfl, nonneg_of_not_lt (soundCash_startFold id).finite (h id)⟩
  checked t request touched source hx := by cases hx

/-- A run from a state without negative cash, in which no fund request and close of the
sleeve it takes from are both past their check when one of them commits and no event turns
into poison, commits no negative cash. -/
theorem raceless_runs_keep_cash {as : List Statement}
    (hstart : ∀ id, lt ((db.projectAccount tenant account).sleeve id).cash zero = .ok false)
    (hmeets : Transition.Meets (capitalStep env tenant account)
      (NoRace tenant account (db.projectAccount tenant account).poisonEvents) (quiet db) as)
    (hrun : Transition.run (capitalStep env tenant account) (quiet db) as = some w) (id : String) :
    lt ((w.committed.projectAccount tenant account).sleeve id).cash zero = .ok false := by
  obtain ⟨late, h⟩ := Transition.run_invariant
    (I := fun w => ∃ late, CashInv env db tenant account late w)
    (fun w a w' h hrace hstep => cashInv_step h hrace hstep) ⟨[], cashInv_quiet hstart⟩ hmeets hrun
  rw [h.projectAccount_committed]
  refine (Decimal.lt_finite (foldInto_cash_finite (soundCash_startFold id).finite _)
    Decimal.isZero_zero.1).trans ?_
  rw [Decimal.isZero_zero.2]
  exact congrArg Except.ok (decide_eq_false (not_lt.mpr (h.committed id).nonneg))

end Runs

/-! ## Examples -/

/-- The transaction that executes a statement. -/
def Statement.transaction : Statement → ℕ
  | .start t _ | .lock t | .find t | .plan t _ | .append t | .mark t | .check t | .commit t
  | .rollback t => t

theorem capitalStep_others {env : Platform} {tenant account : UUID} {w w' : World} {a : Statement}
    (h : capitalStep env tenant account w a = some w') {u : ℕ} (hu : u ≠ a.transaction) :
    w'.txn u = w.txn u := by
  have hset : ∀ (t : ℕ) (x : Option Transaction), u ≠ t → Function.update w.txn t x u = w.txn u :=
    fun t x hne => Function.update_of_ne hne _ _
  cases a with
  | start t request =>
    simp only [capitalStep] at h
    split_ifs at h
    cases h
    exact hset t _ hu
  | lock t =>
    obtain ⟨⟨request, phase⟩, hx, h⟩ := Option.bind_eq_some_iff.mp h
    cases phase with
    | begun =>
      simp only [lockStep] at h
      split_ifs at h
      cases h
      exact hset t _ hu
    | _ => cases h
  | find t =>
    obtain ⟨x, hx, h⟩ := Option.bind_eq_some_iff.mp h
    unfold findStep at h
    split at h
    · split at h
      · cases h
        exact hset t _ hu
      · split_ifs at h
        · cases h
          exact hset t _ hu
        · cases h
          exact hset t _ hu
    · cases h
  | plan t lotsOf =>
    obtain ⟨⟨request, phase⟩, hx, h⟩ := Option.bind_eq_some_iff.mp h
    cases phase with
    | ready =>
      simp only [planStep] at h
      split at h
      · cases h
        exact hset t _ hu
      · cases h
        exact hset t _ hu
    | _ => cases h
  | append t =>
    obtain ⟨⟨request, phase⟩, hx, h⟩ := Option.bind_eq_some_iff.mp h
    cases phase with
    | appending a rest touched =>
      simp only [appendStep] at h
      split_ifs at h
      split at h
      · cases h
        exact hset t _ hu
      · split at h
        · cases h
          exact hset t _ hu
        · cases h
          exact hset t _ hu
    | _ => cases h
  | mark t =>
    obtain ⟨x, hx, h⟩ := Option.bind_eq_some_iff.mp h
    unfold markStep at h
    split at h
    · split_ifs at h
      cases h
      exact hset t _ hu
    · cases h
  | check t =>
    obtain ⟨⟨request, phase⟩, hx, h⟩ := Option.bind_eq_some_iff.mp h
    cases phase with
    | checking touched =>
      simp only [checkStep] at h
      split at h
      · cases h
        exact hset t _ hu
      · cases h
        exact hset t _ hu
    | _ => cases h
  | commit t =>
    obtain ⟨⟨request, phase⟩, hx, h⟩ := Option.bind_eq_some_iff.mp h
    cases phase with
    | checked touched =>
      cases h
      exact hset t _ hu
    | _ => cases h
  | rollback t =>
    obtain ⟨x, -, h⟩ := Option.map_eq_some_iff.mp h
    cases h
    exact hset t _ hu

namespace Sample

/-- All of the strategy's cash goes back to the unallocated sleeve. -/
def drainStrategy : CapitalRequest :=
  .transfer ⟨tenant, account, .finite false 1000 0, "", fun _ => 9⟩ strategy unallocated

def shutStrategy : CapitalRequest := .close tenant account strategy none

/-- The close reads the projection after the check of the transfer and before its commit. -/
def racingStatements : List Statement :=
  [.start 0 drainStrategy, .start 1 shutStrategy, .lock 0, .plan 0 fun _ => [], .append 0, .check 0,
    .find 1, .plan 1 fun _ => [], .append 1, .mark 1, .check 1, .commit 0, .commit 1]

/-- The close begins after the commit of the transfer. -/
def serialStatements : List Statement :=
  [.start 0 drainStrategy, .lock 0, .plan 0 fun _ => [], .append 0, .check 0, .commit 0,
    .start 0 shutStrategy, .find 0, .plan 0 fun _ => [], .append 0, .mark 0, .check 0, .commit 0]

/-- The statement is one of the only transaction and sees no poison event. -/
def Alone (w : World) (a : Statement) : Prop :=
  a.transaction = 0 ∧ ((w.view 0).projectAccount tenant account).poisonEvents = 0

instance (w : World) (a : Statement) : Decidable (Alone w a) := inferInstanceAs (Decidable (_ ∧ _))

theorem noRace_of_alone {w : World} {a : Statement} (hnone : ∀ u, u ≠ 0 → w.txn u = none)
    (h : Alone w a) : NoRace tenant account 0 w a := by
  cases a with
  | check t =>
    obtain ⟨rfl, hclean⟩ := h
    exact hclean
  | commit t =>
    obtain ⟨rfl, hclean⟩ := h
    refine ⟨hclean, fun x u y touched _ hu hy => ?_⟩
    rw [hnone u hu] at hy
    cases hy
  | _ => trivial

theorem capital_evaluated :
    (∀ kv ∈ (funded.projectAccount tenant account).sleeves.toList, lt kv.2.cash zero = .ok false) ∧
    (Transition.run (capitalStep closingPlatform tenant account) (quiet funded)
      serialStatements).isSome = true ∧
    Transition.Meets (capitalStep closingPlatform tenant account) Alone (quiet funded)
      serialStatements ∧
    (Transition.run (capitalStep closingPlatform tenant account) (quiet funded)
      racingStatements).map (fun w => lt ((w.committed.projectAccount tenant account).sleeve
        strategy.text).cash zero) = some (.ok true) := by decide +kernel

theorem funded_cash (id : String) :
    lt ((funded.projectAccount tenant account).sleeve id).cash zero = .ok false := by
  unfold AccountProjection.sleeve
  rw [Std.ExtTreeMap.getD_eq_getD_getElem?]
  cases hget : (funded.projectAccount tenant account).sleeves[id]? with
  | none => rfl
  | some s => exact capital_evaluated.1 (id, s) (Std.ExtTreeMap.mem_toList_iff_getElem?_eq_some.mpr hget)

end Sample

theorem raceless_runs_keep_cash_serial :
    ∃ w, Transition.run (capitalStep Sample.closingPlatform Sample.tenant Sample.account)
        (quiet Sample.funded) Sample.serialStatements = some w ∧
      lt ((w.committed.projectAccount Sample.tenant Sample.account).sleeve
        Sample.strategy.text).cash zero = .ok false := by
  obtain ⟨-, hsome, halone, -⟩ := Sample.capital_evaluated
  obtain ⟨w, hrun⟩ := Option.isSome_iff_exists.mp hsome
  have hmeets := Transition.meets_imp (I := fun w : World => ∀ u, u ≠ 0 → w.txn u = none)
    (fun w a w' hnone hok hstep u hu =>
      (capitalStep_others hstep (by rw [hok.1]; exact hu)).trans (hnone u hu))
    (fun w a hnone hok => Sample.noRace_of_alone hnone hok) (fun _ _ => rfl) halone
  exact ⟨w, hrun, raceless_runs_keep_cash Sample.funded_cash hmeets hrun _⟩

/-- The transfer and the close both take the thousand out of the strategy's sleeve. -/
theorem close_overdraws :
    (∀ id, lt ((Sample.funded.projectAccount Sample.tenant Sample.account).sleeve id).cash zero =
      .ok false) ∧
    (Transition.run (capitalStep Sample.closingPlatform Sample.tenant Sample.account)
      (quiet Sample.funded) Sample.racingStatements).map (fun w => lt ((w.committed.projectAccount
        Sample.tenant Sample.account).sleeve Sample.strategy.text).cash zero) = some (.ok true) := by
  exact ⟨Sample.funded_cash, Sample.capital_evaluated.2.2.2⟩

end LlamaTrade
