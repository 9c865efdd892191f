import LlamaTrade.ClosedHoldings
import LlamaTrade.Conservation
import LlamaTrade.FillIngestion

/-!
# Account statements

A statement renders the ledger of one account over a period (`tools/statement.py`): the balances
before the period, each day of activity with the cash it leaves, the balances at the end, and the
check that ties them to the money that entered the account. Events are walked in business time. The
label and the detail of a line come from a parameter, and the text rendering is left out.
-/

namespace LlamaTrade

/-- `StatementEvent`; the business time is in microseconds of UTC. -/
structure StatementEvent where
  occurredAt : ℤ
  eventId : String
  row : LedgerEvent

/-- The calendar day of a time in microseconds. -/
def dayOf (time : ℤ) : ℤ := time / 86400000000

def StatementEvent.day (ev : StatementEvent) : ℤ := dayOf ev.occurredAt

structure SleeveMeta where
  sleeveId : String
  name : String
  type : String
  status : String

structure PositionLine where
  symbol : String
  qty : ℚ
  costBasis : ℚ
  lots : List (ℚ × ℚ)

structure SleeveBalance where
  sleeveId : String
  name : String
  type : String
  status : String
  cash : ℚ
  reserved : ℚ
  positionsCost : ℚ
  realizedPeriod : ℚ
  realizedTotal : ℚ
  positions : List PositionLine
  violations : List InvariantViolation

structure ActivityLine where
  occurredAt : ℤ
  eventId : String
  eventType : String
  sleeveId : Option String
  sleeveName : String
  label : String
  detail : String
  amount : Option ℚ
  realized : Option ℚ
  skipped : Bool

structure DayBlock where
  day : ℤ
  lines : List ActivityLine
  cashAfter : List (String × ℚ)

structure InvariantReport where
  externalFunding : ℚ
  realizedTotal : ℚ
  expectedEquityAtCost : ℚ
  actualEquityAtCost : ℚ
  poisonEvents : ℤ
  sleeveViolations : List (String × InvariantViolation)

def InvariantReport.difference (report : InvariantReport) : ℚ :=
  report.actualEquityAtCost - report.expectedEquityAtCost

structure AccountStatement where
  periodStart : Option ℤ
  periodEnd : Option ℤ
  eventsInPeriod : ℕ
  eventsThroughEnd : ℕ
  opening : List SleeveBalance
  days : List DayBlock
  closing : List SleeveBalance
  invariants : InvariantReport

/-! ## Building a statement -/

section Build

variable (metas : List SleeveMeta) (describe : LedgerEventType → Payload → String × String)

/-- `_short`. -/
def short (value : String) : String := String.ofList (value.toList.take 8)

/-- The entry of a sleeve in the dictionary of the metadata, the last one of its id. -/
def metaOf (sleeve : String) : Option SleeveMeta := metas.reverse.find? (·.sleeveId = sleeve)

/-- `_name`. -/
def sleeveName (sleeve : Option String) : String :=
  match sleeve with
  | none => "-"
  | some id => ((metaOf metas id).map (·.name)).getD (short id)

/-- `_display_order`. -/
def displayOrder (projections : List (AccountProjection ℚ)) : List String :=
  metas.map (·.sleeveId) ++
    (((projections.flatMap fun acc => acc.sleeves.keys).filter fun id =>
      id ∉ metas.map (·.sleeveId)).dedup.insertionSort (· ≤ ·))

/-- `_positions`. -/
def positionLines (sleeve : SleeveProjection ℚ) (lots : String → List (Lot ℚ)) :
    List PositionLine :=
  (sleeve.positions.toList.filter fun x => ¬(x.2.qty = 0 ∧ x.2.costBasis = 0)).map fun x =>
    ⟨x.1, x.2.qty, x.2.costBasis, (lots x.1).map fun lot => (lot.qty, lot.costBasis)⟩

/-- One round of the loop of `_balances`. -/
def sleeveBalance (acc baseline : AccountProjection ℚ) (lots : Option (String → String → List (Lot ℚ)))
    (id : String) : SleeveBalance where
  sleeveId := id
  name := ((metaOf metas id).map (·.name)).getD (short id)
  type := ((metaOf metas id).map (·.type)).getD "unknown"
  status := ((metaOf metas id).map (·.status)).getD "unknown"
  cash := (acc.sleeve id).cash
  reserved := (acc.sleeve id).reserved
  positionsCost := Dict.total (fun p : PositionState ℚ => p.costBasis) (acc.sleeve id).positions
  realizedPeriod := (acc.sleeve id).realizedPnl - (baseline.sleeve id).realizedPnl
  realizedTotal := (acc.sleeve id).realizedPnl
  positions := lots.elim [] fun lots => positionLines (acc.sleeve id) (lots id)
  violations := (checkSleeveInvariants (acc.sleeve id)).toOption.getD []

/-- `_primary_sleeve`. -/
def primarySleeve (data : Payload) (changed : List String) : Option String :=
  ((present data "sleeve_id").or ((present data "to_sleeve_id").or
    (present data "from_sleeve_id"))).elim changed.head? fun value => some value.pyStr

/-- `_snapshot`, with zeros for a sleeve the projection has not seen. -/
def AccountProjection.amounts (acc : AccountProjection ℚ) (id : String) : ℚ × ℚ × ℚ :=
  ((acc.sleeve id).cash, (acc.sleeve id).reserved, (acc.sleeve id).realizedPnl)

/-- The sleeves whose amounts an event changed. -/
def changedSleeves (before after : AccountProjection ℚ) : List String :=
  after.sleeves.keys.filter fun id => after.amounts id ≠ before.amounts id

/-- The line of one event, from the states before and after it. -/
def activityLine (before after : AccountProjection ℚ) (ev : StatementEvent) : ActivityLine :=
  let sleeve := primarySleeve ev.row.data (changedSleeves before after)
  let was := before.amounts (sleeve.getD "")
  let now := after.amounts (sleeve.getD "")
  let skipped : Bool := before.poisonEvents < after.poisonEvents
  let text := match LedgerEventType.coerce ev.row.eventType with
    | .ok t => if skipped then ("SKIPPED", "unreadable event, excluded from balances")
        else describe t ev.row.data
    | .error _ => ("SKIPPED", "unreadable event, excluded from balances")
  { occurredAt := ev.occurredAt
    eventId := ev.eventId
    eventType := ev.row.eventType
    sleeveId := sleeve
    sleeveName := sleeveName metas sleeve
    label := text.1
    detail := text.2
    amount := if now.1 - was.1 ≠ 0 then some (now.1 - was.1)
      else if now.2.1 - was.2.1 ≠ 0 then some (now.2.1 - was.2.1) else none
    realized := if now.2.2 - was.2.2 = 0 then none else some (now.2.2 - was.2.2)
    skipped }

/-- The cash of every sleeve, as a day ends. -/
def cashLines (acc : AccountProjection ℚ) : List (String × ℚ) :=
  (displayOrder metas [acc]).map fun id => (sleeveName metas (some id), (acc.sleeve id).cash)

/-- `_walk_activity`: the lines of the current day are kept until the day changes. -/
def walkActivity (s : FoldState ℚ) (lines : List ActivityLine) :
    Option ℤ → List StatementEvent → List DayBlock
  | none, [] => []
  | some day, [] => [⟨day, lines, cashLines metas s.acc⟩]
  | none, ev :: events =>
    let s' := foldEvent s ev.row
    walkActivity s' [activityLine metas describe s.acc s'.acc ev] (some ev.day) events
  | some day, ev :: events =>
    let s' := foldEvent s ev.row
    let line := activityLine metas describe s.acc s'.acc ev
    if ev.day ≠ day then
      ⟨day, lines, cashLines metas s.acc⟩ :: walkActivity s' [line] (some ev.day) events
    else walkActivity s' (lines ++ [line]) (some day) events

/-- `_external_funding`; an event the fold would skip has no legs. -/
def externalFunding (events : List StatementEvent) : ℚ :=
  (events.map fun ev => (((eventLegs ev.row).filter (·.bucket = .external)).map (-·.amount)).sum).sum

/-- `_invariants`. -/
def invariantReport (acc : AccountProjection ℚ) (events : List StatementEvent)
    (closing : List SleeveBalance) : InvariantReport :=
  let realized := (closing.map (·.realizedTotal)).sum
  { externalFunding := externalFunding events
    realizedTotal := realized
    expectedEquityAtCost := externalFunding events + realized
    actualEquityAtCost := (closing.map (·.cash)).sum + (closing.map (·.positionsCost)).sum
    poisonEvents := acc.poisonEvents
    sleeveViolations := closing.flatMap fun balance =>
      balance.violations.map fun violation => (balance.name, violation) }

def byBusinessTime (events : List StatementEvent) : List StatementEvent :=
  events.insertionSort fun a b => a.occurredAt ≤ b.occurredAt

/-- `period_start is not None and day < period_start`. -/
def precedes (start : Option ℤ) (ev : StatementEvent) : Bool := start.any (ev.day < ·)

/-- `period_end is None or day <= period_end`. -/
def isThrough (stop : Option ℤ) (ev : StatementEvent) : Bool := stop.all (ev.day ≤ ·)

def priorEvents (start : Option ℤ) (events : List StatementEvent) : List StatementEvent :=
  (byBusinessTime events).filter (precedes start)

def periodEvents (start stop : Option ℤ) (events : List StatementEvent) : List StatementEvent :=
  (byBusinessTime events).filter fun ev => !precedes start ev && isThrough stop ev

def foldRows (s : FoldState ℚ) (events : List StatementEvent) : FoldState ℚ :=
  foldInto s (events.map (·.row))

/-- `build_statement`. -/
def buildStatement (events : List StatementEvent) (start stop : Option ℤ) : AccountStatement :=
  let prior := priorEvents start events
  let within := periodEvents start stop events
  let openingState := foldRows .empty prior
  let closingState := foldRows openingState within
  let order := displayOrder metas [openingState.acc, closingState.acc]
  let closing := order.map (sleeveBalance metas closingState.acc openingState.acc
    (some (openLots ((prior ++ within).map (·.row)))))
  { periodStart := start
    periodEnd := stop
    eventsInPeriod := within.length
    eventsThroughEnd := (prior ++ within).length
    opening := order.map (sleeveBalance metas openingState.acc .empty none)
    days := walkActivity metas describe openingState [] none within
    closing
    invariants := invariantReport closingState.acc (prior ++ within) closing }

end Build

/-! ## The conservation check -/

section Balanced

/-- What a sleeve adds to the check: cash and positions at cost, less realized profit. -/
def SleeveProjection.atCost (s : SleeveProjection ℚ) : ℚ :=
  s.cash + Dict.total (fun p : PositionState ℚ => p.costBasis) s.positions - s.realizedPnl

theorem atCost_empty : (SleeveProjection.empty : SleeveProjection ℚ).atCost = 0 := by
  simp [SleeveProjection.atCost, SleeveProjection.empty]

/-- A leg of a sleeve adds its amount, whatever its bucket. -/
theorem atCost_post {p : Posting ℚ} (h : p.WellFormed) (hid : p.sleeveId ≠ none)
    (s : SleeveProjection ℚ) : (s.post p).atCost = s.atCost + p.amount := by
  obtain ⟨sleeveId, bucket, amount, symbol, qty⟩ := p
  cases bucket with
  | cash =>
    simp only [SleeveProjection.post, SleeveProjection.atCost]
    ring
  | pnl =>
    simp only [SleeveProjection.post, SleeveProjection.atCost]
    ring
  | external => exact absurd (h.1.mpr rfl) hid
  | position =>
    cases symbol with
    | none => exact absurd rfl (h.2 rfl)
    | some symbol =>
      have hcost := Dict.total_insert (fun p : PositionState ℚ => p.costBasis) s.positions symbol
        ⟨(s.position symbol).qty + qty.getD 0, (s.position symbol).costBasis + amount⟩
      rw [Dict.elim_getD (x := PositionState.empty) _ s.positions symbol rfl] at hcost
      have hpos : (s.positions.getD symbol PositionState.empty).costBasis =
          (s.position symbol).costBasis := rfl
      simp only [SleeveProjection.post, SleeveProjection.atCost, SleeveProjection.setPosition, hcost,
        hpos]
      ring

/-- The legs of the sleeves move the sum by their amounts. -/
theorem atCost_applyPostings {ps : List (Posting ℚ)} (h : ∀ p ∈ ps, p.WellFormed)
    (acc : AccountProjection ℚ) :
    (applyPostings acc ps).1.total SleeveProjection.atCost = acc.total SleeveProjection.atCost +
      (ps.map fun p => if p.bucket = .external then 0 else p.amount).sum := by
  induction ps generalizing acc with
  | nil => simp [applyPostings]
  | cons p ps ih =>
    obtain ⟨hp, hps⟩ := List.forall_mem_cons.mp h
    cases hid : p.sleeveId with
    | none =>
      have hskip : applyPosting acc p = (acc, none) := by simp [applyPosting, hid]
      rw [applyPostings, hskip, Attempt.andThen_none, ih hps, List.map_cons, List.sum_cons,
        if_pos (hp.1.mp hid), zero_add]
    | some id =>
      obtain ⟨hnone, -, htotal⟩ := applyPosting_post acc hid atCost_empty
      have hpair : applyPosting acc p = ((applyPosting acc p).1, none) := by rw [← hnone]
      have hinner : ¬p.bucket = .external := fun hb => by simp [hp.1.mpr hb] at hid
      rw [applyPostings, hpair, Attempt.andThen_none, ih hps, htotal,
        atCost_post hp (by simp [hid]), List.map_cons, List.sum_cons, if_neg hinner]
      ring

theorem atCost_setSleeve (acc : AccountProjection ℚ) {id : String} {s : SleeveProjection ℚ}
    (h : s.atCost = (acc.sleeve id).atCost) :
    (acc.setSleeve id s).total SleeveProjection.atCost = acc.total SleeveProjection.atCost := by
  rw [total_setSleeve atCost_empty, h, sub_add_cancel]

/-- Reservations are not part of the sum. -/
theorem atCost_applyReservation (s : FoldState ℚ) (t : LedgerEventType) (data : Payload) :
    (applyReservation s t data).1.acc.total SleeveProjection.atCost =
      s.acc.total SleeveProjection.atCost := by
  have hreserve : ∀ coid, (reserve s coid data).1.acc.total SleeveProjection.atCost =
      s.acc.total SleeveProjection.atCost := by
    intro coid
    unfold reserve
    split_ifs
    · rfl
    · split
      · rfl
      · cases Arithmetic.parse (D := ℚ) (data.get "reserved").pyStr with
        | error e => rfl
        | ok amount => exact atCost_setSleeve _ rfl
  have hrelease : ∀ coid, (release s coid).1.acc.total SleeveProjection.atCost =
      s.acc.total SleeveProjection.atCost := by
    intro coid
    unfold release
    dsimp only
    split
    · rfl
    · exact atCost_setSleeve _ rfl
  unfold applyReservation
  split
  · rfl
  · split_ifs
    · exact hreserve _
    · exact hrelease _
    · rfl

/-- The legs of an event name a sleeve or stand at the boundary, and cancel. -/
theorem eventLegs_sound (ev : LedgerEvent) :
    (∀ p ∈ eventLegs ev, p.WellFormed) ∧ ((eventLegs ev).map (·.amount)).sum = 0 := by
  unfold eventLegs
  split
  · simp
  · next t _ =>
    split
    · simp
    · next ps hps =>
      refine ⟨buildPostings_wellFormed (build_of_validated hps), ?_⟩
      simp only [validatedPostings, bind_eq_ok] at hps
      obtain ⟨built, -, hps⟩ := hps
      split_ifs at hps with hempty
      · cases hps
        rw [List.isEmpty_iff.mp hempty]
        rfl
      · simp only [bind_eq_ok] at hps
        obtain ⟨_, hbalanced, hps⟩ := hps
        cases hps
        simp only [assertBalanced, ExactNumber.sum_eq, ok_bind, ExactNumber.eq_eq,
          ExactNumber.zero_eq] at hbalanced
        split_ifs at hbalanced with hzero
        exact beq_iff_eq.mp hzero

/-- What one event brings into the account. -/
def eventFunding (ev : LedgerEvent) : ℚ :=
  (((eventLegs ev).filter (·.bucket = .external)).map (-·.amount)).sum

/-- The legs of the sleeves add up to what stands at the boundary. -/
theorem sum_inner (ps : List (Posting ℚ)) :
    (ps.map fun p => if p.bucket = .external then 0 else p.amount).sum =
      (ps.map (·.amount)).sum + ((ps.filter (·.bucket = .external)).map (-·.amount)).sum := by
  induction ps with
  | nil => simp
  | cons p ps ih =>
    rw [List.map_cons, List.sum_cons, ih, List.map_cons, List.sum_cons]
    by_cases hb : p.bucket = .external
    · rw [if_pos hb, List.filter_cons_of_pos (by simpa using hb), List.map_cons, List.sum_cons]
      ring
    · rw [if_neg hb, List.filter_cons_of_neg (by simpa using hb)]
      ring

theorem atCost_foldEvent (s : FoldState ℚ) (ev : LedgerEvent) :
    (foldEvent s ev).acc.total SleeveProjection.atCost =
      s.acc.total SleeveProjection.atCost + eventFunding ev := by
  have hacc : (foldEvent s ev).acc.total SleeveProjection.atCost =
      (applyEvent s ev).1.acc.total SleeveProjection.atCost := by
    unfold foldEvent
    obtain ⟨s', err⟩ := applyEvent s ev
    cases err <;> rfl
  obtain ⟨hwell, hsum⟩ := eventLegs_sound ev
  have hinner := sum_inner (eventLegs ev)
  rw [hsum, zero_add] at hinner
  rw [hacc, eventFunding, ← hinner]
  unfold applyEvent
  unfold eventLegs at hwell ⊢
  cases ht : LedgerEventType.coerce ev.eventType with
  | error e => simp
  | ok t =>
    simp only [ht, Attempt.guarded_ok] at hwell ⊢
    cases hps : validatedPostings (D := ℚ) t ev.data with
    | error e => simp
    | ok ps =>
      simp only [hps, Attempt.guarded_ok] at hwell ⊢
      have hres := atCost_applyReservation s t ev.data
      by_cases hsub : t = .orderSubmitted
      · subst hsub
        have hnone : ps = [] := by
          have hbuild := build_of_validated hps
          cases hbuild
          rfl
        subst hnone
        rw [List.map_nil, List.sum_nil, add_zero, ← hres]
        cases applyReservation s .orderSubmitted ev.data with
        | mk s' err => cases err <;> rfl
      · have hok := applyReservation_exact s ev.data hsub
        have hpair : applyReservation s t ev.data = ((applyReservation s t ev.data).1, none) := by
          rw [← hok]
        rw [hpair, Attempt.andThen_none, ← hres]
        exact atCost_applyPostings hwell _

/-- The fold of a log holds what the log brought in. -/
theorem atCost_foldRows (s : FoldState ℚ) (events : List StatementEvent) :
    (foldRows s events).acc.total SleeveProjection.atCost =
      s.acc.total SleeveProjection.atCost + externalFunding events := by
  induction events generalizing s with
  | nil => simp [foldRows, externalFunding]
  | cons ev events ih =>
    have hrest := ih (foldEvent s ev.row)
    rw [atCost_foldEvent, add_assoc] at hrest
    exact hrest

/-- A list of sleeves with every sleeve of the account, each once, sums over the account. -/
theorem sum_sleeves {f : SleeveProjection ℚ → ℚ} (hempty : f .empty = 0) (acc : AccountProjection ℚ)
    {order : List String} (hnodup : order.Nodup) (hall : ∀ id, id ∈ acc.sleeves → id ∈ order) :
    (order.map fun id => f (acc.sleeve id)).sum = acc.total f := by
  have hdrop : ∀ l : List String, (l.map fun id => f (acc.sleeve id)).sum =
      ((l.filter (· ∈ acc.sleeves)).map fun id => f (acc.sleeve id)).sum := by
    intro l
    induction l with
    | nil => rfl
    | cons id l ih =>
      by_cases hid : id ∈ acc.sleeves
      · rw [List.filter_cons_of_pos (by simpa using hid), List.map_cons, List.sum_cons, ih,
          List.map_cons, List.sum_cons]
      · have hzero : acc.sleeve id = .empty := Std.ExtTreeMap.getD_eq_fallback hid
        rw [List.filter_cons_of_neg (by simpa using hid), List.map_cons, List.sum_cons, hzero,
          hempty, zero_add, ih]
  have hkeys : acc.sleeves.keys.Nodup := by
    refine Std.ExtTreeMap.distinct_keys.imp fun h heq => h ?_
    rw [heq]
    exact Std.ReflCmp.compare_self
  have hperm : (order.filter (· ∈ acc.sleeves)).Perm acc.sleeves.keys := by
    refine (List.perm_ext_iff_of_nodup (hnodup.filter _) hkeys).mpr fun id => ?_
    rw [List.mem_filter, Std.ExtTreeMap.mem_keys]
    constructor
    · intro h
      simpa using h.2
    · intro h
      exact ⟨hall id h, by simpa using h⟩
  have hlist : acc.sleeves.keys.map (fun id => f (acc.sleeve id)) =
      acc.sleeves.toList.map fun x => f x.2 := by
    rw [← Std.ExtTreeMap.map_fst_toList_eq_keys, List.map_map]
    refine List.map_congr_left fun x hx => ?_
    have hget : acc.sleeves[x.1]? = some x.2 := Std.ExtTreeMap.mem_toList_iff_getElem?_eq_some.mp hx
    rw [Function.comp_apply, AccountProjection.sleeve, Std.ExtTreeMap.getD_eq_getD_getElem?, hget,
      Option.getD_some]
  rw [hdrop, (hperm.map _).sum_eq, hlist, AccountProjection.total, Dict.gather]

section Orders

variable {metas : List SleeveMeta} {projections : List (AccountProjection ℚ)}

theorem nodup_displayOrder (h : (metas.map (·.sleeveId)).Nodup) :
    (displayOrder metas projections).Nodup := by
  refine List.nodup_append.mpr ⟨h, ?_, ?_⟩
  · exact (List.perm_insertionSort _ _).nodup_iff.mpr (List.nodup_dedup _)
  · intro a ha b hb hab
    rw [List.mem_insertionSort, List.mem_dedup, List.mem_filter] at hb
    have hout : b ∉ metas.map (·.sleeveId) := by simpa using hb.2
    exact hout (hab ▸ ha)

/-- Every sleeve of the projections is displayed. -/
theorem mem_displayOrder {acc : AccountProjection ℚ} (hacc : acc ∈ projections) {id : String}
    (hid : id ∈ acc.sleeves) : id ∈ displayOrder metas projections := by
  by_cases hknown : id ∈ metas.map (·.sleeveId)
  · exact List.mem_append_left _ hknown
  · refine List.mem_append_right _ ?_
    rw [List.mem_insertionSort, List.mem_dedup, List.mem_filter]
    refine ⟨List.mem_flatMap.mpr ⟨acc, hacc, Std.ExtTreeMap.mem_keys.mpr hid⟩, ?_⟩
    simpa using hknown

end Orders

namespace Sample

/-- Lines without label and detail. -/
def noText (_ : LedgerEventType) (_ : Payload) : String × String := ("", "")

end Sample

end Balanced

end LlamaTrade
