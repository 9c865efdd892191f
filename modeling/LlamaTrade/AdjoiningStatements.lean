import LlamaTrade.AccountStatements

/-!
# Statements of adjoining periods

The days of a statement are the calendar days of its events, and each is closed with the cash that
the log leaves through that day. Statements of adjoining periods fit together: the second opens with
the balances the first closes with, and the statement of both periods has their days, one after the
other, the closing balances of the second and the profit of both.
-/

namespace LlamaTrade

/-! ## Filters of sorted lists -/

section Filters

variable {α : Type} {key : α → ℤ} {p q : α → Bool} {l : List α}

/-- Two parts of a sorted list, the first before the second, make up the part with both. -/
theorem filter_append_filter (hsorted : l.Pairwise fun a b => key a ≤ key b)
    (hpq : ∀ a b, p a → q b → key a < key b) :
    l.filter p ++ l.filter q = l.filter fun a => p a || q a := by
  induction l with
  | nil => rfl
  | cons a l ih =>
    obtain ⟨ha, hsorted⟩ := List.pairwise_cons.mp hsorted
    have hrest := ih hsorted
    cases hp : p a with
    | true =>
      have hq : q a = false := by
        by_contra hq
        exact lt_irrefl _ (hpq a a hp (by simpa using hq))
      rw [List.filter_cons_of_pos hp, List.filter_cons_of_neg (by simp [hq]),
        List.filter_cons_of_pos (by simp [hp]), List.cons_append, hrest]
    | false =>
      rw [List.filter_cons_of_neg (by simp [hp])]
      cases hq : q a with
      | true =>
        have hnone : l.filter p = [] := by
          refine List.filter_eq_nil_iff.mpr fun b hb hpb => ?_
          exact absurd (hpq b a hpb hq) (not_lt.mpr (ha b hb))
        rw [hnone, List.nil_append] at hrest ⊢
        rw [List.filter_cons_of_pos hq, List.filter_cons_of_pos (by simp [hq]), hrest]
      | false =>
        rw [List.filter_cons_of_neg (by simp [hq]), List.filter_cons_of_neg (by simp [hp, hq]), hrest]

end Filters

/-! ## The periods of a log -/

section Periods

variable {events : List StatementEvent} {start stop : Option ℤ} {day : ℤ}

@[simp] theorem precedes_some (a : ℤ) (ev : StatementEvent) :
    precedes (some a) ev = decide (ev.day < a) := rfl

@[simp] theorem isThrough_some (b : ℤ) (ev : StatementEvent) :
    isThrough (some b) ev = decide (ev.day ≤ b) := rfl

/-- An event is through the end of a period if it is through a day before that end. -/
theorem isThrough_of_le (hstop : ∀ b ∈ stop, day ≤ b) {ev : StatementEvent} (h : ev.day ≤ day) :
    isThrough stop ev = true := by
  cases stop with
  | none => rfl
  | some b => simpa using h.trans (hstop b rfl)

theorem dayOf_mono {a b : ℤ} (h : a ≤ b) : dayOf a ≤ dayOf b :=
  Int.ediv_le_ediv (by norm_num) h

theorem byBusinessTime_sorted (events : List StatementEvent) :
    (byBusinessTime events).Pairwise fun a b => a.day ≤ b.day := by
  have htotal : Std.Total fun a b : StatementEvent => a.occurredAt ≤ b.occurredAt :=
    ⟨fun a b => le_total a.occurredAt b.occurredAt⟩
  have htrans : IsTrans StatementEvent fun a b => a.occurredAt ≤ b.occurredAt :=
    ⟨fun _ _ _ hab hbc => le_trans hab hbc⟩
  have hsorted := List.pairwise_insertionSort (fun a b : StatementEvent =>
    a.occurredAt ≤ b.occurredAt) events
  exact hsorted.imp dayOf_mono

/-- What precedes the next day is what precedes the period, then what lies in it. -/
theorem priorEvents_next (hstart : ∀ a ∈ start, a ≤ day + 1) :
    priorEvents (some (day + 1)) events =
      priorEvents start events ++ periodEvents start (some day) events := by
  unfold priorEvents periodEvents
  rw [filter_append_filter (byBusinessTime_sorted events)]
  · refine List.filter_congr fun ev _ => ?_
    cases start with
    | none => simp [precedes, isThrough, Int.lt_add_one_iff]
    | some a =>
      have ha := hstart a rfl
      simp only [precedes, isThrough, Option.any_some, Option.all_some]
      by_cases h : ev.day < a
      · simp [h, h.trans_le ha]
      · simp [h, Int.lt_add_one_iff]
  · intro a b ha hb
    cases start with
    | none => simp [precedes] at ha
    | some s =>
      simp only [precedes, Option.any_some, decide_eq_true_eq, Bool.and_eq_true, Bool.not_eq_true',
        decide_eq_false_iff_not, not_lt] at ha hb
      exact ha.trans_le hb.1

/-- A period is its first part and the rest of it. -/
theorem periodEvents_split (hstart : ∀ a ∈ start, a ≤ day + 1) (hstop : ∀ b ∈ stop, day ≤ b) :
    periodEvents start stop events =
      periodEvents start (some day) events ++ periodEvents (some (day + 1)) stop events := by
  rw [periodEvents, periodEvents, periodEvents,
    filter_append_filter (byBusinessTime_sorted events)]
  · refine List.filter_congr fun ev _ => ?_
    by_cases h : ev.day ≤ day
    · simp [isThrough_of_le hstop h, h, Int.lt_add_one_iff]
    · have hprec : precedes start ev = false := by
        cases start with
        | none => rfl
        | some a =>
          have ha := hstart a rfl
          simp only [precedes_some, decide_eq_false_iff_not, not_lt]
          omega
      simp [hprec, h, Int.lt_add_one_iff]
  · intro a b ha hb
    simp only [isThrough_some, precedes_some, Bool.and_eq_true, decide_eq_true_eq,
      Bool.not_eq_true', decide_eq_false_iff_not, not_lt] at ha hb
    omega

/-- The whole log through a day, for a day of the period. -/
theorem through_day (hstart : ∀ a ∈ start, a ≤ day) (hstop : ∀ b ∈ stop, day ≤ b) :
    priorEvents start events ++ (periodEvents start stop events).filter (·.day ≤ day) =
      (byBusinessTime events).filter (·.day ≤ day) := by
  have hpart : (periodEvents start stop events).filter (·.day ≤ day) =
      periodEvents start (some day) events := by
    rw [periodEvents, List.filter_filter, periodEvents]
    refine List.filter_congr fun ev _ => ?_
    by_cases h : ev.day ≤ day
    · simp [h, isThrough_of_le hstop h]
    · simp [h]
  rw [hpart, ← priorEvents_next fun a ha => (hstart a ha).trans (by omega), priorEvents]
  refine List.filter_congr fun ev _ => ?_
  simp [precedes, Int.lt_add_one_iff]

end Periods

/-! ## The walk -/

section Walk

variable {metas : List SleeveMeta} {describe : LedgerEventType → Payload → String × String}

theorem foldRows_append (s : FoldState ℚ) (a b : List StatementEvent) :
    foldRows s (a ++ b) = foldRows (foldRows s a) b := by
  rw [foldRows, List.map_append, foldInto_append]
  rfl

/-- One event of a walk in which a day has begun. -/
theorem walkActivity_cons (s : FoldState ℚ) (lines : List ActivityLine) (day : ℤ)
    (ev : StatementEvent) (events : List StatementEvent) :
    walkActivity metas describe s lines (some day) (ev :: events) =
      if ev.day ≠ day then
        ⟨day, lines, cashLines metas s.acc⟩ :: walkActivity metas describe (foldEvent s ev.row)
          [activityLine metas describe s.acc (foldEvent s ev.row).acc ev] (some ev.day) events
      else walkActivity metas describe (foldEvent s ev.row)
        (lines ++ [activityLine metas describe s.acc (foldEvent s ev.row).acc ev]) (some day)
          events := rfl

/-- Where no day is in both parts, the walk of a list is the walks of its parts. -/
theorem walkActivity_append {s : FoldState ℚ} {lines : List ActivityLine} {current : Option ℤ}
    {a b : List StatementEvent} (hdays : ∀ e ∈ a, ∀ ev ∈ b, e.day ≠ ev.day)
    (hcurrent : ∀ day ∈ current, ∀ ev ∈ b, ev.day ≠ day) :
    walkActivity metas describe s lines current (a ++ b) =
      walkActivity metas describe s lines current a ++
        walkActivity metas describe (foldRows s a) [] none b := by
  induction a generalizing s lines current with
  | nil =>
    cases current with
    | none => cases b <;> rfl
    | some day =>
      cases b with
      | nil => rfl
      | cons ev b =>
        have hne : ev.day ≠ day := hcurrent day rfl ev (List.mem_cons_self ..)
        rw [List.nil_append, walkActivity_cons, if_pos hne]
        rfl
  | cons e a ih =>
    have hrest : ∀ e' ∈ a, ∀ ev ∈ b, e'.day ≠ ev.day := fun e' he' =>
      hdays e' (List.mem_cons_of_mem _ he')
    have hnext : ∀ day ∈ some e.day, ∀ ev ∈ b, ev.day ≠ day := by
      intro day hday ev hev
      obtain rfl := Option.mem_some_iff.mp hday
      exact (hdays e (List.mem_cons_self ..) ev hev).symm
    cases current with
    | none => exact ih hrest hnext
    | some day =>
      rw [List.cons_append, walkActivity_cons, walkActivity_cons]
      split_ifs with hday
      · rw [List.cons_append, ih hrest hnext]
        rfl
      · exact ih hrest hcurrent

/-- Each block of a walk has the lines of one day and the cash of the events through it. -/
structure WalkedDays (metas : List SleeveMeta) (s : FoldState ℚ) (events : List StatementEvent)
    (blocks : List DayBlock) : Prop where
  increasing : blocks.Pairwise fun a b => a.day < b.day
  ofDay : ∀ block ∈ blocks, ∀ line ∈ block.lines, dayOf line.occurredAt = block.day
  cash : ∀ block ∈ blocks, block.cashAfter =
    cashLines metas (foldRows s (events.filter (·.day ≤ block.day))).acc
  days : ∀ block ∈ blocks, ∃ ev ∈ events, ev.day = block.day

/-- The events through a day are none where all are later. -/
theorem filter_of_later {events : List StatementEvent} {day : ℤ}
    (h : ∀ ev ∈ events, day < ev.day) : events.filter (·.day ≤ day) = [] := by
  refine List.filter_eq_nil_iff.mpr fun ev hev hle => ?_
  exact absurd (h ev hev) (by simpa using hle)

/-- The walk with a day begun, whose events are those before and the lines kept. -/
theorem walk_begun {s₀ s : FoldState ℚ} {done events : List StatementEvent} {day : ℤ}
    {lines : List ActivityLine} (hs : s = foldRows s₀ done)
    (hsorted : events.Pairwise fun a b => a.day ≤ b.day) (hle : ∀ ev ∈ events, day ≤ ev.day)
    (hdone : ∀ ev ∈ done, ev.day ≤ day) (hbegun : ∃ ev ∈ done, ev.day = day)
    (hlines : ∀ line ∈ lines, dayOf line.occurredAt = day) :
    (∀ block ∈ walkActivity metas describe s lines (some day) events, day ≤ block.day) ∧
      WalkedDays metas s₀ (done ++ events)
        (walkActivity metas describe s lines (some day) events) ∧
      ((walkActivity metas describe s lines (some day) events).flatMap (·.lines)).map (·.eventId) =
        lines.map (·.eventId) ++ events.map (·.eventId) := by
  induction events generalizing s done day lines with
  | nil =>
    have hfilter : (done ++ []).filter (·.day ≤ day) = done := by
      rw [List.append_nil]
      exact List.filter_eq_self.mpr fun ev hev => by simpa using hdone ev hev
    refine ⟨?_, ⟨?_, ?_, ?_, ?_⟩, ?_⟩
    · simp [walkActivity]
    · simp [walkActivity]
    · simpa [walkActivity] using hlines
    · intro block hblock
      obtain rfl := List.mem_singleton.mp hblock
      rw [hfilter, ← hs]
    · intro block hblock
      obtain rfl := List.mem_singleton.mp hblock
      simpa using hbegun
    · simp [walkActivity]
  | cons ev events ih =>
    obtain ⟨hev, hsorted⟩ := List.pairwise_cons.mp hsorted
    obtain ⟨hday, hle⟩ := List.forall_mem_cons.mp hle
    have hstep : foldEvent s ev.row = foldRows s₀ (done ++ [ev]) := by
      rw [foldRows_append, ← hs]
      rfl
    have hlater : ∀ e ∈ done ++ [ev], e.day ≤ ev.day := by
      intro e he
      rcases List.mem_append.mp he with he | he
      · exact (hdone e he).trans hday
      · obtain rfl := List.mem_singleton.mp he
        exact le_rfl
    rw [show done ++ ev :: events = (done ++ [ev]) ++ events by simp]
    rw [walkActivity_cons]
    split_ifs with hnew
    · have hlt : day < ev.day := lt_of_le_of_ne hday (Ne.symm hnew)
      obtain ⟨hfirst, hwalked, hids⟩ := @ih _ _ _
        [activityLine metas describe s.acc (foldEvent s ev.row).acc ev] hstep hsorted hev hlater
        ⟨ev, by simp, rfl⟩ (by simp [activityLine, StatementEvent.day])
      refine ⟨?_, ⟨?_, ?_, ?_, ?_⟩, ?_⟩
      · intro block hblock
        rcases List.mem_cons.mp hblock with rfl | hblock
        · exact le_rfl
        · exact hlt.le.trans (hfirst block hblock)
      · exact List.pairwise_cons.mpr ⟨fun block hblock => hlt.trans_le (hfirst block hblock),
          hwalked.increasing⟩
      · intro block hblock
        rcases List.mem_cons.mp hblock with rfl | hblock
        · exact hlines
        · exact hwalked.ofDay block hblock
      · intro block hblock
        rcases List.mem_cons.mp hblock with rfl | hblock
        · have hrest : ((done ++ [ev]) ++ events).filter (·.day ≤ day) = done := by
            rw [List.append_assoc, List.filter_append, @filter_of_later ([ev] ++ events) day,
              List.append_nil]
            · exact List.filter_eq_self.mpr fun e he => by simpa using hdone e he
            · intro e he
              rcases List.mem_append.mp he with he | he
              · obtain rfl := List.mem_singleton.mp he
                exact hlt
              · exact hlt.trans_le (hev e he)
          rw [hrest, ← hs]
        · exact hwalked.cash block hblock
      · intro block hblock
        rcases List.mem_cons.mp hblock with rfl | hblock
        · obtain ⟨e, he, heq⟩ := hbegun
          exact ⟨e, by simp [he], heq⟩
        · exact hwalked.days block hblock
      · rw [List.flatMap_cons, List.map_append, hids]
        simp [activityLine]
    · have heq : ev.day = day := not_not.mp hnew
      obtain ⟨hfirst, hwalked, hids⟩ := @ih _ _ day
        (lines ++ [activityLine metas describe s.acc (foldEvent s ev.row).acc ev]) hstep hsorted hle
        (fun e he => (hlater e he).trans heq.le) ⟨ev, by simp, heq⟩ (by
          intro line hline
          rcases List.mem_append.mp hline with hline | hline
          · exact hlines line hline
          · obtain rfl := List.mem_singleton.mp hline
            exact heq)
      refine ⟨hfirst, hwalked, ?_⟩
      rw [hids]
      simp [activityLine]

/-- The walk of sorted events. -/
theorem walk_sorted {s : FoldState ℚ} {events : List StatementEvent}
    (hsorted : events.Pairwise fun a b => a.day ≤ b.day) :
    WalkedDays metas s events (walkActivity metas describe s [] none events) ∧
      ((walkActivity metas describe s [] none events).flatMap (·.lines)).map (·.eventId) =
        events.map (·.eventId) := by
  cases events with
  | nil => exact ⟨⟨by simp [walkActivity], by simp [walkActivity], by simp [walkActivity],
      by simp [walkActivity]⟩, rfl⟩
  | cons ev events =>
    obtain ⟨hev, hsorted⟩ := List.pairwise_cons.mp hsorted
    obtain ⟨-, hwalked, hids⟩ := @walk_begun metas describe s (foldEvent s ev.row) [ev] _ _
      [activityLine metas describe s.acc (foldEvent s ev.row).acc ev] rfl hsorted hev
      (by simp) ⟨ev, by simp, rfl⟩ (by simp [activityLine, StatementEvent.day])
    exact ⟨hwalked, by simpa [walkActivity, activityLine] using hids⟩

end Walk

/-! ## Statements -/

section Statements

variable (metas : List SleeveMeta) (describe : LedgerEventType → Payload → String × String)
  (events : List StatementEvent)

theorem periodEvents_sorted (start stop : Option ℤ) :
    (periodEvents start stop events).Pairwise fun a b => a.day ≤ b.day :=
  (byBusinessTime_sorted events).filter _

/-- The days of a statement are in order, its lines are the events of the period, each under its
day, and a day is closed with the cash that the whole log leaves through it. -/
theorem statement_days (start stop : Option ℤ) :
    (buildStatement metas describe events start stop).days.Pairwise (fun a b => a.day < b.day) ∧
      ((buildStatement metas describe events start stop).days.flatMap (·.lines)).map (·.eventId) =
        (periodEvents start stop events).map (·.eventId) ∧
      ∀ block ∈ (buildStatement metas describe events start stop).days,
        (∀ line ∈ block.lines, dayOf line.occurredAt = block.day) ∧
          block.cashAfter = cashLines metas
            (foldRows .empty ((byBusinessTime events).filter (·.day ≤ block.day))).acc := by
  obtain ⟨hwalked, hids⟩ := @walk_sorted metas describe
    (foldRows .empty (priorEvents start events)) _ (periodEvents_sorted events start stop)
  refine ⟨hwalked.increasing, hids, fun block hblock => ⟨hwalked.ofDay block hblock, ?_⟩⟩
  obtain ⟨ev, hev, hday⟩ := hwalked.days block hblock
  have hin := List.of_mem_filter hev
  rw [Bool.and_eq_true, Bool.not_eq_true'] at hin
  have hstart : ∀ a ∈ start, a ≤ block.day := by
    intro a ha
    obtain rfl := Option.mem_def.mp ha
    have hafter : ¬ev.day < a := by simpa using hin.1
    omega
  have hstop : ∀ b ∈ stop, block.day ≤ b := by
    intro b hb
    obtain rfl := Option.mem_def.mp hb
    have hbefore : ev.day ≤ b := by simpa using hin.2
    omega
  rw [hwalked.cash block hblock, ← foldRows_append, through_day hstart hstop]

/-- Cash, reserved cash, positions at cost and profit to date. -/
def SleeveBalance.shown (balance : SleeveBalance) : ℚ × ℚ × ℚ × ℚ :=
  (balance.cash, balance.reserved, balance.positionsCost, balance.realizedTotal)

/-- What is shown of a sleeve, nothing where it has no balance yet. -/
def shownIn (balances : List SleeveBalance) (id : String) : ℚ × ℚ × ℚ × ℚ :=
  ((balances.find? (·.sleeveId = id)).map (·.shown)).getD (0, 0, 0, 0)

def profitIn (balances : List SleeveBalance) (id : String) : ℚ :=
  ((balances.find? (·.sleeveId = id)).map (·.realizedPeriod)).getD 0

def positionsIn (balances : List SleeveBalance) (id : String) : List PositionLine :=
  ((balances.find? (·.sleeveId = id)).map (·.positions)).getD []

/-- The statements of two adjoining periods and the statement of both. -/
structure Adjoin (first second whole : AccountStatement) : Prop where
  days : whole.days = first.days ++ second.days
  inPeriod : whole.eventsInPeriod = first.eventsInPeriod + second.eventsInPeriod
  throughEnd : whole.eventsThroughEnd = second.eventsThroughEnd
  opening : ∀ id, shownIn whole.opening id = shownIn first.opening id
  handover : ∀ id, shownIn second.opening id = shownIn first.closing id
  closing : ∀ id, shownIn whole.closing id = shownIn second.closing id
  positions : ∀ id, positionsIn whole.closing id = positionsIn second.closing id
  profit : ∀ id, profitIn whole.closing id = profitIn first.closing id + profitIn second.closing id

variable {metas}

theorem find_sleeveBalance (acc baseline : AccountProjection ℚ)
    (lots : Option (String → String → List (Lot ℚ))) (order : List String) (id : String) :
    (order.map (sleeveBalance metas acc baseline lots)).find? (·.sleeveId = id) =
      if id ∈ order then some (sleeveBalance metas acc baseline lots id) else none := by
  induction order with
  | nil => simp
  | cons other order ih =>
    by_cases heq : other = id
    · subst heq
      simp [sleeveBalance]
    · have hne : ¬id = other := fun h => heq h.symm
      rw [List.map_cons, List.find?_cons_of_neg (by simp [sleeveBalance, heq]), ih]
      simp [hne]

/-- A sleeve that is not displayed is empty. -/
theorem sleeve_of_not_displayed {projections : List (AccountProjection ℚ)}
    {acc : AccountProjection ℚ} (hacc : acc ∈ projections) {id : String}
    (h : id ∉ displayOrder metas projections) : acc.sleeve id = .empty :=
  Std.ExtTreeMap.getD_eq_fallback fun hid => h (mem_displayOrder hacc hid)

variable {acc baseline : AccountProjection ℚ} {lots : Option (String → String → List (Lot ℚ))}

/-- What is shown of a sleeve is what its account holds. -/
theorem shownIn_balances {projections : List (AccountProjection ℚ)} (hacc : acc ∈ projections)
    (id : String) :
    shownIn ((displayOrder metas projections).map (sleeveBalance metas acc baseline lots)) id =
      ((acc.sleeve id).cash, (acc.sleeve id).reserved,
        Dict.total (fun p : PositionState ℚ => p.costBasis) (acc.sleeve id).positions,
        (acc.sleeve id).realizedPnl) := by
  rw [shownIn, find_sleeveBalance]
  split_ifs with h
  · rfl
  · rw [sleeve_of_not_displayed hacc h]
    simp [SleeveProjection.empty]

theorem profitIn_balances {projections : List (AccountProjection ℚ)} (hacc : acc ∈ projections)
    (hbaseline : baseline ∈ projections) (id : String) :
    profitIn ((displayOrder metas projections).map (sleeveBalance metas acc baseline lots)) id =
      (acc.sleeve id).realizedPnl - (baseline.sleeve id).realizedPnl := by
  rw [profitIn, find_sleeveBalance]
  split_ifs with h
  · rfl
  · rw [sleeve_of_not_displayed hacc h, sleeve_of_not_displayed hbaseline h]
    simp

theorem positionsIn_balances {projections : List (AccountProjection ℚ)} (hacc : acc ∈ projections)
    (lots : String → String → List (Lot ℚ)) (id : String) :
    positionsIn ((displayOrder metas projections).map
        (sleeveBalance metas acc baseline (some lots))) id =
      positionLines (acc.sleeve id) (lots id) := by
  rw [positionsIn, find_sleeveBalance]
  split_ifs with h
  · rfl
  · rw [sleeve_of_not_displayed hacc h]
    have hnil : (∅ : Dict (PositionState ℚ)).toList = [] :=
      Std.ExtTreeMap.toList_eq_nil_iff.mpr rfl
    simp [positionLines, SleeveProjection.empty, hnil]

variable (metas)

namespace Sample

/-- A deposit on the first day and a withdrawal on the second. -/
def twoStatementDays : List StatementEvent :=
  [⟨0, "in", ⟨1, "funds_deposited", [("sleeve_id", .str "cash"), ("amount", .str "100")]⟩⟩,
    ⟨86400000000, "out", ⟨2, "funds_withdrawn", [("sleeve_id", .str "cash"), ("amount", .str "40")]⟩⟩]

end Sample

end Statements

end LlamaTrade
