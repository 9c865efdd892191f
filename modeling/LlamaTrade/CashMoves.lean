import LlamaTrade.DecimalOrder
import LlamaTrade.InterleavedLists
import LlamaTrade.PoisonCount
import LlamaTrade.RoundedBalances

/-!
# The cash of a sleeve along a log

An event that is applied moves the cash of a sleeve by its cash legs on the sleeve. A log
with further credits in between leaves the sleeve with no less cash, as long as neither log
has an event that is skipped.
-/

namespace LlamaTrade

open Arithmetic

/-- The leg moves the cash of the sleeve. -/
def Posting.IsCashOf (id : String) (p : Posting Decimal) : Prop :=
  p.bucket = .cash ∧ p.sleeveId = some id

instance (id : String) (p : Posting Decimal) : Decidable (p.IsCashOf id) :=
  inferInstanceAs (Decidable (_ ∧ _))

/-- What an event moves in the cash of a sleeve, leg by leg; nothing when it is refused. -/
def cashMoves (id : String) (ev : LedgerEvent) : List Decimal :=
  match LedgerEventType.coerce ev.eventType with
  | .error _ => []
  | .ok t =>
    match validatedPostings (D := Decimal) t ev.data with
    | .error _ => []
    | .ok postings => (postings.filter fun p => p.IsCashOf id).map (·.amount)

/-- The event takes no cash out of the sleeve. -/
def Credits (id : String) (ev : LedgerEvent) : Prop := ∀ m ∈ cashMoves id ev, 0 ≤ m.toRat

section Moves

variable {acc acc' : AccountProjection Decimal} {id : String}

theorem applyPosting_cash {p : Posting Decimal} (h : applyPosting acc p = (acc', none)) :
    if p.IsCashOf id then add (acc.sleeve id).cash p.amount = .ok (acc'.sleeve id).cash
    else (acc'.sleeve id).cash = (acc.sleeve id).cash := by
  obtain ⟨sleeveId, bucket, amount, symbol, qty⟩ := p
  cases sleeveId with
  | none =>
    cases h
    simp [Posting.IsCashOf]
  | some other =>
    have hkept : ∀ acc₁ : AccountProjection Decimal,
        (∀ x, (acc₁.sleeve x).cash = (acc.sleeve x).cash) → bucket ≠ .cash → acc' = acc₁ →
        if (⟨some other, bucket, amount, symbol, qty⟩ : Posting Decimal).IsCashOf id then
          add (acc.sleeve id).cash amount = .ok (acc'.sleeve id).cash
        else (acc'.sleeve id).cash = (acc.sleeve id).cash := by
      rintro acc₁ hcash hbucket rfl
      rw [if_neg fun hmoves => hbucket hmoves.1]
      exact hcash id
    have hset : ∀ s : SleeveProjection Decimal, s.cash = (acc.sleeve other).cash → ∀ x,
        ((acc.setSleeve other s).sleeve x).cash = (acc.sleeve x).cash := by
      intro s hs x
      rw [sleeve_setSleeve]
      split_ifs with hid
      · rw [hid, hs]
      · rfl
    unfold applyPosting at h
    dsimp only at h
    cases bucket with
    | cash =>
      cases hadd : add (acc.sleeve other).cash amount with
      | error e =>
        rw [hadd] at h
        cases h
      | ok cash =>
        rw [hadd] at h
        cases h
        by_cases hid : id = other
        · subst hid
          simpa [Posting.IsCashOf, sleeve_setSleeve] using hadd
        · simp [Posting.IsCashOf, sleeve_setSleeve, hid, Ne.symm hid]
    | pnl =>
      cases hadd : neg amount >>= add (acc.sleeve other).realizedPnl with
      | error e =>
        rw [hadd] at h
        cases h
      | ok realizedPnl =>
        rw [hadd] at h
        cases h
        refine hkept _ (fun x => ?_) (by decide) rfl
        by_cases hx : x = other <;> simp [sleeve_setSleeve, hx]
    | external =>
      cases h
      exact hkept _ (hset _ rfl) (by decide) rfl
    | position =>
      cases symbol with
      | none =>
        cases h
        exact hkept _ (hset _ rfl) (by decide) rfl
      | some symbol =>
        dsimp only at h
        cases hcost : add ((acc.sleeve other).position symbol).costBasis amount with
        | error e =>
          rw [hcost] at h
          cases h
        | ok costBasis =>
          rw [hcost] at h
          cases qty with
          | none =>
            cases h
            refine hkept _ (fun x => ?_) (by decide) rfl
            by_cases hx : x = other <;> simp [sleeve_setSleeve, hx, SleeveProjection.setPosition]
          | some qty =>
            dsimp only [Attempt.guarded_ok] at h
            cases hqty : add ((acc.sleeve other).position symbol).qty qty with
            | error e =>
              rw [hqty] at h
              cases h
            | ok sum =>
              rw [hqty] at h
              cases h
              refine hkept _ (fun x => ?_) (by decide) rfl
              by_cases hx : x = other <;> simp [sleeve_setSleeve, hx, SleeveProjection.setPosition]

theorem applyPostings_cash {ps : List (Posting Decimal)} (h : applyPostings acc ps = (acc', none)) :
    ((ps.filter fun p => p.IsCashOf id).map (·.amount)).foldlM add (acc.sleeve id).cash =
      .ok (acc'.sleeve id).cash := by
  induction ps generalizing acc with
  | nil =>
    cases h
    rfl
  | cons p ps ih =>
    rw [applyPostings] at h
    rcases hstep : applyPosting acc p with ⟨next, _ | e⟩
    · rw [hstep, Attempt.andThen_none] at h
      have hmove := @applyPosting_cash acc next id p hstep
      have hrest := ih h
      by_cases hcash : p.IsCashOf id
      · rw [if_pos hcash] at hmove
        rw [List.filter_cons_of_pos (by simpa using hcash), List.map_cons, List.foldlM_cons, hmove,
          ok_bind]
        exact hrest
      · rw [if_neg hcash] at hmove
        rw [List.filter_cons_of_neg (by simpa using hcash), ← hmove]
        exact hrest
    · rw [hstep] at h
      cases h

/-- An event that is applied moves the cash of a sleeve by its legs. -/
theorem applyEvent_cash {s : FoldState Decimal} {ev : LedgerEvent} (h : (applyEvent s ev).2 = none) :
    (cashMoves id ev).foldlM add (s.acc.sleeve id).cash =
      .ok ((foldEvent s ev).acc.sleeve id).cash := by
  rw [foldEvent_acc_sleeve]
  unfold applyEvent at h ⊢
  unfold cashMoves
  cases ht : LedgerEventType.coerce ev.eventType with
  | error e =>
    rw [ht] at h
    cases h
  | ok t =>
    rw [ht, Attempt.guarded_ok] at h
    rw [Attempt.guarded_ok]
    dsimp only
    cases hp : validatedPostings (D := Decimal) t ev.data with
    | error e =>
      rw [hp] at h
      cases h
    | ok postings =>
      rw [hp, Attempt.guarded_ok] at h
      rw [Attempt.guarded_ok]
      obtain ⟨reserved, hreserved⟩ := applyReservation_sleeve s t ev.data id
      rcases hres : applyReservation s t ev.data with ⟨s₁, _ | e⟩
      · rw [hres] at h hreserved
        have hcash : (s.acc.sleeve id).cash = (s₁.acc.sleeve id).cash := by rw [hreserved]
        rw [hcash]
        exact applyPostings_cash (Prod.ext rfl h)
      · rw [hres] at h
        cases h

end Moves

/-! ## Finite cash -/

theorem validated_balanced {t : LedgerEventType} {data : Payload} {ps : List (Posting Decimal)}
    (h : validatedPostings t data = .ok ps) : ∀ p ∈ ps, p.amount.isFinite := by
  simp only [validatedPostings, bind_eq_ok] at h
  obtain ⟨built, -, h⟩ := h
  split_ifs at h with hnil
  · cases h
    rw [List.isEmpty_iff] at hnil
    simp [hnil]
  · simp only [bind_eq_ok] at h
    obtain ⟨_, hbalanced, h⟩ := h
    cases h
    exact isFinite_of_balanced hbalanced

theorem cashMoves_finite {id : String} {ev : LedgerEvent} : ∀ m ∈ cashMoves id ev, m.isFinite := by
  intro m hm
  unfold cashMoves at hm
  split at hm
  · cases hm
  · split at hm
    · cases hm
    · rename_i postings hp
      obtain ⟨p, hpmem, rfl⟩ := List.mem_map.mp hm
      exact validated_balanced hp p (List.mem_of_mem_filter hpmem)

/-- The cash of a sleeve is a finite number in every fold. -/
theorem foldEvent_cash_finite {s : FoldState Decimal} {id : String}
    (h : (s.acc.sleeve id).cash.isFinite) (ev : LedgerEvent) :
    ((foldEvent s ev).acc.sleeve id).cash.isFinite := by
  rw [foldEvent_acc_sleeve]
  unfold applyEvent
  cases LedgerEventType.coerce ev.eventType with
  | error e => exact h
  | ok t =>
    rw [Attempt.guarded_ok]
    cases hp : validatedPostings (D := Decimal) t ev.data with
    | error e => exact h
    | ok postings =>
      obtain ⟨reserved, hreserved⟩ := applyReservation_sleeve s t ev.data id
      have hnext : ((applyReservation s t ev.data).1.acc.sleeve id).cash.isFinite := by
        rw [hreserved]
        exact h
      rw [Attempt.guarded_ok]
      rcases hres : applyReservation s t ev.data with ⟨s₁, _ | e⟩
      · rw [hres] at hnext
        refine applyPostings_induction (P := fun s : SleeveProjection Decimal => s.cash.isFinite) (fun p hpmem s s' heffect hs => ?_)
          hnext
        cases heffect with
        | cash _ hadd =>
          exact (Decimal.add_fits defaultContext_range hs (validated_balanced hp p hpmem) hadd).1
        | _ => exact hs
      · rw [hres] at hnext
        exact hnext

theorem foldInto_cash_finite {s : FoldState Decimal} {id : String}
    (h : (s.acc.sleeve id).cash.isFinite) (events : List LedgerEvent) :
    ((foldInto s events).acc.sleeve id).cash.isFinite := by
  induction events generalizing s with
  | nil => exact h
  | cons ev events ih =>
    rw [foldInto_cons]
    exact ih (foldEvent_cash_finite h ev)

/-! ## Logs with more credits -/

/-- The cash of a sleeve is a number of the format. -/
structure SoundCash (s : FoldState Decimal) (id : String) : Prop where
  finite : (s.acc.sleeve id).cash.isFinite
  rounded : (s.acc.sleeve id).Rounded

theorem SoundCash.foldEvent {s : FoldState Decimal} {id : String} (h : SoundCash s id)
    (ev : LedgerEvent) : SoundCash (foldEvent s ev) id :=
  ⟨foldEvent_cash_finite h.finite ev, foldEvent_rounded h.rounded ev⟩

theorem soundCash_fold (events : List LedgerEvent) (id : String) :
    SoundCash (foldInto .empty events) id :=
  ⟨@foldInto_cash_finite .empty id rfl events,
    @foldInto_rounded .empty id SleeveProjection.rounded_empty events⟩

theorem foldlM_add_mono {moves : List Decimal} (hfin : ∀ m ∈ moves, m.isFinite) {x x' z z' : Decimal}
    (hx : x.isFinite) (hx' : x'.isFinite) (h : x.toRat ≤ x'.toRat)
    (hz : moves.foldlM Arithmetic.add x = .ok z) (hz' : moves.foldlM Arithmetic.add x' = .ok z') :
    z.toRat ≤ z'.toRat := by
  induction moves generalizing x x' with
  | nil =>
    cases hz
    cases hz'
    exact h
  | cons m moves ih =>
    obtain ⟨hm, hfin⟩ := List.forall_mem_cons.mp hfin
    rw [List.foldlM_cons, bind_eq_ok] at hz hz'
    obtain ⟨y, hy, hz⟩ := hz
    obtain ⟨y', hy', hz'⟩ := hz'
    refine ih hfin (Decimal.add_fits defaultContext_range hx hm hy).1
      (Decimal.add_fits defaultContext_range hx' hm hy').1 ?_ hz hz'
    exact Decimal.add_mono defaultContext_prec hx hm hx' hm (by linarith) hy hy'

theorem foldlM_add_credits {moves : List Decimal} (hfin : ∀ m ∈ moves, m.isFinite)
    (hpos : ∀ m ∈ moves, 0 ≤ m.toRat) {x z : Decimal} (hx : x.isFinite)
    (hfits : defaultContext.Fits x.toRat) (hz : moves.foldlM Arithmetic.add x = .ok z) :
    x.toRat ≤ z.toRat := by
  induction moves generalizing x with
  | nil =>
    cases hz
    exact le_rfl
  | cons m moves ih =>
    obtain ⟨hm, hfin⟩ := List.forall_mem_cons.mp hfin
    obtain ⟨hmpos, hpos⟩ := List.forall_mem_cons.mp hpos
    rw [List.foldlM_cons, bind_eq_ok] at hz
    obtain ⟨y, hy, hz⟩ := hz
    obtain ⟨hyFin, hyFits⟩ := Decimal.add_fits defaultContext_range hx hm hy
    exact le_trans (Decimal.le_add_of_nonneg defaultContext_prec hx hm hfits hmpos hy)
      (ih hfin hpos hyFin hyFits hz)

/-- Further credits leave the sleeve with no less cash. -/
theorem foldInto_cash_le {id : String} {as bs : List LedgerEvent}
    (hext : Interleaved.Extends (Credits id) as bs) {s s' : FoldState Decimal} (hs : SoundCash s id)
    (hs' : SoundCash s' id)
    (hle : (s.acc.sleeve id).cash.toRat ≤ (s'.acc.sleeve id).cash.toRat)
    (hclean : (foldInto s as).acc.poisonEvents = s.acc.poisonEvents)
    (hclean' : (foldInto s' bs).acc.poisonEvents = s'.acc.poisonEvents) :
    ((foldInto s as).acc.sleeve id).cash.toRat ≤ ((foldInto s' bs).acc.sleeve id).cash.toRat := by
  induction hext generalizing s s' with
  | nil => exact hle
  | same ev _ ih =>
    obtain ⟨hnone, -, hrest⟩ := foldInto_clean_cons hclean
    obtain ⟨hnone', -, hrest'⟩ := foldInto_clean_cons hclean'
    refine ih (hs.foldEvent ev) (hs'.foldEvent ev) ?_ hrest hrest'
    exact foldlM_add_mono cashMoves_finite hs.finite hs'.finite hle (applyEvent_cash hnone)
      (applyEvent_cash hnone')
  | extra hcredits _ ih =>
    obtain ⟨hnone', -, hrest'⟩ := foldInto_clean_cons hclean'
    refine ih hs (hs'.foldEvent _) (le_trans hle ?_) hclean hrest'
    exact foldlM_add_credits cashMoves_finite hcredits hs'.finite (hs'.rounded.cash hs'.finite)
      (applyEvent_cash hnone')

end LlamaTrade
