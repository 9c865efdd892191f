import LlamaTrade.SafetyWindow

/-!
# Checkpoints behind the safety window

The invariant of the incremental projection: every checkpoint is the fold of the rows
up to its sequence number, and nothing can appear behind that number any more. It is
kept by every calm step, so in every run of calm steps each pass returns the fold of
the rows it saw. The order of the writers is what makes the window work: a row older
than the window comes from a transaction that started no earlier than every open
transaction with a smaller sequence number, so these can no longer commit.
-/

namespace LlamaTrade.SafetyWindow

/-! ## Rows in ledger order -/

def upTo (n : ℕ) (rows : List StoredEvent) : List StoredEvent :=
  (sortRows rows).filter fun row => row.sequence ≤ n

theorem sortRows_sorted (rows : List StoredEvent) :
    (sortRows rows).Pairwise fun a b => a.sequence ≤ b.sequence := by
  have htrans : IsTrans StoredEvent fun a b => a.sequence ≤ b.sequence :=
    ⟨fun _ _ _ => le_trans⟩
  have htotal : Std.Total fun a b : StoredEvent => a.sequence ≤ b.sequence :=
    ⟨fun a b => le_total a.sequence b.sequence⟩
  exact List.pairwise_insertionSort _ _

theorem sortRows_perm (rows : List StoredEvent) : (sortRows rows).Perm rows :=
  List.perm_insertionSort _ rows

theorem mem_sortRows {rows : List StoredEvent} {r : StoredEvent} :
    r ∈ sortRows rows ↔ r ∈ rows :=
  (sortRows_perm rows).mem_iff

private theorem filter_orderedInsert {n : ℕ} {r : StoredEvent} (h : n < r.sequence)
    (rows : List StoredEvent) :
    (rows.orderedInsert (fun a b => a.sequence ≤ b.sequence) r).filter
        (fun row => row.sequence ≤ n) =
      rows.filter fun row => row.sequence ≤ n := by
  induction rows with
  | nil => simp [h]
  | cons a rows ih =>
    by_cases ha : r.sequence ≤ a.sequence
    · simp [List.orderedInsert, ha, h]
    · simp [List.orderedInsert, ha, List.filter_cons, ih]

/-- Later rows do not change the rows up to a sequence number. -/
theorem upTo_append {n : ℕ} {new old : List StoredEvent} (h : ∀ r ∈ new, n < r.sequence) :
    upTo n (new ++ old) = upTo n old := by
  induction new with
  | nil => rfl
  | cons r new ih =>
    obtain ⟨hr, hnew⟩ := List.forall_mem_cons.mp h
    rw [← ih hnew]
    exact filter_orderedInsert hr _

theorem filter_append_filter {rows : List StoredEvent}
    (h : rows.Pairwise fun a b => a.sequence ≤ b.sequence) (n : ℕ) :
    (rows.filter fun row => row.sequence ≤ n) ++ (rows.filter fun row => n < row.sequence) =
      rows := by
  induction rows with
  | nil => rfl
  | cons r rows ih =>
    obtain ⟨hr, hrows⟩ := List.pairwise_cons.mp h
    by_cases hn : r.sequence ≤ n
    · have hnot : ¬ n < r.sequence := Nat.not_lt.mpr hn
      simp [hn, hnot, ih hrows]
    · have hlt : n < r.sequence := Nat.lt_of_not_le hn
      have hnone : (rows.filter fun row => row.sequence ≤ n) = [] := by
        rw [List.filter_eq_nil_iff]
        intro a ha
        have hra := hr a ha
        simp only [decide_eq_true_eq]
        omega
      have hall : (rows.filter fun row => n < row.sequence) = rows := by
        rw [List.filter_eq_self]
        intro a ha
        have hra := hr a ha
        simp only [decide_eq_true_eq]
        omega
      simp [hn, hlt, hnone, hall]

theorem partitionAtWindow_append (cutoff : ℤ) (rows : List StoredEvent) :
    (partitionAtWindow cutoff rows).1 ++ (partitionAtWindow cutoff rows).2 = rows := by
  induction rows with
  | nil => rfl
  | cons r rows ih =>
    by_cases hr : cutoff ≤ r.createdAt
    · simp [partitionAtWindow, hr]
    · simp [partitionAtWindow, hr, ih]

theorem createdAt_lt_of_mem_partition {cutoff : ℤ} {rows : List StoredEvent} {r : StoredEvent}
    (h : r ∈ (partitionAtWindow cutoff rows).1) : r.createdAt < cutoff := by
  induction rows with
  | nil => simp [partitionAtWindow] at h
  | cons a rows ih =>
    by_cases ha : cutoff ≤ a.createdAt
    · simp [partitionAtWindow, ha] at h
    · simp only [partitionAtWindow, ha, if_false] at h
      rcases List.mem_cons.mp h with rfl | h
      · exact Int.lt_of_not_ge ha
      · exact ih h

/-! ## The order of the writers -/

/-- Sequence numbers are distinct and below the generator, rows carry the start of their
transaction, and a transaction with a smaller number than a row of another one has not
started after it. -/
structure LedgerInv (l : Ledger) : Prop where
  next_pos : 1 ≤ l.nextSequence
  committed_bounds : ∀ r ∈ l.committed, 1 ≤ r.sequence ∧ r.sequence < l.nextSequence
  committed_distinct : l.committed.Pairwise fun a b => a.sequence ≠ b.sequence
  open_bounds : ∀ tx t, l.txs tx = some t → ∀ r ∈ t.rows,
    1 ≤ r.sequence ∧ r.sequence < l.nextSequence ∧ r.createdAt = t.start
  open_distinct : ∀ tx t, l.txs tx = some t →
    t.rows.Pairwise fun a b => a.sequence ≠ b.sequence
  open_order : ∀ tx t tx' t', l.txs tx = some t → l.txs tx' = some t' → tx ≠ tx' →
    ∀ r ∈ t.rows, ∀ r' ∈ t'.rows,
      r.sequence ≠ r'.sequence ∧ (r.sequence < r'.sequence → t.start ≤ t'.start)
  committed_order : ∀ tx t, l.txs tx = some t → ∀ r ∈ t.rows, ∀ r' ∈ l.committed,
    r.sequence ≠ r'.sequence ∧ (r.sequence < r'.sequence → t.start ≤ r'.createdAt)

theorem txs_setTx {l : Ledger} {tx tx' : ℕ} {t : Option WriterTx} {t' : WriterTx} :
    (l.setTx tx t).txs tx' = some t' ↔ (tx' = tx ∧ t = some t') ∨ (tx' ≠ tx ∧ l.txs tx' = some t') := by
  by_cases h : tx' = tx <;> simp [Ledger.setTx, h]

theorem LedgerInv.begin {l : Ledger} (h : LedgerInv l) (tx : ℕ) :
    LedgerInv (l.setTx tx (some ⟨l.now, []⟩)) where
  next_pos := h.next_pos
  committed_bounds := h.committed_bounds
  committed_distinct := h.committed_distinct
  open_bounds := by
    intro tx' t ht r hr
    rcases txs_setTx.mp ht with ⟨-, heq⟩ | ⟨-, ht⟩
    · cases heq
      cases hr
    · exact h.open_bounds tx' t ht r hr
  open_distinct := by
    intro tx' t ht
    rcases txs_setTx.mp ht with ⟨-, heq⟩ | ⟨-, ht⟩
    · cases heq
      exact List.Pairwise.nil
    · exact h.open_distinct tx' t ht
  open_order := by
    intro tx₁ t₁ tx₂ t₂ h₁ h₂ hne r hr r' hr'
    rcases txs_setTx.mp h₁ with ⟨-, heq⟩ | ⟨-, h₁⟩
    · cases heq
      cases hr
    · rcases txs_setTx.mp h₂ with ⟨-, heq⟩ | ⟨-, h₂⟩
      · cases heq
        cases hr'
      · exact h.open_order tx₁ t₁ tx₂ t₂ h₁ h₂ hne r hr r' hr'
  committed_order := by
    intro tx' t ht r hr r' hr'
    rcases txs_setTx.mp ht with ⟨-, heq⟩ | ⟨-, ht⟩
    · cases heq
      cases hr
    · exact h.committed_order tx' t ht r hr r' hr'

theorem LedgerInv.remove {l : Ledger} (h : LedgerInv l) (tx : ℕ) : LedgerInv (l.setTx tx none) where
  next_pos := h.next_pos
  committed_bounds := h.committed_bounds
  committed_distinct := h.committed_distinct
  open_bounds := by
    intro tx' t ht
    rcases txs_setTx.mp ht with ⟨-, ht⟩ | ⟨-, ht⟩
    · cases ht
    · exact h.open_bounds tx' t ht
  open_distinct := by
    intro tx' t ht
    rcases txs_setTx.mp ht with ⟨-, ht⟩ | ⟨-, ht⟩
    · cases ht
    · exact h.open_distinct tx' t ht
  open_order := by
    intro tx₁ t₁ tx₂ t₂ h₁ h₂
    rcases txs_setTx.mp h₁ with ⟨-, h₁⟩ | ⟨-, h₁⟩
    · cases h₁
    · rcases txs_setTx.mp h₂ with ⟨-, h₂⟩ | ⟨-, h₂⟩
      · cases h₂
      · exact h.open_order tx₁ t₁ tx₂ t₂ h₁ h₂
  committed_order := by
    intro tx' t ht
    rcases txs_setTx.mp ht with ⟨-, ht⟩ | ⟨-, ht⟩
    · cases ht
    · exact h.committed_order tx' t ht

theorem LedgerInv.commit {l : Ledger} (h : LedgerInv l) {tx : ℕ} {t : WriterTx}
    (ht : l.txs tx = some t) :
    LedgerInv { l.setTx tx none with committed := t.rows ++ l.committed } where
  next_pos := h.next_pos
  committed_bounds := by
    intro r hr
    rcases List.mem_append.mp hr with hr | hr
    · exact ⟨(h.open_bounds tx t ht r hr).1, (h.open_bounds tx t ht r hr).2.1⟩
    · exact h.committed_bounds r hr
  committed_distinct := by
    refine List.pairwise_append.mpr ⟨h.open_distinct tx t ht, h.committed_distinct, ?_⟩
    intro r hr r' hr'
    exact (h.committed_order tx t ht r hr r' hr').1
  open_bounds := (h.remove tx).open_bounds
  open_distinct := (h.remove tx).open_distinct
  open_order := (h.remove tx).open_order
  committed_order := by
    intro tx' t' ht' r hr r' hr'
    rcases txs_setTx.mp ht' with ⟨-, ht'⟩ | ⟨hne, ht'⟩
    · cases ht'
    · rcases List.mem_append.mp hr' with hr' | hr'
      · rw [(h.open_bounds tx t ht r' hr').2.2]
        exact h.open_order tx' t' tx t ht' ht hne r hr r' hr'
      · exact h.committed_order tx' t' ht' r hr r' hr'

theorem LedgerInv.insert {l : Ledger} (h : LedgerInv l) {tx : ℕ} {t : WriterTx}
    (ht : l.txs tx = some t) (horder : InsertsInOrder l tx) (eventType : String) (data : Payload) :
    LedgerInv { l.setTx tx (some ⟨t.start,
      ⟨⟨l.nextSequence, eventType, data⟩, t.start⟩ :: t.rows⟩) with
        nextSequence := l.nextSequence + 1 } where
  next_pos := Nat.le_add_left 1 _
  committed_bounds := by
    intro r hr
    obtain ⟨hlo, hhi⟩ := h.committed_bounds r hr
    exact ⟨hlo, Nat.lt_succ_of_lt hhi⟩
  committed_distinct := h.committed_distinct
  open_bounds := by
    intro tx' t' ht' r hr
    rcases txs_setTx.mp ht' with ⟨-, heq⟩ | ⟨-, ht'⟩
    · cases heq
      rcases List.mem_cons.mp hr with rfl | hr
      · exact ⟨h.next_pos, Nat.lt_succ_self _, rfl⟩
      · obtain ⟨hlo, hhi, hstart⟩ := h.open_bounds tx t ht r hr
        exact ⟨hlo, Nat.lt_succ_of_lt hhi, hstart⟩
    · obtain ⟨hlo, hhi, hstart⟩ := h.open_bounds tx' t' ht' r hr
      exact ⟨hlo, Nat.lt_succ_of_lt hhi, hstart⟩
  open_distinct := by
    intro tx' t' ht'
    rcases txs_setTx.mp ht' with ⟨-, heq⟩ | ⟨-, ht'⟩
    · cases heq
      refine List.pairwise_cons.mpr ⟨fun r hr => ?_, h.open_distinct tx t ht⟩
      exact Nat.ne_of_gt (h.open_bounds tx t ht r hr).2.1
    · exact h.open_distinct tx' t' ht'
  open_order := by
    intro tx₁ t₁ tx₂ t₂ h₁ h₂ hne r hr r' hr'
    rcases txs_setTx.mp h₁ with ⟨heq₁, h₁⟩ | ⟨hne₁, h₁⟩
    · cases h₁
      rcases txs_setTx.mp h₂ with ⟨heq₂, -⟩ | ⟨-, h₂⟩
      · exact absurd (heq₁.trans heq₂.symm) hne
      · rcases List.mem_cons.mp hr with rfl | hr
        · have hlt := (h.open_bounds tx₂ t₂ h₂ r' hr').2.1
          exact ⟨Nat.ne_of_gt hlt, fun hlt' => absurd hlt (Nat.not_lt.mpr (Nat.le_of_lt hlt'))⟩
        · exact h.open_order tx t tx₂ t₂ ht h₂ (heq₁ ▸ hne) r hr r' hr'
    · rcases txs_setTx.mp h₂ with ⟨-, h₂⟩ | ⟨-, h₂⟩
      · cases h₂
        rcases List.mem_cons.mp hr' with rfl | hr'
        · have hlt := (h.open_bounds tx₁ t₁ h₁ r hr).2.1
          exact ⟨Nat.ne_of_lt hlt, fun _ => horder t tx₁ t₁ ht hne₁ h₁ (List.ne_nil_of_mem hr)⟩
        · exact h.open_order tx₁ t₁ tx t h₁ ht hne₁ r hr r' hr'
      · exact h.open_order tx₁ t₁ tx₂ t₂ h₁ h₂ hne r hr r' hr'
  committed_order := by
    intro tx' t' ht' r hr r' hr'
    rcases txs_setTx.mp ht' with ⟨-, heq⟩ | ⟨-, ht'⟩
    · cases heq
      rcases List.mem_cons.mp hr with rfl | hr
      · have hlt := (h.committed_bounds r' hr').2
        exact ⟨Nat.ne_of_gt hlt, fun hlt' => absurd hlt (Nat.not_lt.mpr (Nat.le_of_lt hlt'))⟩
      · exact h.committed_order tx t ht r hr r' hr'
    · exact h.committed_order tx' t' ht' r hr r' hr'

/-! ## What a writer step leaves alone -/

section Writers

variable {window : ℤ} {l l' : Ledger} {n : ℕ}

/-- What a writer step can do, with its guards. -/
theorem writerStep_cases {a : WriterAction} (h : writerStep window l a = some l') :
    (∃ k, a = .tick k ∧ l' = { l with now := l.now + k }) ∨
    (a = .skipSequence ∧ l' = { l with nextSequence := l.nextSequence + 1 }) ∨
    (∃ tx, a = .begin tx ∧ l' = l.setTx tx (some ⟨l.now, []⟩)) ∨
    (∃ tx eventType data t, a = .insert tx eventType data ∧ l.txs tx = some t ∧
      l' = { l.setTx tx (some ⟨t.start,
        ⟨⟨l.nextSequence, eventType, data⟩, t.start⟩ :: t.rows⟩) with
          nextSequence := l.nextSequence + 1 }) ∨
    (∃ tx t, a = .commit tx ∧ l.txs tx = some t ∧ l.now ≤ t.start + window ∧
      l' = { l.setTx tx none with committed := t.rows ++ l.committed }) ∨
    (∃ tx, a = .abort tx ∧ l' = l.setTx tx none) := by
  cases a with
  | tick k => exact .inl ⟨k, rfl, by simpa [writerStep] using h.symm⟩
  | skipSequence => exact .inr (.inl ⟨rfl, by simpa [writerStep] using h.symm⟩)
  | begin tx =>
    simp only [writerStep] at h
    split at h
    · exact .inr (.inr (.inl ⟨tx, rfl, by simpa using h.symm⟩))
    · cases h
  | insert tx eventType data =>
    simp only [writerStep] at h
    split at h
    · cases h
    · rename_i t ht
      exact .inr (.inr (.inr (.inl ⟨tx, eventType, data, t, rfl, ht, by simpa using h.symm⟩)))
  | commit tx =>
    simp only [writerStep] at h
    split at h
    · cases h
    · rename_i t ht
      split at h
      · rename_i hnow
        exact .inr (.inr (.inr (.inr (.inl ⟨tx, t, rfl, ht, hnow, by simpa using h.symm⟩))))
      · cases h
  | abort tx =>
    simp only [writerStep] at h
    split at h
    · cases h
    · exact .inr (.inr (.inr (.inr (.inr ⟨tx, rfl, by simpa using h.symm⟩))))

theorem LedgerInv.writerStep {a : WriterAction} (hinv : LedgerInv l)
    (hcalm : ∀ tx eventType data, a = .insert tx eventType data → InsertsInOrder l tx)
    (h : SafetyWindow.writerStep window l a = some l') : LedgerInv l' := by
  rcases writerStep_cases h with ⟨k, rfl, rfl⟩ | ⟨rfl, rfl⟩ | ⟨tx, rfl, rfl⟩ |
    ⟨tx, eventType, data, t, rfl, ht, rfl⟩ | ⟨tx, t, rfl, ht, -, rfl⟩ | ⟨tx, rfl, rfl⟩
  · exact ⟨hinv.next_pos, hinv.committed_bounds, hinv.committed_distinct, hinv.open_bounds,
      hinv.open_distinct, hinv.open_order, hinv.committed_order⟩
  · refine ⟨Nat.le_succ_of_le hinv.next_pos, ?_, hinv.committed_distinct, ?_,
      hinv.open_distinct, hinv.open_order, hinv.committed_order⟩
    · intro r hr
      obtain ⟨hlo, hhi⟩ := hinv.committed_bounds r hr
      exact ⟨hlo, Nat.lt_succ_of_lt hhi⟩
    · intro tx t ht r hr
      obtain ⟨hlo, hhi, hstart⟩ := hinv.open_bounds tx t ht r hr
      exact ⟨hlo, Nat.lt_succ_of_lt hhi, hstart⟩
  · exact hinv.begin tx
  · exact hinv.insert ht (hcalm tx eventType data rfl) eventType data
  · exact hinv.commit ht
  · exact hinv.remove tx

theorem Settled.setTx (h : Settled window l n) (tx : ℕ) {t : Option WriterTx}
    (ht : ∀ t', t = some t' → l.now ≤ t'.start + window → ∀ r ∈ t'.rows, n < r.sequence) :
    Settled window (l.setTx tx t) n := by
  refine ⟨h.1, ?_⟩
  intro tx' t' ht' hnow r hr
  rcases txs_setTx.mp ht' with ⟨-, heq⟩ | ⟨-, ht'⟩
  · exact ht t' heq hnow r hr
  · exact h.2 tx' t' ht' hnow r hr

/-- What is settled stays settled. -/
theorem Settled.writerStep {a : WriterAction} (hset : Settled window l n)
    (h : SafetyWindow.writerStep window l a = some l') : Settled window l' n := by
  rcases writerStep_cases h with ⟨k, rfl, rfl⟩ | ⟨rfl, rfl⟩ | ⟨tx, rfl, rfl⟩ |
    ⟨tx, eventType, data, t, rfl, ht, rfl⟩ | ⟨tx, t, rfl, ht, -, rfl⟩ | ⟨tx, rfl, rfl⟩
  · refine ⟨hset.1, ?_⟩
    intro tx t ht hnow
    exact hset.2 tx t ht (by simp only at hnow; omega)
  · exact ⟨Nat.lt_succ_of_lt hset.1, hset.2⟩
  · exact hset.setTx tx fun t' heq _ r hr => by cases heq; cases hr
  · have hnew := hset.setTx tx (t := some ⟨t.start,
      ⟨⟨l.nextSequence, eventType, data⟩, t.start⟩ :: t.rows⟩) (by
        intro t' heq hnow r hr
        cases heq
        rcases List.mem_cons.mp hr with rfl | hr
        · exact hset.1
        · exact hset.2 tx t ht hnow r hr)
    exact ⟨Nat.lt_succ_of_lt hset.1, hnew.2⟩
  · exact hset.setTx tx (t := none) fun t' heq => by cases heq
  · exact hset.setTx tx fun t' heq => by cases heq

/-- No writer adds a row up to a settled sequence number. -/
theorem Settled.upTo_eq {a : WriterAction} (hset : Settled window l n)
    (h : SafetyWindow.writerStep window l a = some l') :
    upTo n l'.committed = upTo n l.committed := by
  rcases writerStep_cases h with ⟨k, rfl, rfl⟩ | ⟨rfl, rfl⟩ | ⟨tx, rfl, rfl⟩ |
    ⟨tx, eventType, data, t, rfl, ht, rfl⟩ | ⟨tx, t, rfl, ht, hnow, rfl⟩ | ⟨tx, rfl, rfl⟩
  · rfl
  · rfl
  · rfl
  · rfl
  · exact upTo_append (hset.2 tx t ht hnow)
  · rfl

end Writers

/-! ## The invariant of the passes -/

section Passes

variable {D : Type} [Arithmetic D] {window : ℤ} {l l' : Ledger}

/-- The checkpoint is the fold of the rows up to its sequence number. -/
structure Matches (l : Ledger) (c : Checkpoint D) : Prop where
  state : c.state.Same (foldInto .empty (eventsOf (upTo c.asOfSequence l.committed)))
  lots : c.lots = foldLotsInto ∅ (eventsOf (upTo c.asOfSequence l.committed))

structure Good (window : ℤ) (l : Ledger) (c : Checkpoint D) : Prop where
  settled : Settled window l c.asOfSequence
  state : Matches l c

theorem Good.writerStep {c : Checkpoint D} {a : WriterAction} (hc : Good window l c)
    (h : SafetyWindow.writerStep window l a = some l') : Good window l' c := by
  refine ⟨hc.settled.writerStep h, ?_, ?_⟩
  · rw [hc.settled.upTo_eq h]
    exact hc.state.state
  · rw [hc.settled.upTo_eq h]
    exact hc.state.lots

theorem good_empty (hinv : LedgerInv l) : Good window l (.empty : Checkpoint D) := by
  have hnone : upTo 0 l.committed = [] := by
    rw [upTo, List.filter_eq_nil_iff]
    intro r hr
    have hpos := (hinv.committed_bounds r (mem_sortRows.mp hr)).1
    simp only [decide_eq_true_eq]
    omega
  refine ⟨⟨hinv.next_pos, ?_⟩, ?_, ?_⟩
  · intro tx t ht _ r hr
    exact (hinv.open_bounds tx t ht r hr).1
  · change FoldState.Same _ (foldInto .empty (eventsOf (upTo 0 l.committed)))
    rw [hnone]
    exact .refl _
  · change _ = foldLotsInto ∅ (eventsOf (upTo 0 l.committed))
    rw [hnone]
    rfl

/-- What a pass has read, and that no writer has since added a row before one of the
rows it is going to fold. -/
structure ReadOk (l : Ledger) (base : Checkpoint D) (delta visible : List StoredEvent) : Prop where
  subset : ∀ r ∈ visible, r ∈ l.committed
  sorted : visible.Pairwise fun a b => a.sequence < b.sequence
  delta_eq : delta = visible.filter fun row => base.asOfSequence < row.sequence
  state : base.state.Same
    (foldInto .empty (eventsOf (visible.filter fun row => row.sequence ≤ base.asOfSequence)))
  lots : base.lots =
    foldLotsInto ∅ (eventsOf (visible.filter fun row => row.sequence ≤ base.asOfSequence))
  room : (terminalIds D (eventsOf visible)).toFinset.card ≤ terminalTracked
  unchanged : ∀ r ∈ delta,
    upTo r.sequence l.committed = visible.filter fun row => row.sequence ≤ r.sequence

theorem terminalIds_perm {es fs : List LedgerEvent} (h : es.Perm fs) :
    (terminalIds D es).toFinset = (terminalIds D fs).toFinset :=
  List.toFinset_eq_of_perm _ _ (h.filterMap _)

theorem readOk_of_matches (hinv : LedgerInv l) {base : Checkpoint D} (hbase : Matches l base)
    (hroom : (terminalIds D (eventsOf l.committed)).toFinset.card ≤ terminalTracked) :
    ReadOk l base (readSince l.committed base.asOfSequence) (sortRows l.committed) where
  subset := fun r hr => mem_sortRows.mp hr
  sorted := by
    have hdistinct : (sortRows l.committed).Pairwise fun a b => a.sequence ≠ b.sequence :=
      (sortRows_perm _).symm.pairwise hinv.committed_distinct fun h => h.symm
    exact (sortRows_sorted _).imp₂ (fun _ _ hle hne => Nat.lt_of_le_of_ne hle hne) hdistinct
  delta_eq := rfl
  state := hbase.state
  lots := hbase.lots
  room := by
    have hperm : (eventsOf (sortRows l.committed)).Perm (eventsOf l.committed) :=
      (sortRows_perm _).map _
    rw [terminalIds_perm hperm]
    exact hroom
  unchanged := fun _ _ => rfl

theorem ReadOk.writerStep {base : Checkpoint D} {delta visible : List StoredEvent}
    {a : WriterAction} (hread : ReadOk l base delta visible)
    (hcalm : ∀ tx t, a = .commit tx → l.txs tx = some t →
      ∀ r ∈ t.rows, ∀ r' ∈ delta, r'.sequence < r.sequence)
    (h : SafetyWindow.writerStep window l a = some l') : ReadOk l' base delta visible := by
  have hkeep : (∀ r ∈ l.committed, r ∈ l'.committed) ∧
      ∀ r ∈ delta, upTo r.sequence l'.committed = upTo r.sequence l.committed := by
    rcases writerStep_cases h with ⟨k, rfl, rfl⟩ | ⟨rfl, rfl⟩ | ⟨tx, rfl, rfl⟩ |
      ⟨tx, eventType, data, t, rfl, ht, rfl⟩ | ⟨tx, t, rfl, ht, -, rfl⟩ | ⟨tx, rfl, rfl⟩
    · exact ⟨fun _ hr => hr, fun _ _ => rfl⟩
    · exact ⟨fun _ hr => hr, fun _ _ => rfl⟩
    · exact ⟨fun _ hr => hr, fun _ _ => rfl⟩
    · exact ⟨fun _ hr => hr, fun _ _ => rfl⟩
    · exact ⟨fun _ hr => List.mem_append_right _ hr, fun r hr =>
        upTo_append fun r' hr' => hcalm tx t rfl ht r' hr' r hr⟩
    · exact ⟨fun _ hr => hr, fun _ _ => rfl⟩
  refine ⟨fun r hr => hkeep.1 r (hread.subset r hr), hread.sorted, hread.delta_eq, hread.state,
    hread.lots, hread.room, ?_⟩
  intro r hr
  rw [hkeep.2 r hr]
  exact hread.unchanged r hr

section Finish

variable {base : Checkpoint D} {delta visible safe tail : List StoredEvent}

theorem ReadOk.visible_eq (hread : ReadOk l base delta visible) :
    (visible.filter fun row => row.sequence ≤ base.asOfSequence) ++ delta = visible := by
  rw [hread.delta_eq]
  exact filter_append_filter (hread.sorted.imp fun h => Nat.le_of_lt h) _

/-- The rows up to the last safe one are the ones before the checkpoint and the safe ones. -/
theorem ReadOk.upTo_safe (hread : ReadOk l base delta visible) (hparts : safe ++ tail = delta)
    {last : StoredEvent} (hlast : last ∈ safe)
    (hmax : ∀ r ∈ safe, r.sequence ≤ last.sequence) :
    upTo last.sequence l.committed =
      (visible.filter fun row => row.sequence ≤ base.asOfSequence) ++ safe := by
  have hdelta : last ∈ delta := hparts ▸ List.mem_append_left _ hlast
  have hafter : base.asOfSequence < last.sequence := by
    rw [hread.delta_eq] at hdelta
    simpa using (List.mem_filter.mp hdelta).2
  have hsplit : visible =
      (visible.filter fun row => row.sequence ≤ base.asOfSequence) ++ safe ++ tail := by
    rw [List.append_assoc, hparts, hread.visible_eq]
  have hsorted := hread.sorted
  rw [hsplit] at hsorted
  rw [hread.unchanged last hdelta]
  conv_lhs => rw [hsplit]
  rw [List.filter_append]
  have hkeep : ((visible.filter fun row => row.sequence ≤ base.asOfSequence) ++ safe).filter
      (fun row => row.sequence ≤ last.sequence) =
      (visible.filter fun row => row.sequence ≤ base.asOfSequence) ++ safe := by
    rw [List.filter_eq_self]
    intro r hr
    rcases List.mem_append.mp hr with hr | hr
    · have hle : r.sequence ≤ base.asOfSequence := by simpa using (List.mem_filter.mp hr).2
      simp only [decide_eq_true_eq]
      omega
    · simpa using hmax r hr
  have hdrop : tail.filter (fun row => row.sequence ≤ last.sequence) = [] := by
    rw [List.filter_eq_nil_iff]
    intro r hr
    have hlt := (List.pairwise_append.mp hsorted).2.2 last (List.mem_append_right _ hlast) r hr
    simp only [decide_eq_true_eq]
    omega
  rw [hkeep, hdrop, List.append_nil]

theorem terminalIds_sublist_card {es fs : List LedgerEvent} (h : es.Sublist fs)
    (hroom : (terminalIds D fs).toFinset.card ≤ terminalTracked) :
    (terminalIds D es).toFinset.card ≤ terminalTracked := by
  refine le_trans (Finset.card_le_card ?_) hroom
  intro c hc
  rw [List.mem_toFinset] at hc ⊢
  exact (h.filterMap _).subset hc

/-- The projection a pass returns is the fold of the rows it saw. -/
theorem ReadOk.returns_visible (hread : ReadOk l base delta visible) :
    (foldInto base.state (eventsOf delta)).acc = fold (eventsOf visible) := by
  have hvisible : eventsOf (visible.filter fun row => row.sequence ≤ base.asOfSequence) ++
      eventsOf delta = eventsOf visible := by
    rw [eventsOf, eventsOf, ← List.map_append, hread.visible_eq]
    rfl
  have hsame := hread.state.foldInto (eventsOf delta) (by
    rw [hvisible]
    exact hread.room)
  rw [hsame.acc_eq, hvisible]
  rfl

/-- Advancing a good checkpoint over the rows older than the window gives a good one. -/
theorem ReadOk.advance_good (hinv : LedgerInv l) (hbase : Good window l base)
    (hread : ReadOk l base delta visible) (hparts : safe ++ tail = delta)
    (hold : ∀ r ∈ safe, r.createdAt < l.now - window) :
    Good window l (advance base safe) := by
  by_cases hnil : safe = []
  · subst hnil
    exact hbase
  · have hne : eventsOf safe ≠ [] := by simpa [eventsOf] using hnil
    obtain ⟨ev, hev, hmax⟩ := exists_sequence_eq_maxSequence hne
    obtain ⟨last, hlast, rfl⟩ := List.mem_map.mp hev
    have hle : ∀ r ∈ safe, r.sequence ≤ last.sequence := by
      intro r hr
      have hr' : r.event.sequence ≤ maxSequence (eventsOf safe) :=
        sequence_le_maxSequence (List.mem_map_of_mem hr)
      rw [← hmax] at hr'
      exact hr'
    have hseq : (advance base safe).asOfSequence = last.sequence := by
      simp [advance, hnil, ← hmax, StoredEvent.sequence]
    have hupTo := hread.upTo_safe hparts hlast hle
    have hlastCommitted : last ∈ l.committed := by
      apply hread.subset
      rw [← hread.visible_eq, ← hparts]
      simp [hlast]
    have hsub : (eventsOf ((visible.filter fun row => row.sequence ≤ base.asOfSequence) ++
        safe)).Sublist (eventsOf visible) := by
      apply List.Sublist.map
      conv_rhs => rw [← hread.visible_eq, ← hparts, ← List.append_assoc]
      exact List.sublist_append_left _ _
    refine ⟨?_, ?_, ?_⟩
    · rw [hseq]
      refine ⟨(hinv.committed_bounds last hlastCommitted).2, ?_⟩
      intro tx t ht hnow r hr
      by_contra hnot
      obtain ⟨hdiff, horder⟩ := hinv.committed_order tx t ht r hr last hlastCommitted
      have hstart := horder (by omega)
      have hcreated := hold last hlast
      omega
    · rw [hseq, hupTo]
      have hroom := terminalIds_sublist_card hsub hread.room
      rw [eventsOf, List.map_append] at hroom ⊢
      exact hread.state.foldInto (eventsOf safe) hroom
    · rw [hseq, hupTo, eventsOf, List.map_append, foldLotsInto_append]
      change foldLotsInto base.lots _ = _
      rw [hread.lots]
      rfl

end Finish

/-- What holds of a pass in each of its phases. -/
def PhaseOk (window : ℤ) (l : Ledger) : PassPhase D → Prop
  | .missed _ => True
  | .seeded _ seed _ => Good window l (seed.getD .empty)
  | .read _ seed _ delta visible =>
    Good window l (seed.getD .empty) ∧ ReadOk l (seed.getD .empty) delta visible
  | .saving checkpoint => Good window l checkpoint

/-- The invariant of the incremental projection. -/
structure Inv (window : ℤ) (w : World D) : Prop where
  ledger : LedgerInv w.ledger
  room : (terminalIds D (eventsOf w.ledger.committed)).toFinset.card ≤ terminalTracked
  cache : ∀ process c, w.cache process = some c → Good window w.ledger c
  row : ∀ r, w.row = some r → Settled window w.ledger r.1 ∧
    ∀ s, loadState r.2 = some s → Matches (D := D) w.ledger ⟨r.1, s.1, s.2⟩
  passes : ∀ pass phase, w.passes pass = some phase → PhaseOk window w.ledger phase
  returned : ReturnsVisible w

theorem inv_initial : Inv window (World.initial : World D) where
  ledger := ⟨le_refl 1, by simp [World.initial], List.Pairwise.nil, by simp [World.initial],
    by simp [World.initial], by simp [World.initial], by simp [World.initial]⟩
  room := Nat.zero_le _
  cache := by simp [World.initial]
  row := by simp [World.initial]
  passes := by simp [World.initial]
  returned := by simp [ReturnsVisible, World.initial]

section Step

variable {w w' : World D}

theorem Inv.setPass (h : Inv window w) (pass : ℕ) {phase : Option (PassPhase D)}
    (hphase : ∀ p, phase = some p → PhaseOk window w.ledger p) :
    Inv window (w.setPass pass phase) where
  ledger := h.ledger
  room := h.room
  cache := h.cache
  row := h.row
  passes := by
    intro pass' p hp
    by_cases heq : pass' = pass
    · subst heq
      exact hphase p (by simpa [World.setPass] using hp)
    · exact h.passes pass' p (by simpa [World.setPass, heq] using hp)
  returned := h.returned

theorem Inv.setCache (h : Inv window w) (process : ℕ) {c : Option (Checkpoint D)}
    (hc : ∀ c', c = some c' → Good window w.ledger c') :
    Inv window { w with cache := Function.update w.cache process c } where
  ledger := h.ledger
  room := h.room
  cache := by
    intro process' c' hc'
    by_cases heq : process' = process
    · subst heq
      exact hc c' (by simpa using hc')
    · exact h.cache process' c' (by simpa [heq] using hc')
  row := h.row
  passes := h.passes
  returned := h.returned

theorem Inv.return (h : Inv window w) {r : AccountProjection D × List StoredEvent}
    (hr : r.1 = fold (eventsOf r.2)) :
    Inv window { w with returned := r :: w.returned } where
  ledger := h.ledger
  room := h.room
  cache := h.cache
  row := h.row
  passes := h.passes
  returned := List.forall_mem_cons.mpr ⟨hr, h.returned⟩

theorem Inv.setRow (h : Inv window w) {row : Option (ℕ × Json)}
    (hrow : ∀ r, row = some r → Settled window w.ledger r.1 ∧
      ∀ s, loadState r.2 = some s → Matches (D := D) w.ledger ⟨r.1, s.1, s.2⟩) :
    Inv window { w with row := row } where
  ledger := h.ledger
  room := h.room
  cache := h.cache
  row := hrow
  passes := h.passes
  returned := h.returned

theorem Inv.load_good (h : Inv window w) :
    Good window w.ledger ((load w.row).getD (.empty : Checkpoint D)) := by
  cases hrow : w.row with
  | none => exact good_empty h.ledger
  | some r =>
    obtain ⟨hset, hmatch⟩ := h.row r hrow
    cases hload : loadState (D := D) r.2 with
    | none => simpa [load, hload] using good_empty h.ledger
    | some s => simpa [load, hload] using (⟨hset, hmatch s hload⟩ : Good window w.ledger _)

theorem Good.rowOf {c : Checkpoint D} (hc : Good window l c) :
    Settled window l (rowOf c).1 ∧
      ∀ s, loadState (SafetyWindow.rowOf c).2 = some s →
        Matches (D := D) l ⟨(SafetyWindow.rowOf c).1, s.1, s.2⟩ := by
  refine ⟨hc.settled, ?_⟩
  intro s hload
  have htracked := hc.state.state.tracked (foldInto_tracked tracked_nil _)
  obtain ⟨hsame, hlots⟩ := loadState_savedState_same htracked hload
  exact ⟨hsame.trans hc.state.state, hlots.trans hc.state.lots⟩

theorem Inv.finish (h : Inv window w) {pass process : ℕ} {seed : Option (Checkpoint D)}
    {fromCache : Bool} {delta visible : List StoredEvent}
    (hbase : Good window w.ledger (seed.getD .empty))
    (hread : ReadOk w.ledger (seed.getD .empty) delta visible) :
    Inv window (finish window w pass process seed fromCache delta visible) := by
  unfold SafetyWindow.finish
  split_ifs with hearly
  · have hdelta : delta = [] := by simpa using hearly.2.2
    have hreturns := hread.returns_visible
    rw [hdelta] at hreturns
    exact (h.setPass pass fun p hp => by cases hp).return hreturns
  · have hparts := partitionAtWindow_append (w.ledger.now - window) delta
    have hgood : Good window w.ledger
        (advance (seed.getD .empty) (partitionAtWindow (w.ledger.now - window) delta).1) :=
      hread.advance_good h.ledger hbase hparts fun r hr => createdAt_lt_of_mem_partition hr
    have hcached : Good window w.ledger (cached (w.cache process)
        (advance (seed.getD .empty) (partitionAtWindow (w.ledger.now - window) delta).1)) := by
      unfold cached
      split
      · exact hgood
      · rename_i c hc
        split_ifs
        · exact hgood
        · exact h.cache process c hc
    have hreturns := hread.returns_visible
    conv_lhs at hreturns => rw [← hparts, eventsOf, List.map_append, foldInto_append]
    refine (((h.setPass pass ?_).setCache process ?_).return hreturns)
    · intro p hp
      split_ifs at hp
      · cases hp
        exact hgood
    · intro c hc
      cases hc
      exact hcached

theorem Inv.write (h : Inv window w) {a : WriterAction} (hcalm : Calm w (.write a)) {l : Ledger}
    (hstep : writerStep window w.ledger a = some l) : Inv window { w with ledger := l } where
  ledger := by
    refine h.ledger.writerStep ?_ hstep
    rintro tx eventType data rfl
    exact hcalm
  room := by
    rcases writerStep_cases hstep with ⟨k, rfl, rfl⟩ | ⟨rfl, rfl⟩ | ⟨tx, rfl, rfl⟩ |
      ⟨tx, eventType, data, t, rfl, ht, rfl⟩ | ⟨tx, t, rfl, ht, -, rfl⟩ | ⟨tx, rfl, rfl⟩
    · exact h.room
    · exact h.room
    · exact h.room
    · exact h.room
    · exact (hcalm t ht).2
    · exact h.room
  cache := fun process c hc => (h.cache process c hc).writerStep hstep
  row := by
    intro r hr
    obtain ⟨hset, hmatch⟩ := h.row r hr
    refine ⟨hset.writerStep hstep, ?_⟩
    intro s hs
    exact (Good.writerStep ⟨hset, hmatch s hs⟩ hstep).state
  passes := by
    intro pass phase hphase
    have hok := h.passes pass phase hphase
    cases phase with
    | missed process => trivial
    | seeded process seed fromCache => exact Good.writerStep hok hstep
    | read process seed fromCache delta visible =>
      refine ⟨hok.1.writerStep hstep, hok.2.writerStep ?_ hstep⟩
      rintro tx t rfl ht
      exact (hcalm t ht).1 pass process seed fromCache delta visible hphase
    | saving checkpoint => exact Good.writerStep hok hstep
  returned := h.returned

/-- Every calm step keeps the invariant. -/
theorem Inv.step (h : Inv window w) {a : Action} (hcalm : Calm w a)
    (hstep : step window w a = some w') : Inv window w' := by
  cases a with
  | write action =>
    simp only [SafetyWindow.step, Option.map_eq_some_iff] at hstep
    obtain ⟨l, hl, rfl⟩ := hstep
    exact h.write hcalm hl
  | startPass pass process =>
    simp only [SafetyWindow.step] at hstep
    split at hstep
    · cases hstep
    · split at hstep
      · rename_i c hc
        cases hstep
        exact h.setPass pass fun p hp => by
          cases hp
          exact h.cache process c hc
      · cases hstep
        exact h.setPass pass fun p hp => by
          cases hp
          trivial
  | loadRow pass =>
    simp only [SafetyWindow.step] at hstep
    split at hstep
    · cases hstep
      exact h.setPass pass fun p hp => by
        cases hp
        exact h.load_good
    · cases hstep
  | readDelta pass =>
    simp only [SafetyWindow.step] at hstep
    split at hstep
    · rename_i process seed fromCache hphase
      have hgood : Good window w.ledger (seed.getD .empty) := h.passes pass _ hphase
      cases hstep
      exact h.setPass pass fun p hp => by
        cases hp
        exact ⟨hgood, readOk_of_matches h.ledger hgood.state h.room⟩
    · cases hstep
  | finishPass pass =>
    simp only [SafetyWindow.step] at hstep
    split at hstep
    · rename_i process seed fromCache delta visible hphase
      have hok := h.passes pass _ hphase
      cases hstep
      exact h.finish hok.1 hok.2
    · cases hstep
  | saveRow pass persisted =>
    simp only [SafetyWindow.step] at hstep
    split at hstep
    · rename_i checkpoint hphase
      have hgood : Good window w.ledger checkpoint := h.passes pass _ hphase
      cases hstep
      refine (h.setPass pass fun p hp => by cases hp).setRow ?_
      intro r hr
      split_ifs at hr
      · cases hr
        unfold upsert
        split
        · exact hgood.rowOf
        · rename_i r hrow
          split_ifs
          · exact hgood.rowOf
          · exact h.row r hrow
      · exact h.row r hr
    · cases hstep
  | evict process =>
    cases hstep
    exact h.setCache process fun c hc => by cases hc
  | dropRow =>
    cases hstep
    exact h.setRow fun r hr => by cases hr

theorem Inv.noneOvertaken (h : Inv window w) : NoneOvertaken window w :=
  ⟨fun process c hc => (h.cache process c hc).settled, fun r hr => (h.row r hr).1⟩

end Step

end Passes

/-- **The safety window.** In every run of calm steps, each pass returns the fold of the
rows committed at its read, and no checkpoint overtakes a row that may still commit. -/
theorem calm_run_returnsVisible {window : ℤ} {actions : List Action} {w : World Decimal}
    (hcalm : Transition.Meets (step window) Calm (World.initial : World Decimal) actions)
    (hrun : Transition.run (step window) World.initial actions = some w) :
    ReturnsVisible w ∧ NoneOvertaken window w := by
  have hinv : Inv window w :=
    Transition.run_invariant (fun _ _ _ h hok hstep => h.step hok hstep) inv_initial hcalm hrun
  exact ⟨hinv.returned, hinv.noneOvertaken⟩

def depositOf (amount : String) : Payload := [("sleeve_id", .str "s"), ("amount", .str amount)]

/-- A deposit, a pass that persists it after the window, and a pass after a restart. -/
def depositAndProject : List Action :=
  [.write (.begin 0), .write (.insert 0 "funds_deposited" (depositOf "10")), .write (.commit 0),
    .write (.tick 200), .startPass 0 0, .loadRow 0, .readDelta 0, .finishPass 0, .saveRow 0 true,
    .evict 0, .startPass 1 0, .loadRow 1, .readDelta 1, .finishPass 1]

theorem calm_depositAndProject :
    ∃ w, Transition.Meets (step 120) Calm (World.initial : World Decimal) depositAndProject ∧
      Transition.run (step 120) (World.initial : World Decimal) depositAndProject = some w ∧
      ReturnsVisible w ∧ NoneOvertaken 120 w := by
  have hmeets : Transition.Meets (step 120) Calm (World.initial : World Decimal)
      depositAndProject := by
    refine ⟨trivial, fun w₁ h₁ => ?_⟩
    cases h₁
    refine ⟨?_, fun w₂ h₂ => ?_⟩
    · intro t tx' t' _ hne ht' _
      simp [World.initial, Ledger.setTx, hne] at ht'
    · cases h₂
      refine ⟨?_, fun w₃ _ => Transition.meets_of_forall ?_ w₃⟩
      · intro t ht
        refine ⟨by simp [World.initial], ?_⟩
        cases ht
        exact Nat.zero_le _
      · simp [Calm]
  have hsome : (Transition.run (step 120) (World.initial : World Decimal)
      depositAndProject).isSome := by
    decide
  obtain ⟨w, hw⟩ := Option.isSome_iff_exists.mp hsome
  exact ⟨w, hmeets, hw, calm_run_returnsVisible hmeets hw⟩

/-- Transaction 0 starts long before transaction 1 but inserts after it, so that its row
is older by its timestamp and later by its sequence number. A pass checkpoints past it
while transaction 1 is still open. -/
def overtakenCommit : List Action :=
  [.write (.begin 0), .write (.tick 100), .write (.begin 1),
    .write (.insert 1 "funds_deposited" (depositOf "10")),
    .write (.insert 0 "funds_deposited" (depositOf "5")), .write (.commit 0), .write (.tick 50),
    .startPass 0 0, .loadRow 0, .readDelta 0, .finishPass 0, .saveRow 0 true,
    .write (.tick 50), .write (.commit 1), .startPass 1 0, .readDelta 1, .finishPass 1]

def cashOf (sleeve : String) (acc : AccountProjection Decimal) : Option Decimal :=
  acc.sleeves[sleeve]?.map (·.cash)

theorem overtakenCommit_loses_deposit :
    ∃ w, Transition.run (step 120) (World.initial : World Decimal) overtakenCommit = some w ∧
      ¬ ReturnsVisible w := by
  have hcash : (Transition.run (step 120) (World.initial : World Decimal) overtakenCommit).map
      (fun w => w.returned.map fun r => (cashOf "s" r.1, cashOf "s" (fold (eventsOf r.2)))) =
      some [(some (.finite false 5 0), some (.finite false 15 0)),
        (some (.finite false 5 0), some (.finite false 5 0))] := by
    decide
  obtain ⟨w, hw, hreturned⟩ := Option.map_eq_some_iff.mp hcash
  refine ⟨w, hw, ?_⟩
  intro hall
  cases hlist : w.returned with
  | nil => simp [hlist] at hreturned
  | cons r rest =>
    have hr := hall r (by simp [hlist])
    simp only [hlist, List.map_cons, hr, List.cons.injEq, Prod.mk.injEq] at hreturned
    obtain ⟨⟨hfive, hfifteen⟩, -⟩ := hreturned
    rw [hfive] at hfifteen
    cases hfifteen

end LlamaTrade.SafetyWindow
