import LlamaTrade.SubmittedOnce

/-!
# What the tasks of the executor know

Rows keep their ids and are never removed, the broker keeps every order, and an order that is
dead stays dead. What a task has read about a row or an order stays true while it waits: the
facts are stated for each statement a task waits at, and kept by every step.
-/

namespace LlamaTrade

/-! ## Facts that stay true -/

/-- The columns of a row that never change. -/
def OrderRow.key (row : OrderRow) : UUID × String × Option UUID :=
  (row.id, row.clientOrderId, row.parentOrderId)

namespace ExecutorWorld

variable (w w' : ExecutorWorld)

def keys : List (UUID × String × Option UUID) := w.rows.map OrderRow.key

/-- The row of an order that is not a leg. -/
def MainAt (id : UUID) (clientOrderId : String) : Prop := (id, clientOrderId, none) ∈ w.keys

/-- The row of a leg. -/
def LegAt (id : UUID) : Prop := ∃ clientOrderId parent, (id, clientOrderId, some parent) ∈ w.keys

/-- The broker has an order with both ids. -/
def Has (id clientOrderId : String) : Prop :=
  ∃ order ∈ w.broker, order.id = id ∧ order.clientOrderId = some clientOrderId

/-- The order was read from the broker under the client order id. -/
def Reported (clientOrderId : String) (read : BrokerOrder) : Prop :=
  ∃ order ∈ w.broker, order.id = read.id ∧ order.clientOrderId = some clientOrderId ∧
    (read.status.isDead → order.status.isDead)

/-- The broker has a dead order under the client order id. -/
def Dead (clientOrderId : String) : Prop :=
  ∃ order ∈ w.broker, order.clientOrderId = some clientOrderId ∧ order.status.isDead = true

/-- What every step does: rows and orders stay, and new POSTs have new tokens. -/
structure Grows : Prop where
  keys : w.keys ⊆ w'.keys
  broker : ∀ order ∈ w.broker, ∃ order' ∈ w'.broker, order'.id = order.id ∧
    order'.clientOrderId = order.clientOrderId ∧ (order.status.isDead → order'.status.isDead)
  tokens : w.nextToken ≤ w'.nextToken
  wire : ∀ post ∈ w'.wire, post ∈ w.wire ∨ w.nextToken ≤ post.token

end ExecutorWorld

/-- The brackets of a sync's tail are legs. -/
def SyncTail.Legs (tail : SyncTail) : Prop := ∀ row ∈ tail.brackets, row.parentOrderId ≠ none

/-- The rows that a placement of legs writes are rows of legs. -/
structure LegJob.Known (w : ExecutorWorld) (job : LegJob) : Prop where
  legs : ∀ leg ∈ job.legs, w.LegAt leg.2
  answers : ∀ e ∈ job.answers, w.LegAt e.1
  tail : job.tail.Legs

/-- What a task knows where it waits. -/
def TaskKnows (hexdigest : String → String) (w : ExecutorWorld) : ExecutorPhase → Prop
  | .finding a => ∃ timestamp, a.key = .signal timestamp
  | .replaying a row => w.MainAt row.id (a.clientOrderId hexdigest)
  | .adopting row order => ∃ c, w.MainAt row.id c ∧ w.Reported c order
  | .checking a (some row) => w.MainAt row.id (a.clientOrderId hexdigest)
  | .sending a row _ => w.MainAt row (a.clientOrderId hexdigest)
  | .waiting a row _ token => w.MainAt row (a.clientOrderId hexdigest) ∧ token < w.nextToken ∧
    ∀ post ∈ w.wire, post.token = token → post.clientOrderId = some (a.clientOrderId hexdigest)
  | .recording a row order => w.MainAt row (a.clientOrderId hexdigest) ∧
    w.Reported (a.clientOrderId hexdigest) order
  | .announcing a row => w.MainAt row (a.clientOrderId hexdigest)
  | .rejecting a row => w.MainAt row (a.clientOrderId hexdigest)
  | .recovering todo seen => (∀ row ∈ todo, row.key ∈ w.keys) ∧ ∀ e ∈ seen, e.1.key ∈ w.keys ∧
    ∀ order, e.2 = some order → w.Reported e.1.clientOrderId order
  | .syncing todo seen => (∀ row ∈ todo, row.key ∈ w.keys ∧
      ∀ id, row.alpacaOrderId = some id → row.parentOrderId ≠ none ∨ w.Has id row.clientOrderId) ∧
    ∀ e ∈ seen, e.1.key ∈ w.keys ∧
      (e.1.parentOrderId ≠ none ∨ w.Reported e.1.clientOrderId e.2)
  | .handlingFills tail => tail.Legs
  | .sendingLeg job legs _ => job.Known w ∧ ∀ leg ∈ legs, w.LegAt leg.2
  | .waitingLeg job legs _ _ => job.Known w ∧ ∀ leg ∈ legs, w.LegAt leg.2
  | .recordingLegs job => job.Known w
  | .rollingBack job _ => job.Known w
  | .cancellingSiblings todo writes tail =>
    (∀ row ∈ todo, w.LegAt row.id) ∧ (∀ e ∈ writes, w.LegAt e.1) ∧ tail.Legs
  | _ => True

/-- The client order ids of the rows that a task is about to reject, whatever the broker has. -/
def ExecutorPhase.rejects (hexdigest : String → String) (c : String) : ExecutorPhase → Prop
  | .rejecting a _ => a.clientOrderId hexdigest = c
  | .recovering _ seen => ∃ row : OrderRow, (row, none) ∈ seen ∧ row.clientOrderId = c
  | _ => False

/-- How the rows, the broker, the wire and the tasks fit together. -/
structure ExecutorKnown (hexdigest : String → String) (w : ExecutorWorld) : Prop where
  ids : (w.keys.map (·.1)).Nodup
  clientOrderIds : (w.keys.map (·.2.1)).Nodup
  legs : ∀ key ∈ w.keys, key.2.2 ≠ none → ∃ u : UUID, key.2.1 = u.text
  recorded : ∀ row ∈ w.rows, ∀ id, row.alpacaOrderId = some id →
    row.parentOrderId ≠ none ∨ w.Has id row.clientOrderId
  wireTokens : ∀ post ∈ w.wire, post.token < w.nextToken
  wire : ∀ post ∈ w.wire, ∀ c, post.clientOrderId = some c → ∃ id, w.MainAt id c
  broker : ∀ order ∈ w.broker, ∀ c, order.clientOrderId = some c → ∃ id, w.MainAt id c
  brokerIds : (w.broker.map (·.id)).Nodup
  tasks : ∀ t, TaskKnows hexdigest w (w.tasks t)

section Growth

variable {hexdigest : String → String} {w w' : ExecutorWorld}

theorem ExecutorWorld.Grows.mainAt (h : w.Grows w') {id : UUID} {c : String} (hat : w.MainAt id c) :
    w'.MainAt id c :=
  h.keys hat

theorem ExecutorWorld.Grows.legAt (h : w.Grows w') {id : UUID} (hat : w.LegAt id) : w'.LegAt id := by
  obtain ⟨c, parent, hmem⟩ := hat
  exact ⟨c, parent, h.keys hmem⟩

theorem ExecutorWorld.Grows.has (h : w.Grows w') {id c : String} (hhas : w.Has id c) : w'.Has id c := by
  obtain ⟨order, horder, hid, hc⟩ := hhas
  obtain ⟨order', horder', hid', hc', -⟩ := h.broker order horder
  exact ⟨order', horder', hid'.trans hid, hc'.trans hc⟩

theorem ExecutorWorld.Grows.reported (h : w.Grows w') {c : String} {read : BrokerOrder}
    (hread : w.Reported c read) : w'.Reported c read := by
  obtain ⟨order, horder, hid, hc, hdead⟩ := hread
  obtain ⟨order', horder', hid', hc', hdead'⟩ := h.broker order horder
  exact ⟨order', horder', hid'.trans hid, hc'.trans hc, fun h => hdead' (hdead h)⟩

theorem ExecutorWorld.Grows.known (h : w.Grows w') {job : LegJob} (hjob : job.Known w) : job.Known w' :=
  ⟨fun leg hleg => h.legAt (hjob.legs leg hleg),
    fun e he => h.legAt (hjob.answers e he), hjob.tail⟩

/-- What a task knows stays true. -/
theorem TaskKnows.mono (hgrows : w.Grows w') {phase : ExecutorPhase}
    (h : TaskKnows hexdigest w phase) : TaskKnows hexdigest w' phase := by
  cases phase with
  | idle => trivial
  | finding a => exact h
  | replaying a row => exact hgrows.mainAt h
  | adopting row order =>
    obtain ⟨c, hat, hread⟩ := h
    exact ⟨c, hgrows.mainAt hat, hgrows.reported hread⟩
  | checking a resumed =>
    cases resumed with
    | none => trivial
    | some row => exact hgrows.mainAt h
  | sending a row tries => exact hgrows.mainAt h
  | waiting a row tries token =>
    obtain ⟨hat, htoken, hposts⟩ := h
    refine ⟨hgrows.mainAt hat, htoken.trans_le hgrows.tokens, fun post hpost heq => ?_⟩
    obtain hold | hnew := hgrows.wire post hpost
    · exact hposts post hold heq
    · omega
  | recording a row order => exact ⟨hgrows.mainAt h.1, hgrows.reported h.2⟩
  | announcing a row => exact hgrows.mainAt h
  | rejecting a row => exact hgrows.mainAt h
  | recovering todo seen =>
    exact ⟨fun row hrow => hgrows.keys (h.1 row hrow), fun e he => ⟨hgrows.keys (h.2 e he).1,
      fun order horder => hgrows.reported ((h.2 e he).2 order horder)⟩⟩
  | syncing todo seen =>
    exact ⟨fun row hrow => ⟨hgrows.keys (h.1 row hrow).1,
        fun id hid => ((h.1 row hrow).2 id hid).imp_right hgrows.has⟩,
      fun e he => ⟨hgrows.keys (h.2 e he).1, (h.2 e he).2.imp_right hgrows.reported⟩⟩
  | handlingFills tail => exact h
  | sendingLeg job legs tries =>
    exact ⟨hgrows.known h.1, fun leg hleg => hgrows.legAt (h.2 leg hleg)⟩
  | waitingLeg job legs tries token =>
    exact ⟨hgrows.known h.1, fun leg hleg => hgrows.legAt (h.2 leg hleg)⟩
  | recordingLegs job => exact hgrows.known h
  | rollingBack job ids => exact hgrows.known h
  | cancellingSiblings todo writes tail =>
    exact ⟨fun row hrow => hgrows.legAt (h.1 row hrow),
      fun e he => hgrows.legAt (h.2.1 e he), h.2.2⟩

end Growth

/-! ## What a step adds -/

section Rows

/-- A write changes none of the columns that identify a row. -/
theorem key_write (row : OrderRow) (write : RowWrite) : (row.write write).key = row.key := rfl

theorem keys_writeRows (rows : List OrderRow) (writes : List (UUID × RowWrite)) :
    (writeRows rows writes).map OrderRow.key = rows.map OrderRow.key := by
  induction writes generalizing rows with
  | nil => rfl
  | cons e writes ih =>
    rw [writeRows, List.foldl_cons, ← writeRows, ih, List.map_map]
    congr 1
    funext row
    simp only [Function.comp_apply]
    split_ifs
    · exact key_write row e.2
    · rfl

/-- Where the status and the broker id of a row come from after a commit. -/
theorem mem_writeRows {rows : List OrderRow} {writes : List (UUID × RowWrite)} {row' : OrderRow}
    (h : row' ∈ writeRows rows writes) :
    ∃ row ∈ rows, row'.key = row.key ∧
      (row'.status = row.status ∨ ∃ e ∈ writes, e.1 = row.id ∧ e.2.status = some row'.status) ∧
      (row'.alpacaOrderId = row.alpacaOrderId ∨
        ∃ e ∈ writes, e.1 = row.id ∧ e.2.alpacaOrderId = row'.alpacaOrderId) := by
  induction writes generalizing rows with
  | nil => exact ⟨row', h, rfl, .inl rfl, .inl rfl⟩
  | cons e writes ih =>
    obtain ⟨row₁, hrow₁, hkey, hstatus, hid⟩ := ih h
    obtain ⟨row, hrow, rfl⟩ := List.mem_map.mp hrow₁
    refine ⟨row, hrow, ?_⟩
    split_ifs at hkey hstatus hid with heq
    · have hrowid : (row.write e.2).id = row.id := rfl
      refine ⟨hkey, ?_, ?_⟩
      · obtain hsame | ⟨e', he', hwritten⟩ := hstatus
        · cases hwrite : e.2.status with
          | none =>
            left
            rw [hsame]
            simp [OrderRow.write, hwrite]
          | some status =>
            right
            refine ⟨e, List.mem_cons_self .., heq.symm, ?_⟩
            rw [hwrite, hsame]
            simp [OrderRow.write, hwrite]
        · exact .inr ⟨e', List.mem_cons_of_mem _ he', hwritten⟩
      · obtain hsame | ⟨e', he', hwritten⟩ := hid
        · cases hwrite : e.2.alpacaOrderId with
          | none =>
            left
            rw [hsame]
            simp [OrderRow.write, hwrite]
          | some id =>
            right
            refine ⟨e, List.mem_cons_self .., heq.symm, ?_⟩
            rw [hwrite, hsame]
            simp [OrderRow.write, hwrite]
        · exact .inr ⟨e', List.mem_cons_of_mem _ he', hwritten⟩
    · exact ⟨hkey, hstatus.imp_right fun ⟨e', he', hw⟩ => ⟨e', List.mem_cons_of_mem _ he', hw⟩,
        hid.imp_right fun ⟨e', he', hw⟩ => ⟨e', List.mem_cons_of_mem _ he', hw⟩⟩

end Rows

section Steps

variable {hexdigest : String → String} {w w' : ExecutorWorld} {action : ExecutorAction}

theorem keys_commit (t : ℕ) (writes : List (UUID × RowWrite)) (phase : ExecutorPhase) :
    (w.commit t writes phase).keys = w.keys :=
  keys_writeRows w.rows writes

theorem isFinal_of_isDead {status : AlpacaStatus} (h : status.isDead = true) :
    status.isFinal = true := by
  rw [AlpacaStatus.isFinal, h, Bool.true_or]

theorem grows_of_keys (hkeys : w.keys ⊆ w'.keys) (hbroker : w'.broker = w.broker)
    (htokens : w.nextToken ≤ w'.nextToken)
    (hwire : ∀ post ∈ w'.wire, post ∈ w.wire ∨ w.nextToken ≤ post.token) : w.Grows w' :=
  ⟨hkeys, fun order horder => ⟨order, hbroker ▸ horder, rfl, rfl, id⟩, htokens, hwire⟩

theorem grows_send (t : ℕ) (c : Option String) (purpose : Purpose) (phase : ℕ → ExecutorPhase) :
    w.Grows (w.send t c purpose phase) := by
  refine grows_of_keys (fun _ h => h) rfl (Nat.le_succ _) fun post hpost => ?_
  obtain hold | hnew := List.mem_append.mp hpost
  · exact .inl hold
  · rw [List.mem_singleton.mp hnew]
    exact .inr le_rfl

theorem executor_grows (heffect : ExecutorEffect hexdigest w action w') : w.Grows w' := by
  cases heffect with
  | moved _ =>
    refine grows_of_keys ?_ rfl le_rfl fun _ h => .inl h
    rw [keys_commit]
    exact List.Subset.refl _
  | inserted _ _ =>
    refine grows_of_keys (fun key hkey => ?_) rfl le_rfl fun _ h => .inl h
    rw [ExecutorWorld.keys, List.map_append]
    exact List.mem_append_left _ hkey
  | legsCreated _ _ _ =>
    refine grows_of_keys (fun key hkey => ?_) rfl le_rfl fun _ h => .inl h
    rw [ExecutorWorld.keys, List.map_append]
    exact List.mem_append_left _ hkey
  | posted _ => exact grows_send _ _ _ _
  | legPosted _ => exact grows_send _ _ _ _
  | accepted _ _ _ _ _ =>
    exact ⟨fun _ h => h, fun order horder => ⟨order, List.mem_append_left _ horder, rfl, rfl, id⟩,
      le_rfl, fun post hpost => .inl (List.mem_of_mem_filter hpost)⟩
  | refused _ _ _ _ =>
    exact grows_of_keys (fun _ h => h) rfl le_rfl fun post hpost =>
      .inl (List.mem_of_mem_filter hpost)
  | lost =>
    exact grows_of_keys (fun _ h => h) rfl le_rfl fun post hpost =>
      .inl (List.mem_of_mem_filter hpost)
  | changed hopen =>
    refine ⟨fun _ h => h, fun order horder => ?_, le_rfl, fun _ h => .inl h⟩
    refine ⟨_, List.mem_map.mpr ⟨order, horder, rfl⟩, ?_⟩
    split_ifs with hid
    · refine ⟨rfl, rfl, fun hdead => ?_⟩
      have hfinal := isFinal_of_isDead hdead
      rw [hopen order horder hid] at hfinal
      cases hfinal
    · exact ⟨rfl, rfl, fun h => h⟩

theorem mem_keys {row : OrderRow} (h : row ∈ w.rows) : row.key ∈ w.keys :=
  List.mem_map.mpr ⟨row, h, rfl⟩

theorem legAt_of_mem {row : OrderRow} (h : row ∈ w.rows) (hleg : row.parentOrderId ≠ none) :
    w.LegAt row.id := by
  obtain ⟨parent, hparent⟩ := Option.ne_none_iff_exists'.mp hleg
  refine ⟨row.clientOrderId, parent, ?_⟩
  rw [← hparent]
  exact mem_keys h

/-- A text with an `l` is not that of a UUID. -/
theorem generate_ne_text (key : SignalKey) (u : UUID) :
    generateDeterministicOrderId hexdigest key ≠ u.text := by
  intro heq
  have hmem : 'l' ∈ u.text.toList := by
    rw [← heq, generateDeterministicOrderId, String.toList_append]
    exact List.mem_append_left _ (by decide)
  exact UUID.forall_mem_text (P := (· ≠ 'l')) (by decide) (by decide) u _ hmem rfl

theorem findOrder_mainAt (hknown : ExecutorKnown hexdigest w) {a : OrderAttempt} {row : OrderRow}
    (hsignal : ∃ timestamp, a.key = .signal timestamp)
    (hrow : w.findOrder hexdigest a = some row) :
    w.MainAt row.id (a.clientOrderId hexdigest) := by
  have hmem : row ∈ w.rows := List.mem_of_find?_eq_some hrow
  have hc : row.clientOrderId = a.clientOrderId hexdigest := by
    have hfound := List.find?_some hrow
    exact (of_decide_eq_true hfound).1
  cases hparent : row.parentOrderId with
  | none =>
    have hkey := mem_keys hmem
    rwa [OrderRow.key, hparent, hc] at hkey
  | some parent =>
    obtain ⟨u, hu⟩ := hknown.legs row.key (mem_keys hmem) (by simp [OrderRow.key, hparent])
    obtain ⟨timestamp, htimestamp⟩ := hsignal
    simp only [OrderRow.key, hc, OrderAttempt.clientOrderId, htimestamp] at hu
    exact absurd hu (generate_ne_text _ u)

theorem reported_of_clientId {c : String} {order : BrokerOrder}
    (h : w.orderByClientId c = some order) : w.Reported c order := by
  have hfound := List.find?_some h
  exact ⟨order, List.mem_of_find?_eq_some h, rfl, of_decide_eq_true hfound, id⟩

/-- The broker's ids are unique: what it has under an id is what it answers. -/
theorem reported_of_id (hknown : ExecutorKnown hexdigest w) {id c : String} {order : BrokerOrder}
    (h : w.orderById id = some order) (hhas : w.Has id c) : w.Reported c order := by
  obtain ⟨order', horder', hid', hc⟩ := hhas
  have hmem : order ∈ w.broker := List.mem_of_find?_eq_some h
  have hid : order.id = id := by
    have hfound := List.find?_some h
    exact of_decide_eq_true hfound
  have hsame : order' = order :=
    List.inj_on_of_nodup_map hknown.brokerIds horder' hmem (hid'.trans hid.symm)
  exact ⟨order, hmem, rfl, hsame ▸ hc, fun h => h⟩

theorem dead_of_reported {c : String} {read : BrokerOrder} (h : w.Reported c read)
    (hdead : read.status.isDead = true) : w.Dead c := by
  obtain ⟨order, horder, -, hc, hstill⟩ := h
  exact ⟨order, horder, hc, hstill hdead⟩

theorem syncTail_legs (seen : List (OrderRow × BrokerOrder)) : (syncTail seen).Legs := by
  intro row hrow
  obtain ⟨e, he, rfl⟩ := List.mem_map.mp hrow
  have hfilter := (List.mem_filter.mp he).2
  rw [Bool.and_eq_true] at hfilter
  exact Option.isSome_iff_ne_none.mp hfilter.2

theorem siblingWrites_id {sibling : OrderRow} {outcome : SiblingCancel} {e : UUID × RowWrite}
    (h : e ∈ siblingWrites w sibling outcome) : e.1 = sibling.id := by
  unfold siblingWrites at h
  split_ifs at h
  · split at h
    · split at h
      · rw [List.mem_singleton.mp h]
      · cases h
    · rw [List.mem_singleton.mp h]
  · cases h

theorem afterFailure_knows {failure : AlpacaFailure} {old new : ExecutorPhase}
    (hold : TaskKnows hexdigest w old) (h : afterFailure failure old = some new) :
    TaskKnows hexdigest w new := by
  unfold afterFailure at h
  split at h
  · split_ifs at h
    · cases h
      exact hold.1
    · cases h
      exact hold.1
  · split_ifs at h
    · cases h
      exact hold
    · cases h
      exact hold.1
  · cases h

/-- What a task knows after a move of its own. -/
theorem local_knows (hknown : ExecutorKnown hexdigest w) {t : ℕ} {old new : ExecutorPhase}
    {writes : List (UUID × RowWrite)} (hold : TaskKnows hexdigest w old)
    (h : LocalStep hexdigest w action t old new writes) : TaskKnows hexdigest w new := by
  cases h with
  | crash => trivial
  | submit _ hphase =>
    obtain ⟨rfl, hkey⟩ | rfl := hphase
    · exact hkey
    · trivial
  | notFound => trivial
  | replayed => trivial
  | stranded hrow _ _ => exact findOrder_mainAt hknown hold hrow
  | lookupFails => trivial
  | absent _ => exact hold
  | present hpresent => exact ⟨_, hold, reported_of_clientId hpresent⟩
  | adopt => trivial
  | refused => trivial
  | resume => exact hold
  | fail hphase => exact afterFailure_knows hold hphase
  | record => exact hold.1
  | recordFails => exact hold.1
  | announce => trivial
  | announceFails => exact hold
  | reject => trivial
  | recover todo htodo =>
    exact ⟨fun row hrow => mem_keys (htodo row hrow), fun _ he => absurd he List.not_mem_nil⟩
  | @recoverLookup _ row todo seen =>
    obtain ⟨htodo, hseen⟩ := hold
    refine ⟨fun row hrow => htodo row (List.mem_cons_of_mem _ hrow), fun e he => ?_⟩
    obtain he | he := List.mem_append.mp he
    · exact hseen e he
    · cases List.mem_singleton.mp he
      exact ⟨htodo row (List.mem_cons_self ..), fun order horder => reported_of_clientId horder⟩
  | recoverSkip => exact ⟨fun row hrow => hold.1 row (List.mem_cons_of_mem _ hrow), hold.2⟩
  | recoverCommit => trivial
  | sync todo htodo =>
    exact ⟨fun row hrow => ⟨mem_keys (htodo row hrow), hknown.recorded row (htodo row hrow)⟩,
      fun _ he => absurd he List.not_mem_nil⟩
  | @fetched _ _ row order todo todo' seen hrow htodo horder =>
    refine ⟨fun row hrow => hold.1 row (htodo row hrow), fun e he => ?_⟩
    obtain he | he := List.mem_append.mp he
    · exact hold.2 e he
    · cases List.mem_singleton.mp he
      obtain ⟨id, hid, hfound⟩ := Option.bind_eq_some_iff.mp horder
      exact ⟨(hold.1 row hrow).1,
        ((hold.1 row hrow).2 id hid).imp_right (reported_of_id hknown hfound)⟩
  | fetchSkip htodo => exact ⟨fun row hrow => hold.1 row (htodo row hrow), hold.2⟩
  | syncCommit => exact syncTail_legs _
  | legsFail htail => exact fun row hrow => hold row (htail ▸ hrow)
  | recordLegs => exact hold.tail
  | recordLegsFails => exact hold
  | rollback => exact hold
  | rejectLegs => exact hold.tail
  | selectSiblings todo htodo hbracket htail =>
    refine ⟨fun row hrow => ?_, fun _ he => absurd he List.not_mem_nil,
      fun row hrow => hold row (htail row hrow)⟩
    exact legAt_of_mem (htodo row hrow).1 ((htodo row hrow).2 ▸ hold _ hbracket)
  | cancelSibling =>
    refine ⟨fun row hrow => hold.1 row (List.mem_cons_of_mem _ hrow), fun e he => ?_, hold.2.2⟩
    obtain he | he := List.mem_append.mp he
    · exact hold.2.1 e he
    · rw [siblingWrites_id he]
      exact hold.1 _ (List.mem_cons_self ..)
  | siblingsCommit => exact hold.2.2

/-- What the writes of a move are about: a row that exists; a broker id that belongs to it; and
a rejection only where the broker's order is dead or the task has decided on it. -/
def WriteKnown (hexdigest : String → String) (w : ExecutorWorld) (old : ExecutorPhase)
    (e : UUID × RowWrite) : Prop :=
  ∃ c parent, (e.1, c, parent) ∈ w.keys ∧
    (∀ id, e.2.alpacaOrderId = some id → parent ≠ none ∨ w.Has id c) ∧
    (e.2.status = some .rejected → parent ≠ none ∨ w.Dead c ∨ old.rejects hexdigest c)

theorem writeKnown_of_legAt {old : ExecutorPhase} {e : UUID × RowWrite} (h : w.LegAt e.1) :
    WriteKnown hexdigest w old e := by
  obtain ⟨c, parent, hmem⟩ := h
  exact ⟨c, some parent, hmem, fun _ _ => .inl nofun, fun _ => .inl nofun⟩

theorem isDead_of_rejected {status : AlpacaStatus} (h : mapAlpacaStatus status = .rejected) :
    status.isDead = true := by
  cases status <;> first | rfl | cases h

theorem changed_rejected {loaded : OrderStatus} {status : AlpacaStatus}
    (h : changed loaded (mapAlpacaStatus status) = some .rejected) : status.isDead = true := by
  unfold changed at h
  split_ifs at h
  exact isDead_of_rejected (Option.some.inj h)

/-- A write of what the broker reported for the row. -/
theorem writeKnown_of_reported {old : ExecutorPhase} {e : UUID × RowWrite} {c : String}
    {parent : Option UUID} {read : BrokerOrder} {loaded : OrderStatus}
    (hkey : (e.1, c, parent) ∈ w.keys) (hread : parent ≠ none ∨ w.Reported c read)
    (hid : ∀ id, e.2.alpacaOrderId = some id → id = read.id)
    (hstatus : e.2.status = changed loaded (mapAlpacaStatus read.status)) :
    WriteKnown hexdigest w old e := by
  refine ⟨c, parent, hkey, fun id h => ?_, fun h => ?_⟩
  · refine hread.imp_right fun hread => ?_
    obtain ⟨order, horder, hsame, hc, -⟩ := hread
    exact ⟨order, horder, hsame.trans (hid id h).symm, hc⟩
  · rw [hstatus] at h
    exact hread.imp_right fun hread => .inl (dead_of_reported hread (changed_rejected h))

theorem local_writes {t : ℕ} {old new : ExecutorPhase} {writes : List (UUID × RowWrite)}
    (hold : TaskKnows hexdigest w old) (h : LocalStep hexdigest w action t old new writes) :
    ∀ e ∈ writes, WriteKnown hexdigest w old e := by
  intro e he
  cases h with
  | adopt =>
    cases List.mem_singleton.mp he
    obtain ⟨c, hat, hread⟩ := hold
    exact writeKnown_of_reported hat (.inr hread) (fun _ h => (Option.some.inj h).symm) rfl
  | record =>
    cases List.mem_singleton.mp he
    exact writeKnown_of_reported hold.1 (.inr hold.2) (fun _ h => (Option.some.inj h).symm) rfl
  | reject =>
    cases List.mem_singleton.mp he
    exact ⟨_, none, hold, nofun, fun _ => .inr (.inr rfl)⟩
  | recoverCommit =>
    obtain ⟨⟨row, found⟩, hseen, rfl⟩ := List.mem_map.mp he
    obtain ⟨hkey, hread⟩ := hold.2 _ hseen
    cases found with
    | none => exact ⟨row.clientOrderId, _, hkey, nofun, fun _ => .inr (.inr ⟨row, hseen, rfl⟩)⟩
    | some order =>
      exact writeKnown_of_reported hkey (.inr (hread order rfl))
        (fun _ h => (Option.some.inj h).symm) rfl
  | syncCommit =>
    obtain ⟨⟨row, order⟩, hseen, rfl⟩ := List.mem_map.mp he
    obtain ⟨hkey, hread⟩ := hold.2 _ hseen
    exact writeKnown_of_reported hkey hread nofun rfl
  | recordLegs =>
    obtain ⟨answer, hanswer, rfl⟩ := List.mem_map.mp he
    exact writeKnown_of_legAt (hold.answers answer hanswer)
  | rejectLegs =>
    obtain ⟨leg, hleg, rfl⟩ := List.mem_map.mp he
    exact writeKnown_of_legAt (hold.legs leg hleg)
  | siblingsCommit => exact writeKnown_of_legAt (hold.2.1 e he)
  | _ => cases he

end Steps

/-! ## Every step keeps the facts -/

section Known

variable {hexdigest : String → String} {w w' : ExecutorWorld} {action : ExecutorAction}

theorem ExecutorKnown.key_eq (hknown : ExecutorKnown hexdigest w)
    {k k' : UUID × String × Option UUID} (hk : k ∈ w.keys) (hk' : k' ∈ w.keys) (h : k.1 = k'.1) :
    k = k' :=
  List.inj_on_of_nodup_map hknown.ids hk hk' h

theorem ExecutorKnown.key_eq_of_clientOrderId (hknown : ExecutorKnown hexdigest w)
    {k k' : UUID × String × Option UUID} (hk : k ∈ w.keys) (hk' : k' ∈ w.keys)
    (h : k.2.1 = k'.2.1) : k = k' :=
  List.inj_on_of_nodup_map hknown.clientOrderIds hk hk' h

/-- The other tasks go on knowing what they knew. -/
theorem tasks_know (hknown : ExecutorKnown hexdigest w) (hgrows : w.Grows w') {t : ℕ}
    {phase : ExecutorPhase} (hphase : TaskKnows hexdigest w' phase)
    (htasks : w'.tasks = Function.update w.tasks t phase) (t' : ℕ) :
    TaskKnows hexdigest w' (w'.tasks t') := by
  rw [htasks]
  by_cases ht : t' = t
  · subst ht
    rwa [Function.update_self]
  · rw [Function.update_of_ne ht]
    exact (hknown.tasks t').mono hgrows

/-- A commit writes broker ids that belong to their rows. -/
theorem recorded_commit (hknown : ExecutorKnown hexdigest w) {old : ExecutorPhase}
    {writes : List (UUID × RowWrite)} (hwrites : ∀ e ∈ writes, WriteKnown hexdigest w old e) :
    ∀ row ∈ writeRows w.rows writes, ∀ id, row.alpacaOrderId = some id →
      row.parentOrderId ≠ none ∨ w.Has id row.clientOrderId := by
  intro row' hrow' id hid
  obtain ⟨row, hrow, hkey, -, hfrom⟩ := mem_writeRows hrow'
  obtain ⟨-, hc, hparent⟩ : row'.id = row.id ∧ row'.clientOrderId = row.clientOrderId ∧
      row'.parentOrderId = row.parentOrderId := by simpa [OrderRow.key] using hkey
  rw [hparent, hc]
  obtain hsame | ⟨e, he, heid, hwritten⟩ := hfrom
  · exact hknown.recorded row hrow id (hsame ▸ hid)
  · obtain ⟨c, parent, hmem, hhas, -⟩ := hwrites e he
    have hrowkey := hknown.key_eq hmem (mem_keys hrow) heid
    obtain ⟨-, rfl, rfl⟩ : e.1 = row.id ∧ c = row.clientOrderId ∧ parent = row.parentOrderId := by
      simpa [OrderRow.key] using hrowkey
    exact hhas id (hwritten.trans hid)

theorem ExecutorKnown.moved (hknown : ExecutorKnown hexdigest w) {t : ℕ} {phase : ExecutorPhase}
    {writes : List (UUID × RowWrite)}
    (h : LocalStep hexdigest w action t (w.tasks t) phase writes) :
    ExecutorKnown hexdigest (w.commit t writes phase) := by
  have hgrows : w.Grows (w.commit t writes phase) := executor_grows (.moved h)
  have hkeys := keys_commit (w := w) t writes phase
  constructor
  case ids => rw [hkeys]; exact hknown.ids
  case clientOrderIds => rw [hkeys]; exact hknown.clientOrderIds
  case legs => rw [hkeys]; exact hknown.legs
  case recorded => exact recorded_commit hknown (local_writes (hknown.tasks t) h)
  case wireTokens => exact hknown.wireTokens
  case wire =>
    intro post hpost c hc
    obtain ⟨id, hat⟩ := hknown.wire post hpost c hc
    exact ⟨id, hgrows.mainAt hat⟩
  case broker =>
    intro order horder c hc
    obtain ⟨id, hat⟩ := hknown.broker order horder c hc
    exact ⟨id, hgrows.mainAt hat⟩
  case brokerIds => exact hknown.brokerIds
  case tasks =>
    exact tasks_know hknown hgrows ((local_knows hknown (hknown.tasks t) h).mono hgrows) rfl

/-- New rows, which have no broker id yet. -/
theorem ExecutorKnown.insert (hknown : ExecutorKnown hexdigest w) {t : ℕ} {phase : ExecutorPhase}
    {rows : List OrderRow} (hnew : w.insertable rows = true)
    (hgrows : w.Grows { w.setTask t phase with rows := w.rows ++ rows })
    (hlegs : ∀ row ∈ rows, row.parentOrderId ≠ none → ∃ u : UUID, row.clientOrderId = u.text)
    (hids : ∀ row ∈ rows, row.alpacaOrderId = none)
    (hphase : TaskKnows hexdigest { w.setTask t phase with rows := w.rows ++ rows } phase) :
    ExecutorKnown hexdigest { w.setTask t phase with rows := w.rows ++ rows } := by
  rw [ExecutorWorld.insertable, Bool.and_eq_true, decide_eq_true_eq, decide_eq_true_eq] at hnew
  constructor
  case ids =>
    rw [ExecutorWorld.keys, List.map_map]
    exact hnew.1
  case clientOrderIds =>
    rw [ExecutorWorld.keys, List.map_map]
    exact hnew.2
  case legs =>
    intro key hkey hparent
    obtain ⟨row, hrow, rfl⟩ := List.mem_map.mp hkey
    obtain hold | hrow := List.mem_append.mp hrow
    · exact hknown.legs row.key (mem_keys hold) hparent
    · exact hlegs row hrow hparent
  case recorded =>
    intro row hrow id hid
    obtain hold | hrow := List.mem_append.mp hrow
    · exact hknown.recorded row hold id hid
    · rw [hids row hrow] at hid
      cases hid
  case wireTokens => exact hknown.wireTokens
  case wire =>
    intro post hpost c hc
    obtain ⟨id, hat⟩ := hknown.wire post hpost c hc
    exact ⟨id, hgrows.mainAt hat⟩
  case broker =>
    intro order horder c hc
    obtain ⟨id, hat⟩ := hknown.broker order horder c hc
    exact ⟨id, hgrows.mainAt hat⟩
  case brokerIds => exact hknown.brokerIds
  case tasks => exact tasks_know hknown hgrows hphase rfl

theorem ExecutorKnown.send (hknown : ExecutorKnown hexdigest w) {t : ℕ} {c : Option String}
    {purpose : Purpose} {phase : ℕ → ExecutorPhase}
    (hmain : ∀ c', c = some c' → ∃ id, w.MainAt id c')
    (hphase : TaskKnows hexdigest (w.send t c purpose phase) (phase w.nextToken)) :
    ExecutorKnown hexdigest (w.send t c purpose phase) := by
  have hgrows : w.Grows (w.send t c purpose phase) := grows_send _ _ _ _
  constructor
  case ids => exact hknown.ids
  case clientOrderIds => exact hknown.clientOrderIds
  case legs => exact hknown.legs
  case recorded => exact hknown.recorded
  case wireTokens =>
    intro post hpost
    obtain hold | hnew := List.mem_append.mp hpost
    · exact (hknown.wireTokens post hold).trans (Nat.lt_succ_self _)
    · rw [List.mem_singleton.mp hnew]
      exact Nat.lt_succ_self _
  case wire =>
    intro post hpost c' hc'
    obtain hold | hnew := List.mem_append.mp hpost
    · exact hknown.wire post hold c' hc'
    · rw [List.mem_singleton.mp hnew] at hc'
      exact hmain c' hc'
  case broker => exact hknown.broker
  case brokerIds => exact hknown.brokerIds
  case tasks => exact tasks_know hknown hgrows hphase rfl

/-- A step that takes a POST from the wire, if the broker then still has what it had. -/
theorem ExecutorKnown.handled (hknown : ExecutorKnown hexdigest w) {token : ℕ}
    {broker : List BrokerOrder} {tasks : ℕ → ExecutorPhase}
    (hgrows : w.Grows { w with wire := w.wire.filter (·.token ≠ token), broker, tasks })
    (hbroker : ∀ order ∈ broker, ∀ c, order.clientOrderId = some c → ∃ id, w.MainAt id c)
    (hids : (broker.map (·.id)).Nodup)
    (htasks : ∀ t, TaskKnows hexdigest
      { w with wire := w.wire.filter (·.token ≠ token), broker, tasks } (tasks t)) :
    ExecutorKnown hexdigest
      { w with wire := w.wire.filter (·.token ≠ token), broker, tasks } := by
  constructor
  case ids => exact hknown.ids
  case clientOrderIds => exact hknown.clientOrderIds
  case legs => exact hknown.legs
  case recorded =>
    intro row hrow id hid
    exact (hknown.recorded row hrow id hid).imp_right hgrows.has
  case wireTokens => exact fun post hpost => hknown.wireTokens post (List.mem_of_mem_filter hpost)
  case wire => exact fun post hpost => hknown.wire post (List.mem_of_mem_filter hpost)
  case broker => exact hbroker
  case brokerIds => exact hids
  case tasks => exact htasks

/-- The answer that a task gets is that of the order its POST created. -/
theorem afterAnswer_knows {order : BrokerOrder} {old new : ExecutorPhase} {post : Submission}
    (hold : TaskKnows hexdigest w old) (hpost : post ∈ w.wire) (htoken : old.token = some post.token)
    (hc : order.clientOrderId = post.clientOrderId) (hgrows : w.Grows w') (horder : order ∈ w'.broker)
    (h : afterAnswer order old = some new) : TaskKnows hexdigest w' new := by
  have hnow := hold.mono hgrows
  unfold afterAnswer at h
  split at h
  · cases h
    have hsame := hold.2.2 post hpost (Option.some.inj htoken).symm
    exact ⟨hnow.1, order, horder, rfl, hc.trans hsame, id⟩
  · rename_i job leg legs _ _
    obtain ⟨hjob, hlegs⟩ := hnow
    have hjob' : LegJob.Known w' { job with answers := job.answers ++ [(leg.2, order)] } := by
      refine ⟨hjob.legs, fun e he => ?_, hjob.tail⟩
      obtain he | he := List.mem_append.mp he
      · exact hjob.answers e he
      · rw [List.mem_singleton.mp he]
        exact hlegs leg (List.mem_cons_self ..)
    simp only at h
    split_ifs at h
    · cases h
      exact hjob'
    · cases h
      exact ⟨hjob', fun leg' hleg' => hlegs leg' (List.mem_cons_of_mem _ hleg')⟩
  · cases h

/-- What one step does to the facts. -/
theorem ExecutorKnown.step (hknown : ExecutorKnown hexdigest w)
    (h : executorStep hexdigest w action = some w') : ExecutorKnown hexdigest w' := by
  have heffect := executorStep_effect h
  clear h
  have hgrows := executor_grows heffect
  cases heffect with
  | moved h => exact hknown.moved h
  | @inserted t id a htask hnew =>
    refine hknown.insert hnew hgrows (fun row hrow hparent => ?_) (fun row hrow => ?_) ?_
    · rw [List.mem_singleton.mp hrow] at hparent
      exact absurd rfl hparent
    · rw [List.mem_singleton.mp hrow]
      rfl
    · exact List.mem_map.mpr ⟨newOrder hexdigest id a, List.mem_append_right _ (by simp), rfl⟩
  | @legsCreated t id c parent rest htask hnew =>
    have hleg : ∀ leg ∈ (legTypes parent).map fun type => (type, id type),
        ExecutorWorld.LegAt { w.setTask t (.sendingLeg
          ⟨parent, (legTypes parent).map fun type => (type, id type), [], rest⟩
          ((legTypes parent).map fun type => (type, id type)) 0) with
            rows := w.rows ++ (legTypes parent).map fun type =>
              newLeg parent type (id type) (c type) } leg.2 := by
      intro leg hmem
      obtain ⟨type, htype, rfl⟩ := List.mem_map.mp hmem
      have hrow : newLeg parent type (id type) (c type) ∈ w.rows ++ (legTypes parent).map
          fun type => newLeg parent type (id type) (c type) :=
        List.mem_append_right _ (List.mem_map.mpr ⟨type, htype, rfl⟩)
      exact ⟨_, _, List.mem_map.mpr ⟨_, hrow, rfl⟩⟩
    refine hknown.insert hnew hgrows (fun row hrow _ => ?_) (fun row hrow => ?_) ?_
    · obtain ⟨type, -, rfl⟩ := List.mem_map.mp hrow
      exact ⟨c type, rfl⟩
    · obtain ⟨type, -, rfl⟩ := List.mem_map.mp hrow
      rfl
    · have htail : TaskKnows hexdigest w (.handlingFills ⟨parent :: rest.parents, rest.brackets⟩) :=
        htask ▸ hknown.tasks t
      exact ⟨⟨hleg, fun _ he => absurd he List.not_mem_nil, htail⟩, hleg⟩
  | @posted t a row tries htask =>
    have hat : TaskKnows hexdigest w (.sending a row tries) := htask ▸ hknown.tasks t
    refine hknown.send (fun c' hc' => ⟨row, Option.some.inj hc' ▸ hat⟩)
      ⟨hat, Nat.lt_succ_self _, fun post hpost htoken => ?_⟩
    obtain hold | hnew := List.mem_append.mp hpost
    · have hlt := hknown.wireTokens post hold
      omega
    · rw [List.mem_singleton.mp hnew]
  | @legPosted t job leg legs tries htask =>
    have hlegs : TaskKnows hexdigest w (.sendingLeg job (leg :: legs) tries) :=
      htask ▸ hknown.tasks t
    exact hknown.send nofun (hlegs.mono hgrows)
  | accepted post hpost htoken hnew htasks =>
    refine hknown.handled hgrows (fun order horder c hc => ?_) ?_ fun t => ?_
    · obtain horder | horder := List.mem_append.mp horder
      · exact hknown.broker order horder c hc
      · rw [List.mem_singleton.mp horder] at hc
        exact hknown.wire post hpost c hc
    · rw [List.map_append, List.nodup_append]
      refine ⟨hknown.brokerIds, List.nodup_singleton _, fun id hid id' hid' heq => ?_⟩
      obtain ⟨order, horder, hsame⟩ := List.mem_map.mp hid
      rw [ExecutorWorld.acceptable, Bool.and_eq_true] at hnew
      have hnone := List.find?_eq_none.mp (of_decide_eq_true hnew.1) order horder
      rw [List.mem_singleton.mp hid'] at heq
      exact hnone (decide_eq_true (hsame.trans heq))
    · obtain rfl | ⟨t', phase, -, hwaits, hphase, rfl⟩ := htasks
      · exact (hknown.tasks t).mono hgrows
      · refine tasks_know hknown hgrows ?_ rfl t
        exact afterAnswer_knows (hknown.tasks t') hpost (htoken ▸ hwaits) rfl hgrows
          (List.mem_append_right _ (List.mem_singleton_self _)) hphase
  | refused post hpost htoken htasks =>
    refine hknown.handled hgrows hknown.broker hknown.brokerIds fun t => ?_
    obtain rfl | ⟨t', phase, -, -, hphase, rfl⟩ := htasks
    · exact (hknown.tasks t).mono hgrows
    · exact tasks_know hknown hgrows
        ((afterFailure_knows (hknown.tasks t') hphase).mono hgrows) rfl t
  | lost =>
    exact hknown.handled hgrows hknown.broker hknown.brokerIds fun t => (hknown.tasks t).mono hgrows
  | changed hopen =>
    constructor
    case ids => exact hknown.ids
    case clientOrderIds => exact hknown.clientOrderIds
    case legs => exact hknown.legs
    case recorded =>
      exact fun row hrow id hid => (hknown.recorded row hrow id hid).imp_right hgrows.has
    case wireTokens => exact hknown.wireTokens
    case wire => exact hknown.wire
    case broker =>
      intro order horder c hc
      obtain ⟨old, hold, rfl⟩ := List.mem_map.mp horder
      refine hknown.broker old hold c ?_
      split_ifs at hc
      · exact hc
      · exact hc
    case brokerIds =>
      rw [List.map_map]
      refine (List.map_congr_left fun order _ => ?_) ▸ hknown.brokerIds
      simp only [Function.comp_apply]
      split_ifs <;> rfl
    case tasks => exact fun t => (hknown.tasks t).mono hgrows

theorem ExecutorKnown.empty : ExecutorKnown hexdigest .empty where
  ids := List.nodup_nil
  clientOrderIds := List.nodup_nil
  legs _ hkey := absurd hkey List.not_mem_nil
  recorded _ hrow := absurd hrow List.not_mem_nil
  wireTokens _ hpost := absurd hpost List.not_mem_nil
  wire _ hpost := absurd hpost List.not_mem_nil
  broker _ horder := absurd horder List.not_mem_nil
  brokerIds := List.nodup_nil
  tasks _ := trivial

end Known

end LlamaTrade
