import LlamaTrade.OrderExecutor

/-!
# What a step of the executor can do

Every step of the executor is one of a few kinds: a task moves from one statement to the next
and commits what it has changed, rows are inserted, a POST is sent, handled or lost, or the
broker changes an order. The moves of a single task are listed with what they read.
-/

namespace LlamaTrade

/-- The moves of one task that neither insert rows nor send a POST: the statement it waits at
before and after, and what it commits. -/
inductive LocalStep (hexdigest : String → String) (w : ExecutorWorld) :
    ExecutorAction → ℕ → ExecutorPhase → ExecutorPhase → List (UUID × RowWrite) → Prop
  | crash {t phase} : LocalStep hexdigest w (.crash t) t phase .idle []
  | submit {t a} (phase : ExecutorPhase)
    (hphase : (phase = .finding a ∧ ∃ timestamp, a.key = .signal timestamp) ∨
      phase = .checking a none) :
    LocalStep hexdigest w (.submit t a) t .idle phase []
  | notFound {t a} : LocalStep hexdigest w (.find t) t (.finding a) (.checking a none) []
  | replayed {t a} : LocalStep hexdigest w (.find t) t (.finding a) .idle []
  | stranded {t a row} (hrow : w.findOrder hexdigest a = some row)
    (hid : row.alpacaOrderId = none) (hstatus : row.status = .pending) :
    LocalStep hexdigest w (.find t) t (.finding a) (.replaying a row) []
  | lookupFails {t a row} : LocalStep hexdigest w (.lookup t false) t (.replaying a row) .idle []
  | absent {t a row} (habsent : w.orderByClientId (a.clientOrderId hexdigest) = none) :
    LocalStep hexdigest w (.lookup t true) t (.replaying a row) (.checking a (some row)) []
  | present {t a row order} (hpresent : w.orderByClientId (a.clientOrderId hexdigest) = some order) :
    LocalStep hexdigest w (.lookup t true) t (.replaying a row) (.adopting row order) []
  | adopt {t row order} : LocalStep hexdigest w (.adopt t) t (.adopting row order) .idle
    [(row.id, adoptOrder row order)]
  | refused {t passed id a resumed} :
    LocalStep hexdigest w (.check t passed id) t (.checking a resumed) .idle []
  | resume {t id a row} :
    LocalStep hexdigest w (.check t true id) t (.checking a (some row)) (.sending a row.id 0) []
  | fail {t failure phase phase'} (hphase : afterFailure failure phase = some phase') :
    LocalStep hexdigest w (.fail t failure) t phase phase' []
  | record {t a row order} : LocalStep hexdigest w (.record t true) t (.recording a row order)
    (.announcing a row) [(row, answerWrite order)]
  | recordFails {t a row order} :
    LocalStep hexdigest w (.record t false) t (.recording a row order) (.rejecting a row) []
  | announce {t a row} :
    LocalStep hexdigest w (.announce t true) t (.announcing a row) .idle []
  | announceFails {t a row} :
    LocalStep hexdigest w (.announce t false) t (.announcing a row) (.rejecting a row) []
  | reject {t a row} : LocalStep hexdigest w (.reject t) t (.rejecting a row) .idle
    [(row, statusWrite .rejected)]
  | recover {t tenant session} (todo : List OrderRow) (htodo : ∀ row ∈ todo, row ∈ w.rows) :
    LocalStep hexdigest w (.recover t tenant session) t .idle (.recovering todo []) []
  | recoverLookup {t row todo seen} :
    LocalStep hexdigest w (.recoverLookup t true) t (.recovering (row :: todo) seen)
      (.recovering todo (seen ++ [(row, w.orderByClientId row.clientOrderId)])) []
  | recoverSkip {t row todo seen} : LocalStep hexdigest w (.recoverLookup t false) t
    (.recovering (row :: todo) seen) (.recovering todo seen) []
  | recoverCommit {t seen} : LocalStep hexdigest w (.recoverCommit t) t (.recovering [] seen) .idle
    (seen.map recoveryWrite)
  | sync {action t} (todo : List OrderRow) (htodo : ∀ row ∈ todo, row ∈ w.rows) :
    LocalStep hexdigest w action t .idle (.syncing todo []) []
  | fetched {t id row order todo todo' seen} (hrow : row ∈ todo) (htodo : ∀ row ∈ todo', row ∈ todo)
    (horder : row.alpacaOrderId.bind w.orderById = some order) :
    LocalStep hexdigest w (.fetch t id true) t (.syncing todo seen)
      (.syncing todo' (seen ++ [(row, order)])) []
  | fetchSkip {t id answered todo todo' seen} (htodo : ∀ row ∈ todo', row ∈ todo) :
    LocalStep hexdigest w (.fetch t id answered) t (.syncing todo seen) (.syncing todo' seen) []
  | syncCommit {t seen} : LocalStep hexdigest w (.syncCommit t) t (.syncing [] seen)
    (.handlingFills (syncTail seen)) (seen.map fun e => (e.1.id, updateFromAlpaca e.1 e.2))
  | legsFail {t ok id clientOrderId tail tail'} (htail : tail'.brackets = tail.brackets) :
    LocalStep hexdigest w (.createLegs t ok id clientOrderId) t (.handlingFills tail)
      (.handlingFills tail') []
  | recordLegs {t job} : LocalStep hexdigest w (.recordLegs t true) t (.recordingLegs job)
    (.handlingFills job.tail) (job.answers.map fun e => (e.1, answerWrite e.2))
  | recordLegsFails {t job} : LocalStep hexdigest w (.recordLegs t false) t (.recordingLegs job)
    (.rollingBack job (job.answers.map (·.2.id))) []
  | rollback {t job id ids} : LocalStep hexdigest w (.rollback t) t (.rollingBack job (id :: ids))
    (.rollingBack job ids) []
  | rejectLegs {t job} : LocalStep hexdigest w (.rejectLegs t) t (.rollingBack job [])
    (.handlingFills job.tail) (rollbackWrites job)
  | selectSiblings {t bracket tail tail'} (todo : List OrderRow)
    (htodo : ∀ row ∈ todo, row ∈ w.rows ∧ row.parentOrderId = bracket.parentOrderId)
    (hbracket : bracket ∈ tail.brackets) (htail : ∀ row ∈ tail'.brackets, row ∈ tail.brackets) :
    LocalStep hexdigest w (.selectSiblings t) t (.handlingFills tail)
      (.cancellingSiblings todo [] tail') []
  | cancelSibling {t outcome sibling todo writes tail} :
    LocalStep hexdigest w (.cancelSibling t outcome) t
      (.cancellingSiblings (sibling :: todo) writes tail)
      (.cancellingSiblings todo (writes ++ siblingWrites w sibling outcome) tail) []
  | siblingsCommit {t writes tail} : LocalStep hexdigest w (.siblingsCommit t) t
    (.cancellingSiblings [] writes tail) (.handlingFills tail) writes

/-- What a step leaves behind, by the kind of the step. -/
inductive ExecutorEffect (hexdigest : String → String) (w : ExecutorWorld) :
    ExecutorAction → ExecutorWorld → Prop
  | moved {action t phase writes} (h : LocalStep hexdigest w action t (w.tasks t) phase writes) :
    ExecutorEffect hexdigest w action (w.commit t writes phase)
  | inserted {t id a} (htask : w.tasks t = .checking a none)
    (hnew : w.insertable [newOrder hexdigest id a] = true) :
    ExecutorEffect hexdigest w (.check t true id)
      { w.setTask t (.sending a id 0) with rows := w.rows ++ [newOrder hexdigest id a] }
  | legsCreated {t id clientOrderId parent} (rest : SyncTail)
    (htask : w.tasks t = .handlingFills ⟨parent :: rest.parents, rest.brackets⟩)
    (hnew : w.insertable ((legTypes parent).map fun type =>
      newLeg parent type (id type) (clientOrderId type)) = true) :
    ExecutorEffect hexdigest w (.createLegs t true id clientOrderId)
      { w.setTask t (.sendingLeg ⟨parent, (legTypes parent).map fun type => (type, id type), [], rest⟩
          ((legTypes parent).map fun type => (type, id type)) 0) with
        rows := w.rows ++ (legTypes parent).map fun type =>
          newLeg parent type (id type) (clientOrderId type) }
  | posted {t a row tries} (htask : w.tasks t = .sending a row tries) :
    ExecutorEffect hexdigest w (.post t)
      (w.send t (some (a.clientOrderId hexdigest)) a.purpose (.waiting a row tries))
  | legPosted {t job leg legs tries} (htask : w.tasks t = .sendingLeg job (leg :: legs) tries) :
    ExecutorEffect hexdigest w (.post t)
      (w.send t none (.leg job.parent.id leg.1) (.waitingLeg job (leg :: legs) tries))
  | accepted {token answers id status filledQty filledAvgPrice tasks} (post : Submission)
    (hpost : post ∈ w.wire) (htoken : post.token = token) (hnew : w.acceptable post id = true)
    (htasks : tasks = w.tasks ∨ ∃ t phase, answers = some t ∧ (w.tasks t).token = some token ∧
      afterAnswer ⟨id, post.clientOrderId, post.purpose, status, filledQty, filledAvgPrice⟩
        (w.tasks t) = some phase ∧ tasks = Function.update w.tasks t phase) :
    ExecutorEffect hexdigest w (.handle token (.accept id status filledQty filledAvgPrice) answers)
      { w with
        wire := w.wire.filter (·.token ≠ token)
        broker := w.broker ++
          [⟨id, post.clientOrderId, post.purpose, status, filledQty, filledAvgPrice⟩]
        tasks }
  | refused {token failure answers tasks} (post : Submission) (hpost : post ∈ w.wire)
    (htoken : post.token = token)
    (htasks : tasks = w.tasks ∨ ∃ t phase, answers = some t ∧ (w.tasks t).token = some token ∧
      afterFailure failure (w.tasks t) = some phase ∧ tasks = Function.update w.tasks t phase) :
    ExecutorEffect hexdigest w (.handle token (.refuse failure) answers)
      { w with wire := w.wire.filter (·.token ≠ token), tasks }
  | lost {token} : ExecutorEffect hexdigest w (.lose token)
      { w with wire := w.wire.filter (·.token ≠ token) }
  | changed {id status filledQty filledAvgPrice}
    (hopen : ∀ order ∈ w.broker, order.id = id → order.status.isFinal = false) :
    ExecutorEffect hexdigest w (.move id status filledQty filledAvgPrice)
      { w with broker := w.broker.map fun order =>
          if order.id = id then { order with status, filledQty, filledAvgPrice } else order }

section Effects

variable {hexdigest : String → String} {w w' : ExecutorWorld} {action : ExecutorAction}

@[simp] theorem commit_nil (t : ℕ) (phase : ExecutorPhase) :
    w.commit t [] phase = w.setTask t phase := rfl

theorem commit_tasks (t : ℕ) (writes : List (UUID × RowWrite)) (phase : ExecutorPhase) :
    (w.commit t writes phase).tasks = Function.update w.tasks t phase := rfl

theorem handle_effect {token : ℕ} {handling : Handling} {answers : Option ℕ} {post : Submission}
    (hpost : post ∈ w.wire) (htoken : post.token = token)
    (h : w.handle post handling answers = some w') :
    ExecutorEffect hexdigest w (.handle token handling answers) w' := by
  subst htoken
  unfold ExecutorWorld.handle at h
  cases handling with
  | accept id status filledQty filledAvgPrice =>
    simp only at h
    split_ifs at h with hnew
    cases answers with
    | none =>
      cases h
      exact .accepted post hpost rfl hnew (.inl rfl)
    | some t =>
      simp only at h
      split_ifs at h with hwaits
      obtain ⟨phase, hphase, rfl⟩ := Option.map_eq_some_iff.mp h
      exact .accepted post hpost rfl hnew (.inr ⟨t, phase, rfl, hwaits, hphase, rfl⟩)
  | refuse failure =>
    cases answers with
    | none =>
      cases h
      exact .refused post hpost rfl (.inl rfl)
    | some t =>
      simp only at h
      split_ifs at h with hwaits
      obtain ⟨phase, hphase, rfl⟩ := Option.map_eq_some_iff.mp h
      exact .refused post hpost rfl (.inr ⟨t, phase, rfl, hwaits, hphase, rfl⟩)

/-- A step that only sets a task, from the move that allows it. -/
theorem effect_setTask {t : ℕ} {old phase : ExecutorPhase} (htask : w.tasks t = old)
    (h : LocalStep hexdigest w action t old phase []) :
    ExecutorEffect hexdigest w action (w.setTask t phase) := by
  rw [← commit_nil]
  apply ExecutorEffect.moved
  rw [htask]
  exact h

theorem effect_commit {t : ℕ} {old phase : ExecutorPhase} {writes : List (UUID × RowWrite)}
    (htask : w.tasks t = old) (h : LocalStep hexdigest w action t old phase writes) :
    ExecutorEffect hexdigest w action (w.commit t writes phase) := by
  apply ExecutorEffect.moved
  rw [htask]
  exact h

/-- Every step has one of the listed effects. -/
theorem executorStep_effect (h : executorStep hexdigest w action = some w') :
    ExecutorEffect hexdigest w action w' := by
  cases action with
  | submit t a =>
    simp only [executorStep] at h
    split at h
    · rename_i htask hkey
      cases h
      exact effect_setTask htask (.submit _ (.inl ⟨rfl, _, hkey⟩))
    · rename_i htask _
      cases h
      exact effect_setTask htask (.submit _ (.inr rfl))
    · cases h
  | find t =>
    simp only [executorStep] at h
    split at h
    · rename_i a htask
      split at h
      · cases h
        exact effect_setTask htask .notFound
      · rename_i row hrow
        split_ifs at h with hdone
        · cases h
          exact effect_setTask htask .replayed
        · cases h
          push Not at hdone
          exact effect_setTask htask (.stranded hrow hdone.1 hdone.2)
    · cases h
  | lookup t answered =>
    simp only [executorStep] at h
    split at h
    · rename_i a row htask
      cases answered with
      | true =>
        simp only [if_true] at h
        split at h
        · rename_i habsent
          cases h
          exact effect_setTask htask (.absent habsent)
        · rename_i order hpresent
          cases h
          exact effect_setTask htask (.present hpresent)
      | false =>
        cases h
        exact effect_setTask htask .lookupFails
    · cases h
  | adopt t =>
    simp only [executorStep] at h
    split at h
    · rename_i htask
      cases h
      exact effect_commit htask .adopt
    · cases h
  | check t passed id =>
    simp only [executorStep] at h
    split at h
    · rename_i a resumed htask
      cases passed with
      | true =>
        simp only [if_true] at h
        cases resumed with
        | some row =>
          cases h
          exact effect_setTask htask .resume
        | none =>
          simp only at h
          split_ifs at h with hnew
          · cases h
            exact .inserted htask hnew
          · cases h
            exact effect_setTask htask .refused
      | false =>
        cases h
        exact effect_setTask htask .refused
    · cases h
  | post t =>
    simp only [executorStep] at h
    split at h
    · rename_i htask
      cases h
      exact .posted htask
    · rename_i htask
      cases h
      exact .legPosted htask
    · cases h
  | handle token handling answers =>
    simp only [executorStep] at h
    obtain ⟨post, hpost, hhandle⟩ := Option.bind_eq_some_iff.mp h
    have htoken : post.token = token := by
      simpa using List.find?_some hpost
    exact handle_effect (List.mem_of_find?_eq_some hpost) htoken hhandle
  | lose token =>
    cases h
    exact .lost
  | fail t failure =>
    simp only [executorStep] at h
    obtain ⟨phase, hphase, rfl⟩ := Option.map_eq_some_iff.mp h
    exact effect_setTask rfl (.fail hphase)
  | record t ok =>
    simp only [executorStep] at h
    split at h
    · rename_i htask
      cases ok with
      | true =>
        cases h
        exact effect_commit htask .record
      | false =>
        cases h
        exact effect_setTask htask .recordFails
    · cases h
  | announce t ok =>
    simp only [executorStep] at h
    split at h
    · rename_i htask
      cases ok with
      | true =>
        cases h
        exact effect_setTask htask .announce
      | false =>
        cases h
        exact effect_setTask htask .announceFails
    · cases h
  | reject t =>
    simp only [executorStep] at h
    split at h
    · rename_i htask
      cases h
      exact effect_commit htask .reject
    · cases h
  | recover t tenant session =>
    simp only [executorStep] at h
    split at h
    · rename_i htask
      cases h
      exact effect_setTask htask (.recover _ fun row hrow => List.mem_of_mem_filter hrow)
    · cases h
  | recoverLookup t answered =>
    simp only [executorStep] at h
    split at h
    · rename_i htask
      cases answered with
      | true =>
        cases h
        exact effect_setTask htask .recoverLookup
      | false =>
        cases h
        exact effect_setTask htask .recoverSkip
    · cases h
  | recoverCommit t =>
    simp only [executorStep] at h
    split at h
    · rename_i htask
      cases h
      exact effect_commit htask .recoverCommit
    · cases h
  | syncAll t tenant session =>
    simp only [executorStep] at h
    split at h
    · rename_i htask
      cases h
      exact effect_setTask htask (.sync _ fun row hrow => List.mem_of_mem_filter hrow)
    · cases h
  | syncOne t tenant id =>
    simp only [executorStep] at h
    split at h
    · rename_i htask
      cases h
      exact effect_setTask htask (.sync _ fun row hrow => List.mem_of_mem_filter hrow)
    · cases h
  | fetch t id answered =>
    simp only [executorStep] at h
    split at h
    · rename_i todo seen htask
      obtain ⟨row, hrow, rfl⟩ := Option.map_eq_some_iff.mp h
      have hmem : row ∈ todo := List.mem_of_find?_eq_some hrow
      have htodo : ∀ row ∈ todo.filter (·.id ≠ id), row ∈ todo :=
        fun row hrow => List.mem_of_mem_filter hrow
      split
      · rename_i order horder
        exact effect_setTask htask (.fetched hmem htodo horder)
      · exact effect_setTask htask (.fetchSkip htodo)
    · cases h
  | syncCommit t =>
    simp only [executorStep] at h
    split at h
    · rename_i htask
      cases h
      exact effect_commit htask .syncCommit
    · cases h
  | createLegs t ok id clientOrderId =>
    simp only [executorStep] at h
    split at h
    · rename_i parent parents brackets htask
      split_ifs at h with hok
      · obtain ⟨rfl, hnew⟩ := hok
        cases h
        exact .legsCreated ⟨parents, brackets⟩ htask hnew
      · cases h
        exact effect_setTask htask (.legsFail rfl)
    · cases h
  | recordLegs t ok =>
    simp only [executorStep] at h
    split at h
    · rename_i htask
      cases ok with
      | true =>
        cases h
        exact effect_commit htask .recordLegs
      | false =>
        cases h
        exact effect_setTask htask .recordLegsFails
    · cases h
  | rollback t =>
    simp only [executorStep] at h
    split at h
    · rename_i htask
      cases h
      exact effect_setTask htask .rollback
    · cases h
  | rejectLegs t =>
    simp only [executorStep] at h
    split at h
    · rename_i htask
      cases h
      exact effect_commit htask .rejectLegs
    · cases h
  | selectSiblings t =>
    simp only [executorStep] at h
    split at h
    · rename_i bracket brackets htask
      cases h
      refine effect_setTask htask (.selectSiblings _ (fun row hrow => ?_) (List.mem_cons_self ..)
        fun row hrow => List.mem_cons_of_mem _ hrow)
      have hfilter := List.mem_filter.mp hrow
      exact ⟨hfilter.1, (of_decide_eq_true hfilter.2).1⟩
    · cases h
  | cancelSibling t outcome =>
    simp only [executorStep] at h
    split at h
    · rename_i htask
      cases h
      exact effect_setTask htask .cancelSibling
    · cases h
  | siblingsCommit t =>
    simp only [executorStep] at h
    split at h
    · rename_i htask
      cases h
      exact effect_commit htask .siblingsCommit
    · cases h
  | move id status filledQty filledAvgPrice =>
    simp only [executorStep] at h
    split_ifs at h with hopen
    cases h
    refine .changed fun order horder hid => ?_
    have hall := List.all_eq_true.mp hopen order horder
    simpa [hid] using hall
  | crash t =>
    cases h
    exact effect_setTask rfl .crash

end Effects

end LlamaTrade
