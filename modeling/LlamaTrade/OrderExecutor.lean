import LlamaTrade.TradingOrders
import Mathlib.Logic.Function.Basic

/-!
# The order executor and the broker

`OrderExecutor` as a system of concurrent tasks over the `orders` table and the broker: the
submission of an order with its replay and its retries, the recovery of stranded rows, and the
REST sync with the bracket orders it places and cancels. A task advances from one statement
that waits to the next. A POST is a message: the broker may handle it after the client has
given up, and its answer may be lost. A task can crash wherever it waits.
-/

namespace LlamaTrade

/-! ## Requests -/

/-- How a call of the trading client fails, by the exception it raises. -/
inductive AlpacaFailure where
  | connectError | timeout | rateLimit | serverError | invalidRequest | symbolNotFound
  | authentication | circuitOpen | transport
  deriving DecidableEq, Repr

/-- `RetryConfig.retryable_exceptions`. -/
def AlpacaFailure.retryable : AlpacaFailure → Bool
  | .connectError | .timeout | .rateLimit | .serverError => true
  | _ => false

/-- `RetryConfig.max_retries`. -/
def maxRetries : ℕ := 3

/-- A time of day on a date: naive, or aware and then already converted to UTC. -/
structure SignalTime where
  year : ℕ
  month : ℕ
  day : ℕ
  hour : ℕ
  minute : ℕ
  second : ℕ
  microsecond : ℕ
  aware : Bool
  deriving DecidableEq, Repr

/-- `datetime.isoformat()`. -/
def SignalTime.isoformat (t : SignalTime) : String :=
  padded 4 t.year ++ "-" ++ padded 2 t.month ++ "-" ++ padded 2 t.day ++ "T" ++ padded 2 t.hour ++
    ":" ++ padded 2 t.minute ++ ":" ++ padded 2 t.second ++
    (if t.microsecond = 0 then "" else "." ++ padded 6 t.microsecond) ++
    (if t.aware then "+00:00" else "")

/-- What identifies a signal. -/
structure SignalKey where
  sessionId : UUID
  symbol : String
  side : OrderSide
  timestamp : SignalTime
  deriving DecidableEq

/-- `generate_deterministic_order_id`; `hexdigest` is that of SHA-256. -/
def generateDeterministicOrderId (hexdigest : String → String) (key : SignalKey) : String :=
  let data := key.sessionId.text ++ ":" ++ key.symbol ++ ":" ++ orderSideToStr key.side ++ ":" ++
    key.timestamp.isoformat
  "lt-" ++ String.ofList ((hexdigest data).toList.take 16)

/-- Where the client order id of a submission comes from: a signal, or `uuid4`. -/
inductive OrderKey where
  | signal (timestamp : SignalTime)
  | drawn (id : UUID)
  deriving DecidableEq

/-- The arguments of `submit_order`. -/
structure OrderAttempt where
  tenantId : UUID
  sessionId : UUID
  symbol : String
  side : OrderSide
  qty : Decimal
  stopLossPrice : Option Decimal
  takeProfitPrice : Option Decimal
  sleeveId : Option UUID
  accountId : Option UUID
  key : OrderKey

def OrderAttempt.signalKey (a : OrderAttempt) (timestamp : SignalTime) : SignalKey :=
  ⟨a.sessionId, PyText.upper a.symbol, a.side, timestamp⟩

def OrderAttempt.clientOrderId (hexdigest : String → String) (a : OrderAttempt) : String :=
  match a.key with
  | .signal timestamp => generateDeterministicOrderId hexdigest (a.signalKey timestamp)
  | .drawn id => id.text

/-- What a POST is sent for. The broker does not see it. -/
inductive Purpose where
  | signal (key : SignalKey)
  | manual
  | leg (parent : UUID) (type : BracketType)
  deriving DecidableEq

def OrderAttempt.purpose (a : OrderAttempt) : Purpose :=
  match a.key with
  | .signal timestamp => .signal (a.signalKey timestamp)
  | .drawn _ => .manual

/-- A POST on its way to the broker. -/
structure Submission where
  token : ℕ
  clientOrderId : Option String
  purpose : Purpose
  deriving DecidableEq

/-- An order at the broker; `clientOrderId` is the one it was sent with, and `none` where the
broker made one up. -/
structure BrokerOrder where
  id : String
  clientOrderId : Option String
  purpose : Purpose
  status : AlpacaStatus
  filledQty : Decimal
  filledAvgPrice : Option Decimal
  deriving DecidableEq

/-- The order neither works nor was filled, and never will. -/
def AlpacaStatus.isDead : AlpacaStatus → Bool
  | .canceled | .expired | .replaced | .rejected => true
  | _ => false

/-! ## Rows -/

/-- The columns that a task has changed on a row it loaded. -/
structure RowWrite where
  alpacaOrderId : Option String
  status : Option OrderStatus
  filledQty : Option Decimal
  filledAvgPrice : Option Decimal
  deriving DecidableEq

def RowWrite.nothing : RowWrite := ⟨none, none, none, none⟩

def OrderRow.write (row : OrderRow) (write : RowWrite) : OrderRow :=
  { row with
    alpacaOrderId := write.alpacaOrderId.or row.alpacaOrderId
    status := write.status.getD row.status
    filledQty := write.filledQty.getD row.filledQty
    filledAvgPrice := write.filledAvgPrice.or row.filledAvgPrice }

/-- A commit writes the changed columns of the loaded rows. -/
def writeRows (rows : List OrderRow) (writes : List (UUID × RowWrite)) : List OrderRow :=
  writes.foldl (fun rows w => rows.map fun row => if row.id = w.1 then row.write w.2 else row) rows

/-- `bool(Decimal)`, and false for `None`. -/
def isSet : Option Decimal → Bool
  | none | some (.finite _ 0 _) => false
  | some _ => true

/-- The changed value of a column. -/
def changed {α : Type} [DecidableEq α] (loaded value : α) : Option α :=
  if value = loaded then none else some value

/-- `_update_from_alpaca`. -/
def updateFromAlpaca (loaded : OrderRow) (order : BrokerOrder) : RowWrite where
  alpacaOrderId := none
  status := changed loaded.status (mapAlpacaStatus order.status)
  filledQty := if isSet (some order.filledQty) then changed loaded.filledQty order.filledQty else none
  filledAvgPrice := if isSet order.filledAvgPrice ∧ order.filledAvgPrice ≠ loaded.filledAvgPrice
    then order.filledAvgPrice else none

/-- The same for a row without a broker id, which gets it. -/
def adoptOrder (loaded : OrderRow) (order : BrokerOrder) : RowWrite :=
  { updateFromAlpaca loaded order with alpacaOrderId := some order.id }

/-- What `_update_from_alpaca` returns: the order just became filled. -/
def justFilled (loaded : OrderRow) (order : BrokerOrder) : Bool :=
  loaded.status ≠ .filled && mapAlpacaStatus order.status = .filled

/-- The record that `submit_order` inserts. -/
def newOrder (hexdigest : String → String) (id : UUID) (a : OrderAttempt) : OrderRow where
  id := id
  tenantId := a.tenantId
  sessionId := a.sessionId
  alpacaOrderId := none
  clientOrderId := a.clientOrderId hexdigest
  symbol := PyText.upper a.symbol
  side := a.side
  qty := a.qty
  status := .pending
  filledQty := .finite false 0 0
  filledAvgPrice := none
  filledAt := none
  canceledAt := none
  sleeveId := a.sleeveId
  accountId := a.accountId
  parentOrderId := none
  bracketType := none
  stopLossPrice := if isSet a.stopLossPrice then a.stopLossPrice else none
  takeProfitPrice := if isSet a.takeProfitPrice then a.takeProfitPrice else none

/-- The record that `_create_bracket_order_in_db` inserts; its prices are left out. -/
def newLeg (parent : OrderRow) (type : BracketType) (id clientOrderId : UUID) : OrderRow where
  id := id
  tenantId := parent.tenantId
  sessionId := parent.sessionId
  alpacaOrderId := none
  clientOrderId := clientOrderId.text
  symbol := parent.symbol
  side := if parent.side = .buy then .sell else .buy
  qty := parent.qty
  status := .pending
  filledQty := .finite false 0 0
  filledAvgPrice := none
  filledAt := none
  canceledAt := none
  sleeveId := parent.sleeveId
  accountId := parent.accountId
  parentOrderId := some parent.id
  bracketType := some type
  stopLossPrice := none
  takeProfitPrice := none

/-! ## Tasks -/

/-- What is left of the tail of a sync: the filled parents without brackets, and the filled
brackets whose siblings are to be cancelled. -/
structure SyncTail where
  parents : List OrderRow
  brackets : List OrderRow

/-- A `_submit_bracket_orders` call: the parent, the rows of its legs and the answers so far. -/
structure LegJob where
  parent : OrderRow
  legs : List (BracketType × UUID)
  answers : List (UUID × BrokerOrder)
  tail : SyncTail

/-- Where a task waits. -/
inductive ExecutorPhase where
  | idle
  -- `submit_order`
  | finding (a : OrderAttempt)
  | replaying (a : OrderAttempt) (row : OrderRow)
  | adopting (row : OrderRow) (found : BrokerOrder)
  | checking (a : OrderAttempt) (resumed : Option OrderRow)
  | sending (a : OrderAttempt) (row : UUID) (tries : ℕ)
  | waiting (a : OrderAttempt) (row : UUID) (tries token : ℕ)
  | recording (a : OrderAttempt) (row : UUID) (answer : BrokerOrder)
  | announcing (a : OrderAttempt) (row : UUID)
  | rejecting (a : OrderAttempt) (row : UUID)
  -- `recover_stranded_orders`
  | recovering (todo : List OrderRow) (seen : List (OrderRow × Option BrokerOrder))
  -- `sync_all_pending_orders` and `sync_order_status`
  | syncing (todo : List OrderRow) (seen : List (OrderRow × BrokerOrder))
  | handlingFills (tail : SyncTail)
  -- `_submit_bracket_orders`; the legs still to be sent start with the current one
  | sendingLeg (job : LegJob) (legs : List (BracketType × UUID)) (tries : ℕ)
  | waitingLeg (job : LegJob) (legs : List (BracketType × UUID)) (tries token : ℕ)
  | recordingLegs (job : LegJob)
  | rollingBack (job : LegJob) (ids : List String)
  -- `_handle_bracket_fill`
  | cancellingSiblings (todo : List OrderRow) (writes : List (UUID × RowWrite)) (tail : SyncTail)

/-- The orders table, the broker, the POSTs on their way and the tasks. -/
structure ExecutorWorld where
  rows : List OrderRow
  broker : List BrokerOrder
  wire : List Submission
  nextToken : ℕ
  tasks : ℕ → ExecutorPhase

def ExecutorWorld.empty : ExecutorWorld := ⟨[], [], [], 0, fun _ => .idle⟩

namespace ExecutorWorld

variable (w : ExecutorWorld)

def setTask (t : ℕ) (phase : ExecutorPhase) : ExecutorWorld :=
  { w with tasks := Function.update w.tasks t phase }

/-- A commit of the task, after which it waits elsewhere. -/
def commit (t : ℕ) (writes : List (UUID × RowWrite)) (phase : ExecutorPhase) : ExecutorWorld :=
  { w.setTask t phase with rows := writeRows w.rows writes }

/-- `get_order_by_client_id`. -/
def orderByClientId (clientOrderId : String) : Option BrokerOrder :=
  w.broker.find? (·.clientOrderId = some clientOrderId)

/-- `get_order`. -/
def orderById (id : String) : Option BrokerOrder := w.broker.find? (·.id = id)

/-- A POST leaves for the broker. -/
def send (t : ℕ) (clientOrderId : Option String) (purpose : Purpose) (phase : ℕ → ExecutorPhase) :
    ExecutorWorld :=
  { w.setTask t (phase w.nextToken) with
    wire := w.wire ++ [⟨w.nextToken, clientOrderId, purpose⟩]
    nextToken := w.nextToken + 1 }

/-- The rows can be inserted: primary keys and client order ids are unique. -/
def insertable (rows : List OrderRow) : Bool :=
  decide ((w.rows ++ rows).map (·.id)).Nodup &&
    decide ((w.rows ++ rows).map (·.clientOrderId)).Nodup

/-- The broker can accept the POST: it enforces the uniqueness of client order ids, and makes
up an id of its own. -/
def acceptable (post : Submission) (id : String) : Bool :=
  decide (w.orderById id = none) &&
    post.clientOrderId.all fun clientOrderId => decide (w.orderByClientId clientOrderId = none)

end ExecutorWorld

/-! ## Steps -/

/-- What the broker does with a POST. -/
inductive Handling where
  | accept (id : String) (status : AlpacaStatus) (filledQty : Decimal) (filledAvgPrice : Option Decimal)
  | refuse (failure : AlpacaFailure)

/-- What comes of the DELETE of a sibling: it is marked as cancelled, also after an error of
the API; or the broker does not know it, and its status is synced if the GET is answered. -/
inductive SiblingCancel where
  | marked
  | notFound (answered : Bool)

inductive ExecutorAction where
  | submit (t : ℕ) (a : OrderAttempt)
  | find (t : ℕ)
  | lookup (t : ℕ) (answered : Bool)
  | adopt (t : ℕ)
  | check (t : ℕ) (passed : Bool) (id : UUID)
  | post (t : ℕ)
  | handle (token : ℕ) (handling : Handling) (answers : Option ℕ)
  | lose (token : ℕ)
  | fail (t : ℕ) (failure : AlpacaFailure)
  | record (t : ℕ) (ok : Bool)
  | announce (t : ℕ) (ok : Bool)
  | reject (t : ℕ)
  | recover (t : ℕ) (tenant session : UUID)
  | recoverLookup (t : ℕ) (answered : Bool)
  | recoverCommit (t : ℕ)
  | syncAll (t : ℕ) (tenant session : UUID)
  | syncOne (t : ℕ) (tenant id : UUID)
  | fetch (t : ℕ) (id : UUID) (answered : Bool)
  | syncCommit (t : ℕ)
  | createLegs (t : ℕ) (ok : Bool) (id clientOrderId : BracketType → UUID)
  | recordLegs (t : ℕ) (ok : Bool)
  | rollback (t : ℕ)
  | rejectLegs (t : ℕ)
  | selectSiblings (t : ℕ)
  | cancelSibling (t : ℕ) (outcome : SiblingCancel)
  | siblingsCommit (t : ℕ)
  | move (id : String) (status : AlpacaStatus) (filledQty : Decimal) (filledAvgPrice : Option Decimal)
  | crash (t : ℕ)

/-- The POST that a task waits for. -/
def ExecutorPhase.token : ExecutorPhase → Option ℕ
  | .waiting _ _ _ token => some token
  | .waitingLeg _ _ _ token => some token
  | _ => none

/-- A POST fails: `retry_with_backoff` sends it again, or raises. -/
def afterFailure (failure : AlpacaFailure) : ExecutorPhase → Option ExecutorPhase
  | .waiting a row tries _ =>
    if failure.retryable ∧ tries < maxRetries then some (.sending a row (tries + 1))
    else some (.rejecting a row)
  | .waitingLeg job legs tries _ =>
    if failure.retryable ∧ tries < maxRetries then some (.sendingLeg job legs (tries + 1))
    else some (.rollingBack job (job.answers.map (·.2.id)))
  | _ => none

/-- A POST is answered with the order. -/
def afterAnswer (order : BrokerOrder) : ExecutorPhase → Option ExecutorPhase
  | .waiting a row _ _ => some (.recording a row order)
  | .waitingLeg job (leg :: legs) _ _ =>
    let job := { job with answers := job.answers ++ [(leg.2, order)] }
    if legs = [] then some (.recordingLegs job) else some (.sendingLeg job legs 0)
  | _ => none

/-- What is written for an accepted order that was pending. -/
def answerWrite (order : BrokerOrder) : RowWrite where
  alpacaOrderId := some order.id
  status := changed .pending (mapAlpacaStatus order.status)
  filledQty := none
  filledAvgPrice := none

def statusWrite (status : OrderStatus) : RowWrite := { RowWrite.nothing with status := some status }

/-- What `recover_stranded_orders` writes for a row. -/
def recoveryWrite : OrderRow × Option BrokerOrder → UUID × RowWrite
  | (row, some order) => (row.id, adoptOrder row order)
  | (row, none) => (row.id, statusWrite .rejected)

/-- What `_submit_bracket_orders` writes for the legs when it rolls back; the answered ones
have got their broker id before. -/
def rollbackWrites (job : LegJob) : List (UUID × RowWrite) :=
  job.legs.map fun leg => (leg.2,
    { statusWrite .rejected with
      alpacaOrderId := (job.answers.lookup leg.2).map (·.id) })

/-- The legs that a parent asks for. -/
def legTypes (parent : OrderRow) : List BracketType :=
  (if isSet parent.stopLossPrice then [.stopLoss] else []) ++
    (if isSet parent.takeProfitPrice then [.takeProfit] else [])

/-- The tail of a sync. -/
def syncTail (seen : List (OrderRow × BrokerOrder)) : SyncTail where
  parents := (seen.filter fun e => justFilled e.1 e.2 && e.1.parentOrderId.isNone &&
    !(legTypes e.1).isEmpty).map (·.1)
  brackets := (seen.filter fun e => justFilled e.1 e.2 && e.1.parentOrderId.isSome).map (·.1)

/-- The statuses of `sync_all_pending_orders`, and those of a sibling that can be cancelled. -/
def OrderStatus.isOpen : OrderStatus → Bool
  | .pending | .submitted | .accepted | .partiallyFilled => true
  | _ => false

/-- What `_handle_bracket_fill` writes for a sibling. -/
def siblingWrites (w : ExecutorWorld) (sibling : OrderRow) (outcome : SiblingCancel) :
    List (UUID × RowWrite) :=
  if sibling.status.isOpen then
    match outcome, sibling.alpacaOrderId with
    | .notFound answered, some id =>
      match answered, w.orderById id with
      | true, some order => [(sibling.id, { RowWrite.nothing with
          status := changed sibling.status (mapAlpacaStatus order.status) })]
      | _, _ => []
    | _, _ => [(sibling.id, statusWrite .cancelled)]
  else []

/-- A status that the broker does not change any more. -/
def AlpacaStatus.isFinal (status : AlpacaStatus) : Bool := status.isDead || status = .filled

namespace ExecutorWorld

variable (hexdigest : String → String) (w : ExecutorWorld)

/-- `_find_order_by_client_id`. -/
def findOrder (a : OrderAttempt) : Option OrderRow :=
  w.rows.find? fun row => row.clientOrderId = a.clientOrderId hexdigest ∧ row.tenantId = a.tenantId

/-- The broker handles a POST; the answer reaches the task that waits for it, or nobody. -/
def handle (post : Submission) (handling : Handling) (answers : Option ℕ) : Option ExecutorWorld :=
  let w₁ := { w with wire := w.wire.filter (·.token ≠ post.token) }
  let waits := fun t => (w.tasks t).token = some post.token
  match handling with
  | .accept id status filledQty filledAvgPrice =>
    if w.acceptable post id then
      let order : BrokerOrder :=
        ⟨id, post.clientOrderId, post.purpose, status, filledQty, filledAvgPrice⟩
      let w₂ := { w₁ with broker := w.broker ++ [order] }
      match answers with
      | none => some w₂
      | some t => if waits t then (afterAnswer order (w.tasks t)).map (w₂.setTask t) else none
    else none
  | .refuse failure =>
    match answers with
    | none => some w₁
    | some t => if waits t then (afterFailure failure (w.tasks t)).map (w₁.setTask t) else none

end ExecutorWorld

/-- One step of the system; `none` when it is not enabled. -/
def executorStep (hexdigest : String → String) (w : ExecutorWorld) :
    ExecutorAction → Option ExecutorWorld
  | .submit t a =>
    match w.tasks t, a.key with
    | .idle, .signal _ => some (w.setTask t (.finding a))
    | .idle, .drawn _ => some (w.setTask t (.checking a none))
    | _, _ => none
  | .find t =>
    match w.tasks t with
    | .finding a =>
      match w.findOrder hexdigest a with
      | none => some (w.setTask t (.checking a none))
      | some row =>
        if row.alpacaOrderId ≠ none ∨ row.status ≠ .pending then some (w.setTask t .idle)
        else some (w.setTask t (.replaying a row))
    | _ => none
  | .lookup t answered =>
    match w.tasks t with
    | .replaying a row =>
      if answered then
        match w.orderByClientId (a.clientOrderId hexdigest) with
        | none => some (w.setTask t (.checking a (some row)))
        | some order => some (w.setTask t (.adopting row order))
      else some (w.setTask t .idle)
    | _ => none
  | .adopt t =>
    match w.tasks t with
    | .adopting row order => some (w.commit t [(row.id, adoptOrder row order)] .idle)
    | _ => none
  | .check t passed id =>
    match w.tasks t with
    | .checking a resumed =>
      if passed then
        match resumed with
        | some row => some (w.setTask t (.sending a row.id 0))
        | none =>
          if w.insertable [newOrder hexdigest id a] then
            some { w.setTask t (.sending a id 0) with
              rows := w.rows ++ [newOrder hexdigest id a] }
          else some (w.setTask t .idle)
      else some (w.setTask t .idle)
    | _ => none
  | .post t =>
    match w.tasks t with
    | .sending a row tries =>
      some (w.send t (some (a.clientOrderId hexdigest)) a.purpose (.waiting a row tries))
    | .sendingLeg job (leg :: legs) tries =>
      some (w.send t none (.leg job.parent.id leg.1) (.waitingLeg job (leg :: legs) tries))
    | _ => none
  | .handle token handling answers =>
    (w.wire.find? (·.token = token)).bind fun post => w.handle post handling answers
  | .lose token => some { w with wire := w.wire.filter (·.token ≠ token) }
  | .fail t failure => (afterFailure failure (w.tasks t)).map (w.setTask t)
  | .record t ok =>
    match w.tasks t with
    | .recording a row order =>
      if ok then some (w.commit t [(row, answerWrite order)] (.announcing a row))
      else some (w.setTask t (.rejecting a row))
    | _ => none
  | .announce t ok =>
    match w.tasks t with
    | .announcing a row => some (w.setTask t (if ok then .idle else .rejecting a row))
    | _ => none
  | .reject t =>
    match w.tasks t with
    | .rejecting _ row => some (w.commit t [(row, statusWrite .rejected)] .idle)
    | _ => none
  | .recover t tenant session =>
    match w.tasks t with
    | .idle => some (w.setTask t (.recovering (w.rows.filter fun row => row.tenantId = tenant ∧
        row.sessionId = session ∧ row.status = .pending ∧ row.alpacaOrderId = none) []))
    | _ => none
  | .recoverLookup t answered =>
    match w.tasks t with
    | .recovering (row :: todo) seen =>
      some (w.setTask t (.recovering todo
        (if answered then seen ++ [(row, w.orderByClientId row.clientOrderId)] else seen)))
    | _ => none
  | .recoverCommit t =>
    match w.tasks t with
    | .recovering [] seen => some (w.commit t (seen.map recoveryWrite) .idle)
    | _ => none
  | .syncAll t tenant session =>
    match w.tasks t with
    | .idle => some (w.setTask t (.syncing (w.rows.filter fun row => row.tenantId = tenant ∧
        row.sessionId = session ∧ row.status.isOpen ∧ row.alpacaOrderId ≠ none) []))
    | _ => none
  | .syncOne t tenant id =>
    match w.tasks t with
    | .idle => some (w.setTask t (.syncing (w.rows.filter fun row => row.id = id ∧
        row.tenantId = tenant ∧ row.alpacaOrderId ≠ none) []))
    | _ => none
  | .fetch t id answered =>
    match w.tasks t with
    | .syncing todo seen =>
      (todo.find? (·.id = id)).map fun row =>
        w.setTask t (.syncing (todo.filter (·.id ≠ id))
          (match answered, row.alpacaOrderId.bind w.orderById with
          | true, some order => seen ++ [(row, order)]
          | _, _ => seen))
    | _ => none
  | .syncCommit t =>
    match w.tasks t with
    | .syncing [] seen =>
      some (w.commit t (seen.map fun e => (e.1.id, updateFromAlpaca e.1 e.2))
        (.handlingFills (syncTail seen)))
    | _ => none
  | .createLegs t ok id clientOrderId =>
    match w.tasks t with
    | .handlingFills ⟨parent :: parents, brackets⟩ =>
      let legs := (legTypes parent).map fun type => (type, id type)
      let rows := (legTypes parent).map fun type => newLeg parent type (id type) (clientOrderId type)
      if ok ∧ w.insertable rows then
        some { w.setTask t (.sendingLeg ⟨parent, legs, [], ⟨parents, brackets⟩⟩ legs 0) with
          rows := w.rows ++ rows }
      else some (w.setTask t (.handlingFills ⟨parents, brackets⟩))
    | _ => none
  | .recordLegs t ok =>
    match w.tasks t with
    | .recordingLegs job =>
      if ok then
        some (w.commit t (job.answers.map fun e => (e.1, answerWrite e.2)) (.handlingFills job.tail))
      else some (w.setTask t (.rollingBack job (job.answers.map (·.2.id))))
    | _ => none
  | .rollback t =>
    match w.tasks t with
    | .rollingBack job (_ :: ids) => some (w.setTask t (.rollingBack job ids))
    | _ => none
  | .rejectLegs t =>
    match w.tasks t with
    | .rollingBack job [] => some (w.commit t (rollbackWrites job) (.handlingFills job.tail))
    | _ => none
  | .selectSiblings t =>
    match w.tasks t with
    | .handlingFills ⟨[], bracket :: brackets⟩ =>
      some (w.setTask t (.cancellingSiblings (w.rows.filter fun row =>
        row.parentOrderId = bracket.parentOrderId ∧ row.id ≠ bracket.id) [] ⟨[], brackets⟩))
    | _ => none
  | .cancelSibling t outcome =>
    match w.tasks t with
    | .cancellingSiblings (sibling :: todo) writes tail =>
      some (w.setTask t (.cancellingSiblings todo (writes ++ siblingWrites w sibling outcome) tail))
    | _ => none
  | .siblingsCommit t =>
    match w.tasks t with
    | .cancellingSiblings [] writes tail => some (w.commit t writes (.handlingFills tail))
    | _ => none
  | .move id status filledQty filledAvgPrice =>
    if w.broker.all fun order => order.id = id → !order.status.isFinal then
      some { w with
        broker := w.broker.map fun order =>
          if order.id = id then { order with status, filledQty, filledAvgPrice } else order }
    else none
  | .crash t => some (w.setTask t .idle)

end LlamaTrade
