import LlamaTrade.JsonValue
import LlamaTrade.StrategyParser

/-!
# Strategies as JSON

The JSON form of a strategy, as Python objects (`to_json.py`). Reading is `none` where the code
raises, or where a field does not have the type that the code casts it to.
-/

namespace LlamaTrade

/-! ## Fields -/

namespace Json

def asText : Json → Option String
  | .str s => some s
  | _ => none

def asInt : Json → Option ℤ
  | .int n => some n
  | _ => none

def asNumber : Json → Option ℚ
  | .int n => some n
  | .float f => some f.value
  | _ => none

def asParam : Json → Option Param
  | .int n => some (.int n)
  | .float f => some (.float f.value)
  | _ => none

def asList : Json → Option (List Json)
  | .list items => some items
  | _ => none

end Json

/-- `data[key]`. -/
def requiredField {α : Type} (data : Payload) (key : String) (read : Json → Option α) : Option α :=
  (data.lookup key).bind read

/-- A value that may be `None`. -/
def orNone {α : Type} (read : Json → Option α) : Json → Option (Option α)
  | .null => some none
  | value => (read value).map some

/-- `data.get(key)`. -/
def optionalField {α : Type} (data : Payload) (key : String) (read : Json → Option α) :
    Option (Option α) :=
  orNone read (Payload.get data key)

/-- `data.get(key, default)`. -/
def fieldOrElse {α : Type} (data : Payload) (key : String) (read : Json → Option α) (default : α) :
    Option α :=
  match data.lookup key with
  | none => some default
  | some value => read value

/-- `if value is not None: result[key] = value`. -/
def field {α : Type} (key : String) (write : α → Json) : Option α → Payload
  | none => []
  | some value => [(key, write value)]

/-- An optional string, where an empty one is absent. -/
def nonempty (text : Option String) : Option String := text.filter (· ≠ "")

namespace CrossoverDirection

def side : CrossoverDirection → String
  | .above => "above"
  | .below => "below"

def ofSide : String → Option CrossoverDirection := withText side [.above, .below]

@[simp] theorem ofSide_side (d : CrossoverDirection) : ofSide d.side = some d := by
  cases d <;> decide

end CrossoverDirection

/-! ## Writing -/

section Writing

variable (num : Numerics ℚ)

def floatJson (x : ℚ) : Json := .float ⟨x, num.text x⟩

def paramJson : Param → Json
  | .int n => .int n
  | .float x => floatJson num x

/-- `_value_to_json`. -/
def valueToJson : Value ℚ → Payload
  | .numericLiteral value => [("type", .str "numeric"), ("value", floatJson num value)]
  | .price symbol field =>
    [("type", .str "price"), ("symbol", .str symbol)] ++
      if field = .close then [] else [("field", .str field.text)]
  | .indicator ind =>
    [("type", .str "indicator"), ("name", .str ind.name.text), ("symbol", .str ind.symbol)] ++
      (if ind.params.isEmpty then [] else [("params", .list (ind.params.map (paramJson num)))]) ++
      field "output" .str (nonempty ind.output)
  | .metric metric =>
    [("type", .str "metric"), ("name", .str metric.name.text), ("symbol", .str metric.symbol)] ++
      field "period" .int metric.period

mutual

/-- `_condition_to_json`. -/
def conditionToJson : Condition ℚ → Payload
  | .comparison operator left right =>
    [("type", .str "comparison"), ("operator", .str operator.text),
      ("left", .obj (valueToJson num left)), ("right", .obj (valueToJson num right))]
  | .crossover direction fast slow =>
    [("type", .str "crossover"), ("direction", .str direction.side),
      ("fast", .obj (valueToJson num fast)), ("slow", .obj (valueToJson num slow))]
  | .logicalOp operator operands =>
    [("type", .str "logical"), ("operator", .str operator.text),
      ("operands", .list (conditionsToJson operands))]

def conditionsToJson : List (Condition ℚ) → List Json
  | [] => []
  | condition :: conditions => .obj (conditionToJson condition) :: conditionsToJson conditions

end

mutual

/-- `_block_to_json`. -/
def blockToJson : Block ℚ → Payload
  | .strategy name children rebalance =>
    [("type", .str "strategy"), ("name", .str name), ("children", .list (blocksToJson children))] ++
      field "rebalance" (fun r => .str r.text) rebalance
  | .group name children weight =>
    [("type", .str "group"), ("name", .str name), ("children", .list (blocksToJson children))] ++
      field "weight" (floatJson num) weight
  | .weight method children lookback top _ =>
    [("type", .str "weight"), ("method", .str method.text),
      ("children", .list (blocksToJson children))] ++
      field "lookback" .int lookback ++ field "top" .int top
  | .asset symbol weight =>
    [("type", .str "asset"), ("symbol", .str symbol)] ++ field "weight" (floatJson num) weight
  | .onlyIf condition thenBlock =>
    [("type", .str "if"), ("condition", .obj (conditionToJson num condition)),
      ("then", .obj (blockToJson thenBlock))]
  | .ifElse condition thenBlock elseBlock =>
    [("type", .str "if"), ("condition", .obj (conditionToJson num condition)),
      ("then", .obj (blockToJson thenBlock)), ("else_block", .obj (blockToJson elseBlock))]
  | .filter criteria direction count children lookback =>
    [("type", .str "filter"), ("by", .str criteria.text), ("select_direction", .str direction.text),
      ("select_count", .int count), ("children", .list (blocksToJson children))] ++
      field "lookback" .int lookback

def blocksToJson : List (Block ℚ) → List Json
  | [] => []
  | block :: blocks => .obj (blockToJson block) :: blocksToJson blocks

end

/-- `to_json`. -/
def toJson (strategy : DescribedStrategy) : Payload :=
  [("type", .str "strategy"), ("name", .str strategy.name),
    ("children", .list (blocksToJson num strategy.children))] ++
    field "rebalance" (fun r => .str r.text) strategy.rebalance ++
    field "benchmark" .str (nonempty strategy.benchmark) ++
    field "description" .str (nonempty strategy.description)

end Writing

/-! ## Reading -/

/-- `_value_from_json`. -/
def valueFromJson : Json → Option (Value ℚ)
  | .obj data => do
    let kind ← requiredField data "type" Json.asText
    if kind = "numeric" then
      return .numericLiteral (← requiredField data "value" Json.asNumber)
    else if kind = "price" then
      return .price (← requiredField data "symbol" Json.asText)
        (← fieldOrElse data "field" (fun v => v.asText.bind PriceField.ofText) .close)
    else if kind = "indicator" then
      return .indicator ⟨← requiredField data "name" (fun v => v.asText.bind IndicatorName.ofText),
        ← requiredField data "symbol" Json.asText,
        ← fieldOrElse data "params" (fun v => v.asList.bind (List.mapM Json.asParam)) [],
        ← optionalField data "output" Json.asText, none⟩
    else if kind = "metric" then
      return .metric ⟨← requiredField data "name" (fun v => v.asText.bind MetricName.ofText),
        ← requiredField data "symbol" Json.asText, ← optionalField data "period" Json.asInt⟩
    else none
  | _ => none

mutual

/-- `_condition_from_json`. -/
def conditionFromJson : Json → Option (Condition ℚ)
  | .obj data => do
    let kind ← requiredField data "type" Json.asText
    if kind = "comparison" then
      return .comparison
        (← requiredField data "operator" fun v => v.asText.bind ComparisonOperator.ofText)
        (← requiredField data "left" valueFromJson) (← requiredField data "right" valueFromJson)
    else if kind = "crossover" then
      return .crossover
        (← requiredField data "direction" fun v => v.asText.bind CrossoverDirection.ofSide)
        (← requiredField data "fast" valueFromJson) (← requiredField data "slow" valueFromJson)
    else if kind = "logical" then
      return .logicalOp
        (← requiredField data "operator" fun v => v.asText.bind LogicalOperator.ofText)
        (← operandsFromJson data)
    else none
  | _ => none

/-- The conditions of `data["operands"]`. -/
def operandsFromJson : List (String × Json) → Option (List (Condition ℚ))
  | [] => none
  | (key, value) :: rest =>
    if key = "operands" then
      match value with
      | .list items => conditionsFromJson items
      | _ => none
    else operandsFromJson rest

def conditionsFromJson : List Json → Option (List (Condition ℚ))
  | [] => some []
  | item :: items => do return (← conditionFromJson item) :: (← conditionsFromJson items)

end

mutual

/-- `_block_from_json`. -/
def blockFromJson : Json → Option (Block ℚ)
  | .obj data => do
    let kind ← requiredField data "type" Json.asText
    if kind = "strategy" then
      return .strategy (← requiredField data "name" Json.asText) (← childrenFromJson data)
        (← optionalField data "rebalance" fun v => v.asText.bind RebalanceFrequency.ofText)
    else if kind = "group" then
      return .group (← requiredField data "name" Json.asText) (← childrenFromJson data)
        (← optionalField data "weight" Json.asNumber)
    else if kind = "weight" then
      return .weight (← requiredField data "method" fun v => v.asText.bind WeightMethod.ofText)
        (← childrenFromJson data) (← optionalField data "lookback" Json.asInt)
        (← optionalField data "top" Json.asInt) none
    else if kind = "asset" then
      return .asset (← requiredField data "symbol" Json.asText)
        (← optionalField data "weight" Json.asNumber)
    else if kind = "if" then
      let condition ← requiredField data "condition" conditionFromJson
      let thenBlock ← blockAt "then" data
      if (Payload.get data "else_block").truthy then
        return .ifElse condition thenBlock (← blockAt "else_block" data)
      else return .onlyIf condition thenBlock
    else if kind = "filter" then
      return .filter (← requiredField data "by" fun v => v.asText.bind FilterCriteria.ofText)
        (← requiredField data "select_direction" fun v => v.asText.bind SelectDirection.ofText)
        (← requiredField data "select_count" Json.asInt) (← childrenFromJson data)
        (← optionalField data "lookback" Json.asInt)
    else none
  | _ => none

/-- The block of `data[key]`. -/
def blockAt (key : String) : List (String × Json) → Option (Block ℚ)
  | [] => none
  | (k, value) :: rest => if k = key then blockFromJson value else blockAt key rest

/-- The blocks of `data.get("children", [])`. -/
def childrenFromJson : List (String × Json) → Option (List (Block ℚ))
  | [] => some []
  | (key, value) :: rest =>
    if key = "children" then
      match value with
      | .list items => blocksFromJson items
      | _ => none
    else childrenFromJson rest

def blocksFromJson : List Json → Option (List (Block ℚ))
  | [] => some []
  | item :: items => do return (← blockFromJson item) :: (← blocksFromJson items)

end

/-- `from_json`. -/
def fromJson (data : Payload) : Option DescribedStrategy := do
  return ⟨⟨← requiredField data "name" Json.asText, ← childrenFromJson data,
    ← optionalField data "rebalance" fun v => v.asText.bind RebalanceFrequency.ofText⟩,
    ← optionalField data "benchmark" Json.asText, ← optionalField data "description" Json.asText⟩

/-! ## Round trip -/

/-- An indicator without its source location, where an empty output is absent. -/
def bareValue : Value ℚ → Value ℚ
  | .indicator ind => .indicator ⟨ind.name, ind.symbol, ind.params, nonempty ind.output, none⟩
  | value => value

mutual

def bareCondition : Condition ℚ → Condition ℚ
  | .comparison operator left right => .comparison operator (bareValue left) (bareValue right)
  | .crossover direction fast slow => .crossover direction (bareValue fast) (bareValue slow)
  | .logicalOp operator operands => .logicalOp operator (bareConditions operands)

def bareConditions : List (Condition ℚ) → List (Condition ℚ)
  | [] => []
  | condition :: conditions => bareCondition condition :: bareConditions conditions

end

mutual

def bareBlock : Block ℚ → Block ℚ
  | .strategy name children rebalance => .strategy name (bareBlocks children) rebalance
  | .group name children weight => .group name (bareBlocks children) weight
  | .weight method children lookback top _ => .weight method (bareBlocks children) lookback top none
  | .asset symbol weight => .asset symbol weight
  | .onlyIf condition thenBlock => .onlyIf (bareCondition condition) (bareBlock thenBlock)
  | .ifElse condition thenBlock elseBlock =>
    .ifElse (bareCondition condition) (bareBlock thenBlock) (bareBlock elseBlock)
  | .filter criteria direction count children lookback =>
    .filter criteria direction count (bareBlocks children) lookback

def bareBlocks : List (Block ℚ) → List (Block ℚ)
  | [] => []
  | block :: blocks => bareBlock block :: bareBlocks blocks

end

/-- A strategy without source locations, where empty optional strings are absent. -/
def DescribedStrategy.bare (strategy : DescribedStrategy) : DescribedStrategy :=
  ⟨⟨strategy.name, bareBlocks strategy.children, strategy.rebalance⟩, nonempty strategy.benchmark,
    nonempty strategy.description⟩

section RoundTrip

variable {α : Type} {num : Numerics ℚ}

theorem requiredField_cons (k : String) (v : Json) (rest : Payload) (key : String)
    (read : Json → Option α) : requiredField ((k, v) :: rest) key read =
      if key = k then read v else requiredField rest key read := by
  by_cases h : key = k
  · simp [requiredField, h]
  · have hne : (key == k) = false := by simpa using h
    simp [requiredField, List.lookup_cons, hne, h]

theorem optionalField_cons (k : String) (v : Json) (rest : Payload) (key : String)
    (read : Json → Option α) : optionalField ((k, v) :: rest) key read =
      if key = k then orNone read v else optionalField rest key read := by
  by_cases h : key = k <;> simp [optionalField, Payload.get_cons, h]

theorem fieldOrElse_cons (k : String) (v : Json) (rest : Payload) (key : String)
    (read : Json → Option α) (default : α) : fieldOrElse ((k, v) :: rest) key read default =
      if key = k then read v else fieldOrElse rest key read default := by
  by_cases h : key = k
  · simp [fieldOrElse, h]
  · have hne : (key == k) = false := by simpa using h
    simp [fieldOrElse, List.lookup_cons, hne, h]

theorem fieldOrElse_nil (key : String) (read : Json → Option α) (default : α) :
    fieldOrElse [] key read default = some default := rfl

theorem optionalField_nil (key : String) (read : Json → Option α) :
    optionalField [] key read = some none := rfl

variable (num) in
theorem mapM_asParam (params : List Param) :
    (params.map (paramJson num)).mapM Json.asParam = some params := by
  induction params with
  | nil => rfl
  | cons p params ih =>
    have hp : Json.asParam (paramJson num p) = some p := by cases p <;> rfl
    rw [List.map_cons, List.mapM_cons, hp, ih]
    rfl

theorem valueFromJson_value (value : Value ℚ) :
    valueFromJson (.obj (valueToJson num value)) = some (bareValue value) := by
  cases value with
  | numericLiteral value =>
    simp [valueToJson, valueFromJson, requiredField_cons, Json.asText, Json.asNumber, floatJson,
      bareValue]
  | price symbol field =>
    by_cases hclose : field = .close
    · simp [valueToJson, valueFromJson, requiredField_cons, fieldOrElse_cons, fieldOrElse_nil,
        Json.asText, bareValue, hclose]
    · simp [valueToJson, valueFromJson, requiredField_cons, fieldOrElse_cons, Json.asText,
        bareValue, hclose]
  | indicator ind =>
    cases hempty : ind.params with
    | nil =>
      cases hout : nonempty ind.output <;>
        simp [valueToJson, valueFromJson, requiredField_cons, fieldOrElse_cons, fieldOrElse_nil,
          optionalField_cons, optionalField_nil, orNone, field, Json.asText, bareValue,
          hempty, hout]
    | cons p params =>
      have hparams := mapM_asParam num (p :: params)
      cases hout : nonempty ind.output <;>
        simp [valueToJson, valueFromJson, requiredField_cons, fieldOrElse_cons, fieldOrElse_nil,
          optionalField_cons, optionalField_nil, orNone, field, Json.asText,
          Json.asList, bareValue, hempty, hout, -List.map_cons, -List.mapM_cons, hparams]
  | metric metric =>
    obtain ⟨name, symbol, period⟩ := metric
    cases period <;>
      simp [valueToJson, valueFromJson, requiredField_cons, optionalField_cons, optionalField_nil,
        orNone, field, Json.asText, Json.asInt, bareValue]

mutual

theorem conditionFromJson_condition : (condition : Condition ℚ) →
    conditionFromJson (.obj (conditionToJson num condition)) = some (bareCondition condition)
  | .comparison operator left right => by
    simp [conditionToJson, conditionFromJson, requiredField_cons, Json.asText, bareCondition,
      valueFromJson_value]
  | .crossover direction fast slow => by
    simp [conditionToJson, conditionFromJson, requiredField_cons, Json.asText, bareCondition,
      valueFromJson_value]
  | .logicalOp operator operands => by
    have hoperands := conditionsFromJson_conditions operands
    simp [conditionToJson, conditionFromJson, operandsFromJson, requiredField_cons, Json.asText,
      bareCondition, hoperands]

theorem conditionsFromJson_conditions : (conditions : List (Condition ℚ)) →
    conditionsFromJson (conditionsToJson num conditions) = some (bareConditions conditions)
  | [] => rfl
  | condition :: conditions => by
    rw [conditionsToJson, conditionsFromJson, conditionFromJson_condition condition,
      conditionsFromJson_conditions conditions]
    rfl

end

theorem childrenFromJson_cons (k : String) (v : Json) (rest : Payload) :
    childrenFromJson ((k, v) :: rest) =
      if k = "children" then (v.asList).bind blocksFromJson else childrenFromJson rest := by
  cases v <;> simp [childrenFromJson, Json.asList]

variable (num) in
mutual

theorem blockFromJson_block : (block : Block ℚ) →
    blockFromJson (.obj (blockToJson num block)) = some (bareBlock block)
  | .strategy name children rebalance => by
    have hchildren := blocksFromJson_blocks children
    cases rebalance <;>
      simp [blockToJson, blockFromJson, requiredField_cons, optionalField_cons, optionalField_nil,
        orNone, field, childrenFromJson_cons, Json.asText, Json.asList, bareBlock, hchildren]
  | .group name children weight => by
    have hchildren := blocksFromJson_blocks children
    cases weight <;>
      simp [blockToJson, blockFromJson, requiredField_cons, optionalField_cons, optionalField_nil,
        orNone, field, childrenFromJson_cons, Json.asText, Json.asList, Json.asNumber, floatJson,
        bareBlock, hchildren]
  | .weight method children lookback top location => by
    have hchildren := blocksFromJson_blocks children
    cases lookback <;> cases top <;>
      simp [blockToJson, blockFromJson, requiredField_cons, optionalField_cons, optionalField_nil,
        orNone, field, childrenFromJson_cons, Json.asText, Json.asList, Json.asInt, bareBlock,
        hchildren]
  | .asset symbol weight => by
    cases weight <;>
      simp [blockToJson, blockFromJson, requiredField_cons, optionalField_cons, optionalField_nil,
        orNone, field, Json.asText, Json.asNumber, floatJson, bareBlock]
  | .onlyIf condition thenBlock => by
    rw [blockToJson, blockFromJson]
    have hget : Payload.get [] "else_block" = .null := rfl
    simp [blockAt, requiredField_cons, Payload.get_cons, hget, Json.truthy, Json.asText, bareBlock,
      conditionFromJson_condition, blockFromJson_block thenBlock]
  | .ifElse condition thenBlock elseBlock => by
    have hne : blockToJson num elseBlock ≠ [] := by
      cases elseBlock <;> simp [blockToJson]
    rw [blockToJson, blockFromJson]
    simp [blockAt, requiredField_cons, Payload.get_cons, Json.truthy, Json.asText, bareBlock,
      conditionFromJson_condition, blockFromJson_block thenBlock, blockFromJson_block elseBlock, hne]
  | .filter criteria direction count children lookback => by
    have hchildren := blocksFromJson_blocks children
    cases lookback <;>
      simp [blockToJson, blockFromJson, requiredField_cons, optionalField_cons, optionalField_nil,
        orNone, field, childrenFromJson_cons, Json.asText, Json.asList, Json.asInt, bareBlock,
        hchildren]

theorem blocksFromJson_blocks : (blocks : List (Block ℚ)) →
    blocksFromJson (blocksToJson num blocks) = some (bareBlocks blocks)
  | [] => rfl
  | block :: blocks => by
    rw [blocksToJson, blocksFromJson, blockFromJson_block block, blocksFromJson_blocks blocks]
    rfl

end

/-- **Round trip.** A strategy that is written as JSON and read back is the same up to source
locations and empty optional strings. -/
theorem json_round_trip (num : Numerics ℚ) (strategy : DescribedStrategy) :
    fromJson (toJson num strategy) = some strategy.bare := by
  obtain ⟨⟨name, children, rebalance⟩, benchmark, description⟩ := strategy
  have hchildren := blocksFromJson_blocks num children
  cases rebalance <;> cases hbenchmark : nonempty benchmark <;>
    cases hdescription : nonempty description <;>
    simp [toJson, fromJson, requiredField_cons, optionalField_cons, optionalField_nil, orNone, field,
      childrenFromJson_cons, Json.asText, Json.asList, DescribedStrategy.bare, hchildren,
      hbenchmark, hdescription]

end RoundTrip

end LlamaTrade
