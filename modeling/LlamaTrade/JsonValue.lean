import LlamaTrade.Arithmetic

/-!
# JSON values as Python objects

Event payloads and checkpoint rows are JSON documents read into Python objects.
This file models those objects and the built-in operations the ledger applies to
them: `str`, `int`, truth value, iteration, subscription by a string key. A float
is given by its exact value and its `repr`; no relation between the two is
assumed. A dictionary is a list of fields in which the first entry of a key counts.
-/

namespace LlamaTrade

structure PyFloat where
  value : ℚ
  repr : String
  deriving DecidableEq

inductive Json where
  | null
  | bool (b : Bool)
  | int (n : ℤ)
  | float (f : PyFloat)
  | str (s : String)
  | list (items : List Json)
  | obj (fields : List (String × Json))

/-- `dict[str, Any]`, the data of an event. -/
abbrev Payload := List (String × Json)

namespace Json

def typeName : Json → String
  | null => "NoneType"
  | bool _ => "bool"
  | int _ => "int"
  | float _ => "float"
  | str _ => "str"
  | list _ => "list"
  | obj _ => "dict"

def hexDigit (n : ℕ) : Char := Nat.digitChar (n % 16)

/-- One character of a quoted string; characters outside ASCII print as they are. -/
def escapeChar (quote c : Char) : List Char :=
  if c = quote ∨ c = '\\' then ['\\', c]
  else if c = '\n' then ['\\', 'n']
  else if c = '\r' then ['\\', 'r']
  else if c = '\t' then ['\\', 't']
  else if c.toNat < 32 ∨ c.toNat = 127 then
    ['\\', 'x', hexDigit (c.toNat / 16), hexDigit c.toNat]
  else [c]

/-- `repr` of a string: single quotes unless only those occur inside. -/
def quoteText (s : String) : String :=
  let quote := if '\'' ∈ s.toList ∧ '"' ∉ s.toList then '"' else '\''
  String.ofList (quote :: s.toList.flatMap (escapeChar quote) ++ [quote])

mutual

def repr : Json → String
  | null => "None"
  | bool b => if b then "True" else "False"
  | int n => PyText.intText n
  | float f => f.repr
  | str s => quoteText s
  | list items => "[" ++ String.intercalate ", " (reprItems items) ++ "]"
  | obj fields => "\x7b" ++ String.intercalate ", " (reprFields fields) ++ "\x7d"

def reprItems : List Json → List String
  | [] => []
  | x :: xs => repr x :: reprItems xs

def reprFields : List (String × Json) → List String
  | [] => []
  | (k, v) :: xs => (quoteText k ++ ": " ++ repr v) :: reprFields xs

end

/-- `str(x)`. -/
def pyStr : Json → String
  | str s => s
  | x => repr x

@[simp] theorem pyStr_str (s : String) : (str s).pyStr = s := rfl

def truthy : Json → Bool
  | null => false
  | bool b => b
  | int n => n != 0
  | float f => f.value != 0
  | str s => s != ""
  | list items => !items.isEmpty
  | obj fields => !fields.isEmpty

/-- What `for item in x` runs over: a string yields its characters, a dictionary
its keys. -/
def iter : Json → Except PyError (List Json)
  | list items => .ok items
  | str s => .ok (s.toList.map fun c => str (String.singleton c))
  | obj fields => .ok (fields.map fun f => str f.1)
  | x => .error (.typeError (x.typeName ++ " object is not iterable"))

/-- `x[key]` with a string key. -/
def subscript (x : Json) (key : String) : Except PyError Json :=
  match x with
  | obj fields =>
    match fields.lookup key with
    | some v => .ok v
    | none => .error (.keyError key)
  | str _ => .error (.typeError "string indices must be integers")
  | list _ => .error (.typeError "list indices must be integers or slices")
  | x => .error (.typeError (x.typeName ++ " object is not subscriptable"))

def truncate (q : ℚ) : ℤ := if q < 0 then -((-q.num) / q.den) else q.num / q.den

/-- `int(x)`. -/
def toInt : Json → Except PyError ℤ
  | int n => .ok n
  | bool b => .ok (if b then 1 else 0)
  | float f => .ok (truncate f.value)
  | str s => PyText.parseInt s
  | _ => .error (.typeError "int() argument must be a string or a number")

end Json

namespace Payload

/-- `data[key]`. -/
def item (data : Payload) (key : String) : Except PyError Json :=
  match data.lookup key with
  | some v => .ok v
  | none => .error (.keyError key)

/-- `str(data[key])`. -/
def text (data : Payload) (key : String) : Except PyError String :=
  match data.item key with
  | .ok v => .ok v.pyStr
  | .error e => .error e

/-- `data.get(key)`. -/
def get (data : Payload) (key : String) : Json := (data.lookup key).getD .null

/-- `key in data`. -/
def has (data : Payload) (key : String) : Bool := (data.lookup key).isSome

/-- `data[key] = value`: an existing key keeps its place. -/
def set : Payload → String → Json → Payload
  | [], key, v => [(key, v)]
  | (k, x) :: rest, key, v => if k = key then (k, v) :: rest else (k, x) :: set rest key v

theorem lookup_set (data : Payload) (key key' : String) (v : Json) :
    (data.set key v).lookup key' = if key' = key then some v else data.lookup key' := by
  induction data with
  | nil =>
    by_cases h : key' = key
    · simp [set, h]
    · have hne : (key' == key) = false := by simpa using h
      simp [set, List.lookup_cons, h, hne]
  | cons f rest ih =>
    obtain ⟨k, x⟩ := f
    by_cases hk : k = key
    · by_cases h : key' = key
      · simp [set, hk, h]
      · have hne : (key' == key) = false := by simpa using h
        simp [set, hk, h, List.lookup_cons, hne]
    · by_cases h : key' = k
      · have hne : ¬ key' = key := fun heq => hk (h.symm.trans heq)
        simp [set, hk, h]
      · have hne : (key' == k) = false := by simpa using h
        simp [set, hk, List.lookup_cons, hne, ih]

theorem get_cons (key other : String) (value : Json) (rest : Payload) :
    get ((other, value) :: rest) key = if key = other then value else get rest key := by
  by_cases h : key = other
  · simp [get, h]
  · have hne : (key == other) = false := by simpa using h
    simp [get, List.lookup_cons, h, hne]

theorem get_set (data : Payload) (key key' : String) (value : Json) :
    get (data.set key value) key' = if key' = key then value else get data key' := by
  by_cases h : key' = key <;> simp [get, lookup_set, h]

end Payload

example : (Json.list [.str "a", .null, .obj [("k", .int (-2))]]).pyStr =
    "['a', None, \x7b'k': -2\x7d]" := by decide

end LlamaTrade
