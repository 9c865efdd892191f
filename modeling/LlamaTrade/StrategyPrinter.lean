import LlamaTrade.StrategyParser

/-!
# Printer of the strategy language

`serialize` of the DSL, compact and pretty. A number that is not whole is printed as `str` prints a
float: plainly if its magnitude is at least `1e-4` and less than `1e16`, else with an exponent. The
digits are those of the exact decimal.
-/

namespace LlamaTrade

/-! ## Numbers -/

/-- The first exponent from `k` on for which the denominator divides a power of ten. -/
def placesFrom (den : ℕ) : ℕ → ℕ → ℕ
  | 0, k => k
  | fuel + 1, k => if den ∣ 10 ^ k then k else placesFrom den fuel (k + 1)

/-- The decimal places of an exact decimal. -/
def decimalPlaces (x : ℚ) : ℕ := placesFrom x.den x.den 0

/-- The digits of a decimal without its point, as a number. -/
def decimalDigits (x : ℚ) : ℕ := x.num.natAbs * (10 ^ decimalPlaces x / x.den)

def signChars (x : ℚ) : List Char := if x < 0 then ['-'] else []

/-- Digits with zeros in front, up to a given width. -/
def zeroPadded (width : ℕ) (digits : List Char) : List Char :=
  List.replicate (width - digits.length) '0' ++ digits

/-- The digits before the point. -/
def wholeChars (x : ℚ) : List Char := Nat.toDigits 10 (decimalDigits x / 10 ^ decimalPlaces x)

/-- The digits after the point. -/
def fractionChars (x : ℚ) : List Char :=
  zeroPadded (decimalPlaces x) (Nat.toDigits 10 (decimalDigits x % 10 ^ decimalPlaces x))

/-- A decimal written out, such as `12.05`. -/
def plainChars (x : ℚ) : List Char := signChars x ++ (wholeChars x ++ '.' :: fractionChars x)

/-- The end of a decimal with an exponent, such as `e-05`. -/
def exponentPart (exponent : ℤ) : List Char :=
  'e' :: (if exponent < 0 then '-' else '+') :: zeroPadded 2 (Nat.toDigits 10 exponent.natAbs)

/-- A decimal with an exponent, such as `1.5e-05`. -/
def exponentChars (x : ℚ) : List Char :=
  let digits := Nat.toDigits 10 (decimalDigits x)
  signChars x ++ (digits.take 1 ++ ((if digits.length = 1 then [] else '.' :: digits.drop 1) ++
    exponentPart (digits.length - 1 - decimalPlaces x)))

/-- `str(x)` writes the number out. -/
def WrittenOut (x : ℚ) : Prop := 1 / 10 ^ 4 ≤ |x| ∧ |x| < 10 ^ 16

instance (x : ℚ) : Decidable (WrittenOut x) := inferInstanceAs (Decidable (_ ∧ _))

/-- `str(x)` of a float that is not whole. -/
def floatText (x : ℚ) : String :=
  String.ofList (if WrittenOut x then plainChars x else exponentChars x)

/-- `_format_weight`. Numeric literals and parameters are printed in the same way. -/
def formatWeight (x : ℚ) : String := if x.den = 1 then PyText.intText x.num else floatText x

/-! ## Values and conditions -/

/-- `str.replace` of one character. -/
def replaceChar (c : Char) (new : List Char) (cs : List Char) : List Char :=
  cs.flatMap fun x => if x = c then new else [x]

/-- `_escape_string`. -/
def escapeString (s : String) : String :=
  String.ofList <| replaceChar '\n' ['\\', 'n'] <| replaceChar '"' ['\\', '"'] <|
    replaceChar '\\' ['\\', '\\'] s.toList

/-- A string literal. -/
def quoted (s : String) : String := "\"" ++ escapeString s ++ "\""

/-- `sep.join(parts)` with a blank. -/
def joinBlank (parts : List String) : String := " ".intercalate parts

/-- `sep.join(lines)` with a line break. -/
def joinLines (lines : List String) : String := "\n".intercalate lines

/-- The output of an indicator, which is printed unless it is empty. -/
def indicatorOutput : Option String → List String
  | none => []
  | some output => if output = "" then [] else [":" ++ output]

/-- `_serialize_value`. -/
def serializeValue : Value ℚ → String
  | .numericLiteral value => formatWeight value
  | .price symbol field =>
    if field = .close then "(price " ++ symbol ++ ")"
    else "(price " ++ symbol ++ " " ++ (":" ++ field.text) ++ ")"
  | .indicator ind =>
    "(" ++ joinBlank ([ind.name.text, ind.symbol] ++ ind.params.map (fun p => formatWeight p.value) ++
      indicatorOutput ind.output) ++ ")"
  | .metric metric =>
    match metric.period with
    | none => "(" ++ metric.name.text ++ " " ++ metric.symbol ++ ")"
    | some period =>
      if period = 0 then "(" ++ metric.name.text ++ " " ++ metric.symbol ++ ")"
      else "(" ++ metric.name.text ++ " " ++ metric.symbol ++ " " ++ PyText.intText period ++ ")"

mutual

/-- `_serialize_condition`. -/
def serializeCondition : Condition ℚ → String
  | .comparison operator left right =>
    "(" ++ operator.text ++ " " ++ serializeValue left ++ " " ++ serializeValue right ++ ")"
  | .crossover direction fast slow =>
    "(" ++ direction.text ++ " " ++ serializeValue fast ++ " " ++ serializeValue slow ++ ")"
  | .logicalOp operator operands =>
    "(" ++ operator.text ++ " " ++ joinBlank (serializeConditions operands) ++ ")"

def serializeConditions : List (Condition ℚ) → List String
  | [] => []
  | operand :: operands => serializeCondition operand :: serializeConditions operands

end

/-! ## Blocks -/

/-- `" " * indent`. -/
def blanks (indent : ℕ) : String := String.ofList (List.replicate indent ' ')

/-- An optional keyword argument. -/
def keywordPart (keyword : String) : Option String → List String
  | none => []
  | some text => [keyword ++ " " ++ text]

/-- `weight_attr` of a group or an asset. -/
def weightAttr : Option ℚ → String
  | none => ""
  | some weight => " :weight " ++ formatWeight weight

/-- A block with children: its head is followed by the children on the same line, or on lines of
their own. -/
def withChildren (pretty : Bool) (indent : ℕ) (head : String) (children : List String) : String :=
  if pretty then joinLines ([blanks indent ++ head] ++ children ++ [blanks indent ++ ")"])
  else head ++ " " ++ joinBlank children ++ ")"

/-- The arguments of a strategy. An empty text counts as none. -/
def strategyParts (name : String) (rebalance : Option RebalanceFrequency)
    (benchmark description : Option String) : List String :=
  [quoted name] ++ keywordPart ":rebalance" (rebalance.map (·.text)) ++
    keywordPart ":benchmark" (benchmark.filter (· ≠ "")) ++
    keywordPart ":description" ((description.filter (· ≠ "")).map quoted)

/-- `_serialize_strategy`, with the texts of its children. -/
def strategyText (pretty : Bool) (indent : ℕ) (parts children : List String) : String :=
  if pretty then
    joinLines ([blanks indent ++ "(strategy"] ++ parts.map (blanks (indent + 2) ++ ·) ++ children ++
      [blanks indent ++ ")"])
  else "(strategy " ++ joinBlank parts ++ " " ++ joinBlank children ++ ")"

mutual

/-- `_serialize_block`. The compact form does not use the indentation. -/
def serializeBlock (pretty : Bool) (indent : ℕ) : Block ℚ → String
  | .strategy name children rebalance =>
    strategyText pretty indent (strategyParts name rebalance none none)
      (serializeBlocks pretty (indent + 2) children)
  | .group name children weight =>
    withChildren pretty indent ("(group " ++ quoted name ++ weightAttr weight)
      (serializeBlocks pretty (indent + 2) children)
  | .weight method children lookback top _ =>
    withChildren pretty indent
      ("(weight " ++ joinBlank ([":method " ++ method.text] ++
        keywordPart ":lookback" (lookback.map PyText.intText) ++
        keywordPart ":top" (top.map PyText.intText)))
      (serializeBlocks pretty (indent + 2) children)
  | .asset symbol weight =>
    (if pretty then blanks indent else "") ++ "(asset " ++ symbol ++ weightAttr weight ++ ")"
  | .onlyIf condition thenBlock =>
    let cond := serializeCondition condition
    let thenText := serializeBlock pretty (indent + 2) thenBlock
    if pretty then joinLines [blanks indent ++ "(if " ++ cond, thenText, blanks indent ++ ")"]
    else "(if " ++ cond ++ " " ++ thenText ++ ")"
  | .ifElse condition thenBlock elseBlock =>
    let cond := serializeCondition condition
    let thenText := serializeBlock pretty (indent + 2) thenBlock
    let elseText := serializeBlock pretty (indent + 4) elseBlock
    if pretty then
      joinLines [blanks indent ++ "(if " ++ cond, thenText, blanks (indent + 2) ++ "(else", elseText,
        blanks (indent + 2) ++ ")", blanks indent ++ ")"]
    else "(if " ++ cond ++ " " ++ thenText ++ " (else " ++ elseText ++ ")" ++ ")"
  | .filter criteria direction count children lookback =>
    withChildren pretty indent
      ("(filter " ++ joinBlank ([":by " ++ criteria.text,
        ":select (" ++ direction.text ++ " " ++ PyText.intText count ++ ")"] ++
        keywordPart ":lookback" (lookback.map PyText.intText)))
      (serializeBlocks pretty (indent + 2) children)

def serializeBlocks (pretty : Bool) (indent : ℕ) : List (Block ℚ) → List String
  | [] => []
  | block :: blocks => serializeBlock pretty indent block :: serializeBlocks pretty indent blocks

end

/-- `serialize`. -/
def serialize (strategy : DescribedStrategy) (pretty : Bool) : String :=
  strategyText pretty 0
    (strategyParts strategy.name strategy.rebalance strategy.benchmark strategy.description)
    (serializeBlocks pretty 2 strategy.children)

end LlamaTrade
