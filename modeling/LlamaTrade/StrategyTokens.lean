import LlamaTrade.PythonText

/-!
# Tokens of the strategy language

`Tokenizer` of the DSL's parser. `TOKEN_PATTERN` is an ordered choice of nine patterns, and
`finditer` looks for its next match: a character at which no pattern matches is passed over. The
positions of the tokens are left out.
-/

namespace LlamaTrade

/-- A token: the name of its group in `TOKEN_PATTERN` and the text that it matches. -/
inductive Token where
  | lparen
  | rparen
  | string (value : String)
  | keyword (value : String)
  | number (value : String)
  | operator (value : String)
  | symbol (value : String)
  deriving DecidableEq

namespace Token

def kind : Token → String
  | .lparen => "LPAREN"
  | .rparen => "RPAREN"
  | .string _ => "STRING"
  | .keyword _ => "KEYWORD"
  | .number _ => "NUMBER"
  | .operator _ => "OPERATOR"
  | .symbol _ => "SYMBOL"

def value : Token → String
  | .lparen => "("
  | .rparen => ")"
  | .string value | .keyword value | .number value | .operator value | .symbol value => value

end Token

/-- A match of `TOKEN_PATTERN`, or a character at which there is none. -/
inductive Lexeme where
  | token (token : Token)
  | skip (chars : List Char)
  | comment (chars : List Char)
  | unknown (char : Char)
  deriving DecidableEq

namespace Lexeme

def chars : Lexeme → List Char
  | .token t => t.value.toList
  | .skip cs => cs
  | .comment cs => cs
  | .unknown c => [c]

def token? : Lexeme → Option Token
  | .token t => some t
  | _ => none

end Lexeme

/-- What a pattern matches at the front of a text, and what is left of the text. -/
abbrev Matched := Option (List Char × List Char)

/-- One given character. -/
def matchChar (x : Char) : List Char → Matched
  | c :: cs => if c = x then some ([c], cs) else none
  | [] => none

/-- `(?:[^"\\]|\\.)*"`. -/
def matchStringTail : List Char → Matched
  | [] => none
  | [c] => if c = '"' then some ([c], []) else none
  | c :: d :: cs =>
    if c = '"' then some ([c], d :: cs)
    else if c = '\\' then
      if d = '\n' then none else (matchStringTail cs).map fun m => (c :: d :: m.1, m.2)
    else (matchStringTail (d :: cs)).map fun m => (c :: m.1, m.2)

/-- `"(?:[^"\\]|\\.)*"`. -/
def matchString : List Char → Matched
  | c :: cs => if c = '"' then (matchStringTail cs).map fun m => (c :: m.1, m.2) else none
  | [] => none

/-- `[a-zA-Z_]`. -/
def isNameStart (c : Char) : Bool := c.isAlpha || c == '_'

/-- `[a-zA-Z0-9_-]`. -/
def isNameChar (c : Char) : Bool := c.isAlphanum || c == '_' || c == '-'

/-- A first character, and the run of `[a-zA-Z0-9_-]` after it. -/
def matchName (start : Char → Bool) : List Char → Matched
  | c :: cs => if start c then some (c :: cs.takeWhile isNameChar, cs.dropWhile isNameChar) else none
  | [] => none

/-- `:[a-zA-Z_][a-zA-Z0-9_-]*`. -/
def matchKeyword : List Char → Matched
  | c :: cs => if c = ':' then (matchName isNameStart cs).map fun m => (c :: m.1, m.2) else none
  | [] => none

/-- `\.?[0-9]*`. -/
def matchFraction : List Char → List Char × List Char
  | c :: cs =>
    if c = '.' then (c :: cs.takeWhile Char.isDigit, cs.dropWhile Char.isDigit) else ([], c :: cs)
  | [] => ([], [])

/-- `[0-9]+\.?[0-9]*`. The first run takes every digit. -/
def matchUnsigned : List Char → Matched
  | c :: cs =>
    if c.isDigit then
      let fraction := matchFraction (cs.dropWhile Char.isDigit)
      some (c :: cs.takeWhile Char.isDigit ++ fraction.1, fraction.2)
    else none
  | [] => none

/-- `-?[0-9]+\.?[0-9]*`. -/
def matchNumber : List Char → Matched
  | c :: cs =>
    if c = '-' then (matchUnsigned cs).map fun m => (c :: m.1, m.2) else matchUnsigned (c :: cs)
  | [] => none

/-- `>=|<=|!=|crosses-above|crosses-below|[><+\-*/=]`. -/
def operatorTexts : List (List Char) :=
  [">=".toList, "<=".toList, "!=".toList, "crosses-above".toList, "crosses-below".toList,
    ['>'], ['<'], ['+'], ['-'], ['*'], ['/'], ['=']]

def matchOperator (cs : List Char) : Matched :=
  (operatorTexts.find? fun op => op.isPrefixOf cs).map fun op => (op, cs.drop op.length)

/-- `\s+`. -/
def matchSkip : List Char → Matched
  | c :: cs =>
    if PyText.isSpace c then some (c :: cs.takeWhile PyText.isSpace, cs.dropWhile PyText.isSpace)
    else none
  | [] => none

/-- `;[^\n]*`. -/
def matchComment : List Char → Matched
  | c :: cs =>
    if c = ';' then some (c :: cs.takeWhile (· != '\n'), cs.dropWhile (· != '\n')) else none
  | [] => none

/-- The lexeme of a match, and what is left of the text. -/
def Matched.to (m : Matched) (f : List Char → Lexeme) : Option (Lexeme × List Char) :=
  m.map fun m => (f m.1, m.2)

def tokenOf (kind : String → Token) (cs : List Char) : Lexeme := .token (kind (String.ofList cs))

/-- `TOKEN_PATTERN` at the front of a text: the first pattern that matches. -/
def lexOne (cs : List Char) : Option (Lexeme × List Char) :=
  ((matchChar '(' cs).to fun _ => .token .lparen).or <|
  ((matchChar ')' cs).to fun _ => .token .rparen).or <|
  ((matchString cs).to (tokenOf .string)).or <|
  ((matchKeyword cs).to (tokenOf .keyword)).or <|
  ((matchNumber cs).to (tokenOf .number)).or <|
  ((matchOperator cs).to (tokenOf .operator)).or <|
  ((matchName (fun c => isNameStart c || c == '$') cs).to (tokenOf .symbol)).or <|
  ((matchSkip cs).to .skip).or <|
  (matchComment cs).to .comment

/-- `finditer`, with the characters that it passes over. Every step takes a character, so a text
needs no more steps than it has characters. -/
def scan : ℕ → List Char → List Lexeme
  | _, [] => []
  | 0, _ => []
  | n + 1, c :: cs =>
    match lexOne (c :: cs) with
    | some (lexeme, rest) => lexeme :: scan n rest
    | none => .unknown c :: scan n cs

def lexemes (cs : List Char) : List Lexeme := scan cs.length cs

/-- `_tokenize`. -/
def tokenize (cs : List Char) : List Token := (lexemes cs).filterMap Lexeme.token?

/-! ## Lexemes are the text -/

/-- A match is a first part of the text, and not empty. -/
def Matched.Splits (m : Matched) (cs : List Char) : Prop := ∀ p ∈ m, p.1 ++ p.2 = cs ∧ p.1 ≠ []

theorem Matched.Splits.map_cons {m : Matched} {cs : List Char} (h : m.Splits cs) (c : Char) :
    Matched.Splits (m.map fun p => (c :: p.1, p.2)) (c :: cs) := by
  rintro _ hp
  obtain ⟨p, hm, rfl⟩ := Option.mem_map.mp hp
  exact ⟨by rw [List.cons_append, (h p hm).1], List.cons_ne_nil _ _⟩

theorem splits_none (cs : List Char) : Matched.Splits none cs := fun _ hp => absurd hp (by simp)

theorem splits_some {cs text rest : List Char} (h : text ++ rest = cs) (hne : text ≠ []) :
    Matched.Splits (some (text, rest)) cs := by
  rintro _ ⟨⟩
  exact ⟨h, hne⟩

theorem splits_matchChar (x : Char) (cs : List Char) : (matchChar x cs).Splits cs := by
  cases cs with
  | nil => exact splits_none _
  | cons c cs =>
    rw [matchChar]
    split_ifs
    · exact splits_some rfl (List.cons_ne_nil _ _)
    · exact splits_none _

theorem splits_matchStringTail (cs : List Char) : (matchStringTail cs).Splits cs := by
  fun_induction matchStringTail cs with
  | case1 => exact splits_none _
  | case2 => exact splits_some rfl (List.cons_ne_nil _ _)
  | case3 c h => exact splits_none _
  | case4 d cs => exact splits_some rfl (List.cons_ne_nil _ _)
  | case5 cs h => exact splits_none _
  | case6 d cs h hd ih =>
    have hpair := (ih.map_cons d).map_cons '\\'
    rwa [Option.map_map] at hpair
  | case7 c d cs h hc ih => exact ih.map_cons c

theorem splits_matchString (cs : List Char) : (matchString cs).Splits cs := by
  cases cs with
  | nil => exact splits_none _
  | cons c cs =>
    rw [matchString]
    split_ifs
    · exact (splits_matchStringTail cs).map_cons c
    · exact splits_none _

theorem splits_matchName (start : Char → Bool) (cs : List Char) :
    (matchName start cs).Splits cs := by
  cases cs with
  | nil => exact splits_none _
  | cons c cs =>
    rw [matchName]
    split_ifs
    · exact splits_some (by simp) (List.cons_ne_nil _ _)
    · exact splits_none _

theorem splits_matchKeyword (cs : List Char) : (matchKeyword cs).Splits cs := by
  cases cs with
  | nil => exact splits_none _
  | cons c cs =>
    rw [matchKeyword]
    split_ifs
    · exact (splits_matchName _ cs).map_cons c
    · exact splits_none _

theorem matchFraction_append (cs : List Char) :
    (matchFraction cs).1 ++ (matchFraction cs).2 = cs := by
  cases cs with
  | nil => rfl
  | cons c cs =>
    rw [matchFraction]
    split_ifs <;> simp

theorem splits_matchUnsigned (cs : List Char) : (matchUnsigned cs).Splits cs := by
  cases cs with
  | nil => exact splits_none _
  | cons c cs =>
    rw [matchUnsigned]
    split_ifs
    · refine splits_some ?_ (by simp)
      rw [List.append_assoc, matchFraction_append, List.cons_append,
        List.takeWhile_append_dropWhile]
    · exact splits_none _

theorem splits_matchNumber (cs : List Char) : (matchNumber cs).Splits cs := by
  cases cs with
  | nil => exact splits_none _
  | cons c cs =>
    rw [matchNumber]
    split_ifs
    · exact (splits_matchUnsigned cs).map_cons c
    · exact splits_matchUnsigned (c :: cs)

theorem operatorTexts_ne_nil : ∀ op ∈ operatorTexts, op ≠ [] := by decide

theorem splits_matchOperator (cs : List Char) : (matchOperator cs).Splits cs := by
  rw [matchOperator]
  cases hop : operatorTexts.find? fun op => op.isPrefixOf cs with
  | none => exact splits_none _
  | some op =>
    have hprefix := List.find?_some hop
    obtain ⟨rest, rfl⟩ := List.isPrefixOf_iff_prefix.mp hprefix
    exact splits_some (by simp) (operatorTexts_ne_nil op (List.mem_of_find?_eq_some hop))

theorem splits_matchSkip (cs : List Char) : (matchSkip cs).Splits cs := by
  cases cs with
  | nil => exact splits_none _
  | cons c cs =>
    rw [matchSkip]
    split_ifs
    · exact splits_some (by simp) (List.cons_ne_nil _ _)
    · exact splits_none _

theorem splits_matchComment (cs : List Char) : (matchComment cs).Splits cs := by
  cases cs with
  | nil => exact splits_none _
  | cons c cs =>
    rw [matchComment]
    split_ifs
    · exact splits_some (by simp) (List.cons_ne_nil _ _)
    · exact splits_none _

/-- A lexeme is a first part of the text, and not empty. -/
def SplitsText (r : Option (Lexeme × List Char)) (cs : List Char) : Prop :=
  ∀ p ∈ r, p.1.chars ++ p.2 = cs ∧ p.1.chars ≠ []

theorem Matched.Splits.to {m : Matched} {cs : List Char} (h : m.Splits cs)
    {f : List Char → Lexeme} (hf : ∀ p ∈ m, (f p.1).chars = p.1) : SplitsText (m.to f) cs := by
  rintro _ hp
  obtain ⟨p, hm, rfl⟩ := Option.mem_map.mp hp
  rw [hf p hm]
  exact h p hm

theorem SplitsText.or {r r' : Option (Lexeme × List Char)} {cs : List Char} (h : SplitsText r cs)
    (h' : SplitsText r' cs) : SplitsText (r.or r') cs := by
  cases r with
  | none => exact h'
  | some p => exact h

theorem fst_of_mem_matchChar {x : Char} {cs : List Char} :
    ∀ p ∈ matchChar x cs, [x] = p.1 := by
  intro p hp
  cases cs with
  | nil => exact absurd hp (by simp [matchChar])
  | cons c cs =>
    rw [matchChar] at hp
    split_ifs at hp with hc
    · cases hp
      rw [hc]
    · cases hp

theorem chars_tokenOf {kind : String → Token} (hkind : ∀ value, (kind value).value = value)
    (text : List Char) : (tokenOf kind text).chars = text := by
  rw [tokenOf, Lexeme.chars, hkind, String.toList_ofList]

theorem splitsText_lexOne (cs : List Char) : SplitsText (lexOne cs) cs :=
  ((splits_matchChar '(' cs).to fst_of_mem_matchChar).or <|
  ((splits_matchChar ')' cs).to fst_of_mem_matchChar).or <|
  ((splits_matchString cs).to fun _ _ => chars_tokenOf (fun _ => rfl) _).or <|
  ((splits_matchKeyword cs).to fun _ _ => chars_tokenOf (fun _ => rfl) _).or <|
  ((splits_matchNumber cs).to fun _ _ => chars_tokenOf (fun _ => rfl) _).or <|
  ((splits_matchOperator cs).to fun _ _ => chars_tokenOf (fun _ => rfl) _).or <|
  ((splits_matchName _ cs).to fun _ _ => chars_tokenOf (fun _ => rfl) _).or <|
  ((splits_matchSkip cs).to fun _ _ => rfl).or <|
  (splits_matchComment cs).to fun _ _ => rfl

theorem length_lt_of_lexOne {cs rest : List Char} {lexeme : Lexeme}
    (h : lexOne cs = some (lexeme, rest)) : rest.length < cs.length := by
  obtain ⟨happ, hne⟩ : lexeme.chars ++ rest = cs ∧ lexeme.chars ≠ [] := splitsText_lexOne cs _ h
  have hlen := congrArg List.length happ
  have hpos := List.length_pos_iff.mpr hne
  rw [List.length_append] at hlen
  omega

theorem scan_eq_lexemes {n : ℕ} {cs : List Char} (h : cs.length ≤ n) : scan n cs = lexemes cs := by
  suffices hscan : ∀ n m : ℕ, ∀ cs : List Char, cs.length ≤ n → cs.length ≤ m →
      scan n cs = scan m cs from hscan n cs.length cs h le_rfl
  intro n
  induction n with
  | zero =>
    intro m cs hn hm
    obtain rfl : cs = [] := List.eq_nil_of_length_eq_zero (by omega)
    cases m <;> rfl
  | succ n ih =>
    intro m cs hn hm
    cases cs with
    | nil => cases m <;> rfl
    | cons c cs =>
      obtain ⟨m, rfl⟩ : ∃ k, m = k + 1 := ⟨m - 1, by simp at hm; omega⟩
      simp only [List.length_cons] at hn hm
      rw [scan, scan]
      cases hone : lexOne (c :: cs) with
      | none => simp only [ih m cs (by omega) (by omega)]
      | some p =>
        have hlt := length_lt_of_lexOne hone
        rw [List.length_cons] at hlt
        simp only [ih m p.2 (by omega) (by omega)]

@[simp] theorem lexemes_nil : lexemes [] = [] := rfl

theorem lexemes_of_lexOne {cs rest : List Char} {lexeme : Lexeme}
    (h : lexOne cs = some (lexeme, rest)) : lexemes cs = lexeme :: lexemes rest := by
  have hlt := length_lt_of_lexOne h
  cases cs with
  | nil => exact absurd hlt (by simp)
  | cons c cs =>
    rw [List.length_cons] at hlt
    rw [lexemes, List.length_cons, scan, h]
    simp only [scan_eq_lexemes (show rest.length ≤ cs.length by omega)]

theorem lexemes_of_none {c : Char} {cs : List Char} (h : lexOne (c :: cs) = none) :
    lexemes (c :: cs) = .unknown c :: lexemes cs := by
  rw [lexemes, List.length_cons, scan, h]
  rfl

/-- No character of a text is passed over. -/
def Recognised (cs : List Char) : Prop := ∀ c, Lexeme.unknown c ∉ lexemes cs

instance (cs : List Char) : Decidable (Recognised cs) :=
  decidable_of_iff ((lexemes cs).all fun lexeme => lexeme.chars.all fun c => lexeme ≠ .unknown c) <| by
    simp only [List.all_eq_true, decide_eq_true_eq]
    constructor
    · intro h c hmem
      exact h _ hmem c (List.mem_singleton_self c) rfl
    · rintro h _ hmem c - rfl
      exact h c hmem

end LlamaTrade
