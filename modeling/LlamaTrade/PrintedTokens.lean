import LlamaTrade.StrategyPrinter
import Mathlib.Data.List.Find

/-!
# Tokens of printed text

How the tokenizer reads text that is put together from pieces. A piece without quotes and
semicolons is read on its own if it ends in a blank or a parenthesis, or if what follows it starts
with one. A string literal is always read on its own.
-/

namespace LlamaTrade

/-- The characters between the words of printed text. -/
def isDelimiter (c : Char) : Bool := c == ' ' || c == '\n' || c == '(' || c == ')'

/-- The text is empty or starts with a delimiter. -/
def Delimited (cs : List Char) : Prop := ∀ c ∈ cs.head?, isDelimiter c

/-- The text is empty or ends with a delimiter. -/
def EndsDelimited (cs : List Char) : Prop := ∀ c ∈ cs.getLast?, isDelimiter c

/-- A first piece of text that is read without what follows it. -/
def Boundary (piece rest : List Char) : Prop := EndsDelimited piece ∨ Delimited rest

instance (cs : List Char) : Decidable (Delimited cs) :=
  decidable_of_iff (cs.head?.all isDelimiter) (by simp [Delimited, Option.all_eq_true])

instance (cs : List Char) : Decidable (EndsDelimited cs) :=
  decidable_of_iff (cs.getLast?.all isDelimiter) (by simp [EndsDelimited, Option.all_eq_true])

/-- No string and no comment starts in the text, and its white space is delimiters. -/
def Clean (cs : List Char) : Prop :=
  ∀ c ∈ cs, c ≠ '"' ∧ c ≠ ';' ∧ (PyText.isSpace c → isDelimiter c)

instance (cs : List Char) : Decidable (Clean cs) :=
  decidable_of_iff (cs.all fun c => c ≠ '"' ∧ c ≠ ';' ∧ (PyText.isSpace c → isDelimiter c)) <| by
    simp only [Clean, List.all_eq_true, decide_eq_true_eq]

theorem Boundary.suffix {us vs rest : List Char} (h : Boundary (us ++ vs) rest) (hne : vs ≠ []) :
    Boundary vs rest := by
  rcases h with h | h
  · refine .inl fun c hc => h c ?_
    rwa [List.getLast?_append_of_ne_nil _ hne]
  · exact .inr h

theorem Boundary.tail {c : Char} {us rest : List Char} (h : Boundary (c :: us) rest)
    (hne : us ≠ []) : Boundary us rest := by
  have hcons : Boundary ([c] ++ us) rest := h
  exact hcons.suffix hne

/-- After a piece of other characters the rest starts with a delimiter. -/
theorem Boundary.delimited {us rest : List Char} (h : Boundary us rest) (hne : us ≠ [])
    (hus : ∀ c ∈ us, isDelimiter c = false) : Delimited rest := by
  rcases h with h | h
  · have hlast := h _ (List.getLast?_eq_some_getLast hne)
    rw [hus _ (List.getLast_mem hne)] at hlast
    cases hlast
  · exact h

/-- A class of characters without the delimiters. -/
def Inner (p : Char → Bool) : Prop := ∀ c, p c → isDelimiter c = false

theorem takeWhile_of_delimited {p : Char → Bool} (hp : Inner p) {rest : List Char}
    (h : Delimited rest) : rest.takeWhile p = [] ∧ rest.dropWhile p = rest := by
  cases rest with
  | nil => exact ⟨rfl, rfl⟩
  | cons c rest =>
    have hc : p c = false := by
      by_contra hc
      have hdelimiter := h c rfl
      rw [hp c (by simpa using hc)] at hdelimiter
      cases hdelimiter
    simp [hc]

/-- A run of characters ends where the piece ends. -/
theorem takeWhile_boundary {p : Char → Bool} (hp : Inner p) {c : Char} {us rest : List Char}
    (hc : isDelimiter c = false) (h : Boundary (c :: us) rest) :
    (us ++ rest).takeWhile p = us.takeWhile p ∧
      (us ++ rest).dropWhile p = us.dropWhile p ++ rest := by
  by_cases hall : ∀ x ∈ us, p x
  · have hrest : Delimited rest := by
      refine h.delimited (List.cons_ne_nil _ _) fun x hx => ?_
      rcases List.mem_cons.mp hx with rfl | hx
      · exact hc
      · exact hp x (hall x hx)
    obtain ⟨htake, hdrop⟩ := takeWhile_of_delimited hp hrest
    rw [List.takeWhile_append_of_pos hall, List.dropWhile_append_of_pos hall, htake, hdrop,
      List.append_nil, List.takeWhile_eq_self_iff.mpr hall, List.dropWhile_eq_nil_iff.mpr hall,
      List.nil_append]
    exact ⟨rfl, rfl⟩
  · have hdrop : us.dropWhile p ≠ [] := fun hnil => hall (List.dropWhile_eq_nil_iff.mp hnil)
    have htake : (us.takeWhile p).length ≠ us.length := by
      intro hlen
      have happ := congrArg List.length (List.takeWhile_append_dropWhile (p := p) (l := us))
      rw [List.length_append, hlen] at happ
      exact hdrop (List.eq_nil_of_length_eq_zero (by omega))
    rw [List.takeWhile_append, List.dropWhile_append, if_neg htake,
      if_neg (by simpa using hdrop)]
    exact ⟨rfl, rfl⟩

/-! ## Pieces -/

/-- The match in a piece, with the rest of the text after it. -/
def Matched.before (m : Matched) (rest : List Char) : Matched := m.map fun p => (p.1, p.2 ++ rest)

section Pieces

variable {c : Char} {us rest : List Char}

theorem inner_isNameChar : Inner isNameChar := by
  intro c hc
  by_contra hdelimiter
  simp only [isDelimiter, Bool.not_eq_false, Bool.or_eq_true, beq_iff_eq] at hdelimiter
  obtain ((rfl | rfl) | rfl) | rfl := hdelimiter <;> exact absurd hc (by decide)

theorem inner_isDigit : Inner Char.isDigit := by
  intro c hc
  by_contra hdelimiter
  simp only [isDelimiter, Bool.not_eq_false, Bool.or_eq_true, beq_iff_eq] at hdelimiter
  obtain ((rfl | rfl) | rfl) | rfl := hdelimiter <;> exact absurd hc (by decide)

theorem inner_isNameStart : Inner isNameStart := by
  intro c hc
  by_contra hdelimiter
  simp only [isDelimiter, Bool.not_eq_false, Bool.or_eq_true, beq_iff_eq] at hdelimiter
  obtain ((rfl | rfl) | rfl) | rfl := hdelimiter <;> exact absurd hc (by decide)

theorem matchName_append (start : Char → Bool) (hc : isDelimiter c = false)
    (h : Boundary (c :: us) rest) :
    matchName start (c :: us ++ rest) = (matchName start (c :: us)).before rest := by
  obtain ⟨htake, hdrop⟩ := takeWhile_boundary inner_isNameChar hc h
  rw [List.cons_append, matchName, matchName]
  split_ifs
  · simp [Matched.before, htake, hdrop]
  · rfl

theorem matchKeyword_append (hc : isDelimiter c = false) (h : Boundary (c :: us) rest) :
    matchKeyword (c :: us ++ rest) = (matchKeyword (c :: us)).before rest := by
  rw [List.cons_append, matchKeyword, matchKeyword]
  split_ifs
  · cases us with
    | nil =>
      have hrest : Delimited rest := h.delimited (List.cons_ne_nil _ _) (by simpa using hc)
      cases rest with
      | nil => rfl
      | cons d rest =>
        have hstart : isNameStart d = false := by
          by_contra hd
          have hdelimiter := hrest d rfl
          rw [inner_isNameStart d (by simpa using hd)] at hdelimiter
          cases hdelimiter
        simp [matchName, hstart, Matched.before]
    | cons d us =>
      cases hd : isDelimiter d with
      | false =>
        have hname := matchName_append isNameStart hd (h.tail (List.cons_ne_nil d us))
        rw [List.cons_append] at hname
        rw [List.cons_append, hname]
        simp [Matched.before, Function.comp_def]
      | true =>
        have hstart : isNameStart d = false := by
          by_contra hstart
          rw [inner_isNameStart d (by simpa using hstart)] at hd
          cases hd
        simp [matchName, hstart, Matched.before]
  · rfl

theorem matchFraction_append_rest (hnil : us = [] → Delimited rest)
    (h : us ≠ [] → Boundary us rest) :
    matchFraction (us ++ rest) = ((matchFraction us).1, (matchFraction us).2 ++ rest) := by
  cases us with
  | nil =>
    cases rest with
    | nil => rfl
    | cons e rest =>
      have he : e ≠ '.' := by
        rintro rfl
        exact absurd (hnil rfl '.' rfl) (by decide)
      simp [matchFraction, he]
  | cons e us =>
    rw [List.cons_append, matchFraction, matchFraction]
    split_ifs with hdot
    · subst hdot
      obtain ⟨htake, hdrop⟩ := takeWhile_boundary inner_isDigit (by decide : isDelimiter '.' = false)
        (h (List.cons_ne_nil '.' us))
      simp [htake, hdrop]
    · rfl

theorem matchUnsigned_append (hc : isDelimiter c = false) (h : Boundary (c :: us) rest) :
    matchUnsigned (c :: us ++ rest) = (matchUnsigned (c :: us)).before rest := by
  obtain ⟨htake, hdrop⟩ := takeWhile_boundary inner_isDigit hc h
  have hsplit : c :: us = (c :: us.takeWhile Char.isDigit) ++ us.dropWhile Char.isDigit := by simp
  have hfraction : matchFraction (us.dropWhile Char.isDigit ++ rest) =
      ((matchFraction (us.dropWhile Char.isDigit)).1,
        (matchFraction (us.dropWhile Char.isDigit)).2 ++ rest) := by
    refine matchFraction_append_rest (fun hnil => ?_) fun hne => (hsplit ▸ h).suffix hne
    refine h.delimited (List.cons_ne_nil _ _) fun x hx => ?_
    rcases List.mem_cons.mp hx with rfl | hx
    · exact hc
    · exact inner_isDigit x (List.dropWhile_eq_nil_iff.mp hnil x hx)
  rw [List.cons_append, matchUnsigned, matchUnsigned]
  split_ifs
  · simp [Matched.before, htake, hdrop, hfraction]
  · rfl

theorem matchNumber_append (hc : isDelimiter c = false) (h : Boundary (c :: us) rest) :
    matchNumber (c :: us ++ rest) = (matchNumber (c :: us)).before rest := by
  rw [List.cons_append, matchNumber, matchNumber]
  split_ifs with hminus
  · cases us with
    | nil =>
      have hrest : Delimited rest := h.delimited (List.cons_ne_nil _ _) (by simpa using hc)
      cases rest with
      | nil => rfl
      | cons d rest =>
        have hdigit : d.isDigit = false := by
          by_contra hd
          have hdelimiter := hrest d rfl
          rw [inner_isDigit d (by simpa using hd)] at hdelimiter
          cases hdelimiter
        simp [matchUnsigned, hdigit, Matched.before]
    | cons d us =>
      cases hd : isDelimiter d with
      | false =>
        have hunsigned := matchUnsigned_append hd (h.tail (List.cons_ne_nil d us))
        rw [hunsigned]
        simp [Matched.before, Function.comp_def]
      | true =>
        have hdigit : d.isDigit = false := by
          by_contra hdigit
          rw [inner_isDigit d (by simpa using hdigit)] at hd
          cases hd
        simp [matchUnsigned, hdigit, Matched.before]
  · exact matchUnsigned_append hc h

theorem operatorTexts_inner : ∀ op ∈ operatorTexts, ∀ x ∈ op, isDelimiter x = false := by
  have hall : (operatorTexts.all fun op => op.all fun x => !isDelimiter x) = true := by decide
  simpa only [List.all_eq_true, Bool.not_eq_true'] using hall

theorem isPrefixOf_append {op : List Char} (hop : ∀ x ∈ op, isDelimiter x = false)
    (hne : us ≠ []) (h : Boundary us rest) : op.isPrefixOf (us ++ rest) = op.isPrefixOf us := by
  rw [Bool.eq_iff_iff, List.isPrefixOf_iff_prefix, List.isPrefixOf_iff_prefix]
  refine ⟨fun hprefix => ?_, fun hprefix => hprefix.trans (List.prefix_append us rest)⟩
  rcases List.prefix_or_prefix_of_prefix hprefix (List.prefix_append us rest) with h' | h'
  · exact h'
  · -- The piece is a first part of the operator, which goes on after it.
    obtain ⟨vs, rfl⟩ := h'
    have hrest := h.delimited hne fun x hx => hop x (by simp [hx])
    cases vs with
    | nil => simp
    | cons d vs =>
      obtain ⟨ws, hws⟩ := (List.prefix_append_right_inj us).mp hprefix
      have hd := hrest d (by rw [← hws]; rfl)
      rw [hop d (by simp)] at hd
      cases hd

theorem matchOperator_append (h : Boundary (c :: us) rest) :
    matchOperator (c :: us ++ rest) = (matchOperator (c :: us)).before rest := by
  have hfind : (operatorTexts.find? fun op => op.isPrefixOf (c :: us ++ rest)) =
      operatorTexts.find? fun op => op.isPrefixOf (c :: us) :=
    List.find?_congr fun op hop =>
      isPrefixOf_append (operatorTexts_inner op hop) (List.cons_ne_nil c us) h
  rw [matchOperator, matchOperator, hfind]
  cases hop : operatorTexts.find? fun op => op.isPrefixOf (c :: us) with
  | none => rfl
  | some op =>
    have hprefix : op.isPrefixOf (c :: us) = true := by simpa using List.find?_some hop
    have hlen := (List.isPrefixOf_iff_prefix.mp hprefix).length_le
    simp only [Option.map_some, Matched.before, List.drop_append_of_le_length hlen]

theorem matchSkip_none (hc : PyText.isSpace c = false) (us : List Char) :
    matchSkip (c :: us) = none := by
  simp [matchSkip, hc]

theorem Matched.to_before {m : Matched} {f : List Char → Lexeme} :
    (m.before rest).to f = (m.to f).map fun p => (p.1, p.2 ++ rest) := by
  simp [Matched.before, Matched.to, Function.comp_def]

theorem map_or {r r' : Option (Lexeme × List Char)} {f : Lexeme × List Char → Lexeme × List Char} :
    (r.map f).or (r'.map f) = (r.or r').map f := by
  cases r <;> rfl

/-- The first lexeme of a piece is the first lexeme of the text. -/
theorem lexOne_append (hc : isDelimiter c = false) (hclean : Clean (c :: us))
    (h : Boundary (c :: us) rest) :
    lexOne (c :: us ++ rest) = (lexOne (c :: us)).map fun p => (p.1, p.2 ++ rest) := by
  obtain ⟨hquote, hsemicolon, hspace⟩ := hclean c (List.mem_cons_self ..)
  have hspace : PyText.isSpace c = false := by
    by_contra hc'
    rw [hspace (by simpa using hc')] at hc
    cases hc
  have hopen : c ≠ '(' := by
    rintro rfl
    exact absurd hc (by decide)
  have hclose : c ≠ ')' := by
    rintro rfl
    exact absurd hc (by decide)
  have hchar : ∀ x, c ≠ x → ∀ vs, matchChar x (c :: vs) = none := fun x hx vs => by
    simp [matchChar, hx]
  have hstring : ∀ vs, matchString (c :: vs) = none := fun vs => by simp [matchString, hquote]
  have hcomment : ∀ vs, matchComment (c :: vs) = none := fun vs => by
    simp [matchComment, hsemicolon]
  have hkeyword := matchKeyword_append hc h
  have hnumber := matchNumber_append hc h
  have hoperator := matchOperator_append h
  have hname := matchName_append (fun c => isNameStart c || c == '$') hc h
  simp only [lexOne]
  rw [hkeyword, hnumber, hoperator, hname]
  simp only [List.cons_append, hchar _ hopen, hchar _ hclose, hstring, hcomment,
    matchSkip_none hspace, Matched.to_before]
  simp only [Matched.to, Option.map_none, Option.none_or, Option.or_none]
  simp only [map_or]

/-! ### White space and parentheses -/

theorem toNat_of_isSpace (h : PyText.isSpace c) : c.toNat ≤ 32 ∨ 133 ≤ c.toNat := by
  simp only [PyText.isSpace, PyText.spaces, List.contains_eq_mem, decide_eq_true_eq,
    List.mem_cons, List.not_mem_nil, or_false] at h
  omega

theorem not_isAlphanum_of_isSpace (h : PyText.isSpace c) : c.isAlphanum = false := by
  have hnat := toNat_of_isSpace h
  by_contra halpha
  have hranges : c.isAlphanum = ((decide ('A'.val ≤ c.val ∧ c.val ≤ 'Z'.val) ||
      decide ('a'.val ≤ c.val) && decide (c.val ≤ 'z'.val)) ||
      decide ('0'.val ≤ c.val) && decide (c.val ≤ '9'.val)) := rfl
  simp only [Bool.not_eq_false, hranges, Bool.or_eq_true, Bool.and_eq_true, decide_eq_true_eq,
    UInt32.le_iff_toNat_le] at halpha
  have hval : c.val.toNat = c.toNat := rfl
  rw [hval] at halpha
  simp at halpha
  omega

theorem operatorTexts_head : ∀ op ∈ operatorTexts, ∀ x ∈ op.head?, PyText.isSpace x = false := by
  have hall : (operatorTexts.all fun op => op.head?.all fun x => !PyText.isSpace x) = true := by
    decide
  simpa only [List.all_eq_true, Option.all_eq_true, Bool.not_eq_true', Option.mem_def] using hall

theorem lexOne_space (h : PyText.isSpace c) (us : List Char) :
    lexOne (c :: us) =
      some (.skip (c :: us.takeWhile PyText.isSpace), us.dropWhile PyText.isSpace) := by
  have hne : ∀ x, PyText.isSpace x = false → c ≠ x := by
    rintro x hx rfl
    rw [hx] at h
    cases h
  have halphanum := not_isAlphanum_of_isSpace h
  simp only [Char.isAlphanum, Bool.or_eq_false_iff] at halphanum
  have hoperator : matchOperator (c :: us) = none := by
    rw [matchOperator, Option.map_eq_none_iff, List.find?_eq_none]
    intro op hop hprefix
    cases op with
    | nil => exact operatorTexts_ne_nil [] hop rfl
    | cons x op =>
      obtain ⟨vs, hvs⟩ := List.isPrefixOf_iff_prefix.mp hprefix
      rw [List.cons_append, List.cons.injEq] at hvs
      exact hne x (operatorTexts_head _ hop x rfl) hvs.1.symm
  simp [lexOne, matchChar, hne '(' (by decide), hne ')' (by decide), matchString,
    hne '"' (by decide), matchKeyword, hne ':' (by decide), matchNumber, hne '-' (by decide),
    matchUnsigned, halphanum, hoperator, matchName, isNameStart, hne '_' (by decide),
    hne '$' (by decide), matchSkip, h, Matched.to]

@[simp] theorem tokenize_nil : tokenize [] = [] := rfl

theorem tokenize_of_lexOne {cs : List Char} {lexeme : Lexeme} (h : lexOne cs = some (lexeme, rest)) :
    tokenize cs = lexeme.token?.toList ++ tokenize rest := by
  rw [tokenize, lexemes_of_lexOne h, List.filterMap_cons]
  cases lexeme.token? <;> rfl

theorem tokenize_of_none (h : lexOne (c :: us) = none) : tokenize (c :: us) = tokenize us := by
  rw [tokenize, lexemes_of_none h]
  rfl

theorem tokenize_space (h : PyText.isSpace c) (us : List Char) :
    tokenize (c :: us) = tokenize us := by
  rw [tokenize_of_lexOne (lexOne_space h us)]
  cases us with
  | nil => rfl
  | cons d us =>
    cases hd : PyText.isSpace d with
    | false => simp [hd, Lexeme.token?]
    | true =>
      rw [tokenize_of_lexOne (lexOne_space hd us)]
      simp [hd, Lexeme.token?]

@[simp] theorem tokenize_lparen (us : List Char) :
    tokenize ('(' :: us) = .lparen :: tokenize us := by
  have hone : lexOne ('(' :: us) = some (.token .lparen, us) := rfl
  exact tokenize_of_lexOne hone

@[simp] theorem tokenize_rparen (us : List Char) :
    tokenize (')' :: us) = .rparen :: tokenize us := by
  have hone : lexOne (')' :: us) = some (.token .rparen, us) := rfl
  exact tokenize_of_lexOne hone

/-- A piece is read on its own. -/
theorem tokenize_append {piece rest : List Char} (hclean : Clean piece)
    (h : Boundary piece rest) : tokenize (piece ++ rest) = tokenize piece ++ tokenize rest := by
  induction hlen : piece.length using Nat.strong_induction_on generalizing piece with
  | _ n ih =>
    subst hlen
    cases piece with
    | nil => rfl
    | cons c us =>
      have hus : tokenize (us ++ rest) = tokenize us ++ tokenize rest := by
        by_cases hne : us = []
        · rw [hne]
          rfl
        · exact ih us.length (by simp) (fun x hx => hclean x (List.mem_cons_of_mem _ hx))
            (h.tail hne) rfl
      rw [List.cons_append]
      cases hc : isDelimiter c with
      | true =>
        simp only [isDelimiter, Bool.or_eq_true, beq_iff_eq] at hc
        obtain ((rfl | rfl) | rfl) | rfl := hc
        · rw [tokenize_space (by decide), tokenize_space (by decide), hus]
        · rw [tokenize_space (by decide), tokenize_space (by decide), hus]
        · rw [tokenize_lparen, tokenize_lparen, hus, List.cons_append]
        · rw [tokenize_rparen, tokenize_rparen, hus, List.cons_append]
      | false =>
        have happend := lexOne_append hc hclean h
        rw [List.cons_append] at happend
        cases hone : lexOne (c :: us) with
        | none =>
          rw [hone] at happend
          rw [tokenize_of_none hone, tokenize_of_none happend, hus]
        | some p =>
          rw [hone] at happend
          have hsplit := (splitsText_lexOne _ _ hone).1
          have hlt := length_lt_of_lexOne hone
          rw [tokenize_of_lexOne hone, tokenize_of_lexOne happend, List.append_assoc]
          congr 1
          by_cases hne : p.2 = []
          · rw [hne]
            rfl
          · refine ih p.2.length hlt (fun x hx => hclean x ?_) ((hsplit ▸ h).suffix hne) rfl
            rw [← hsplit]
            exact List.mem_append_right _ hx

end Pieces

/-! ## String literals -/

/-- A backslash directly before the letter `n`. -/
def HasBackslashN (s : String) : Prop := ['\\', 'n'] <:+: s.toList

instance (s : String) : Decidable (HasBackslashN s) := inferInstanceAs (Decidable (_ <:+: _))

/-- The characters of a string literal for one character. -/
def escapeChar (c : Char) : List Char :=
  if c = '\\' then ['\\', '\\'] else if c = '"' then ['\\', '"']
  else if c = '\n' then ['\\', 'n'] else [c]

theorem toList_escapeString (s : String) :
    (escapeString s).toList = s.toList.flatMap escapeChar := by
  rw [escapeString, String.toList_ofList]
  simp only [replaceChar, List.flatMap_assoc]
  refine List.flatMap_congr fun c _ => ?_
  by_cases hbackslash : c = '\\'
  · subst hbackslash
    rfl
  by_cases hquote : c = '"'
  · subst hquote
    rfl
  by_cases hnewline : c = '\n'
  · subst hnewline
    rfl
  simp [escapeChar, hbackslash, hquote, hnewline]

theorem matchStringTail_cons {c : Char} (hquote : c ≠ '"') (hbackslash : c ≠ '\\')
    {us : List Char} (hne : us ≠ []) :
    matchStringTail (c :: us) = (matchStringTail us).map fun m => (c :: m.1, m.2) := by
  cases us with
  | nil => exact absurd rfl hne
  | cons d us => simp [matchStringTail, hquote, hbackslash]

theorem matchStringTail_escape (cs rest : List Char) :
    matchStringTail (cs.flatMap escapeChar ++ '"' :: rest) =
      some (cs.flatMap escapeChar ++ ['"'], rest) := by
  induction cs with
  | nil =>
    cases rest with
    | nil => rfl
    | cons d rest => simp [matchStringTail]
  | cons c cs ih =>
    rw [List.flatMap_cons, List.append_assoc]
    by_cases hbackslash : c = '\\'
    · subst hbackslash
      simp [escapeChar, matchStringTail, ih]
    by_cases hquote : c = '"'
    · subst hquote
      simp [escapeChar, matchStringTail, ih]
    by_cases hnewline : c = '\n'
    · subst hnewline
      simp [escapeChar, matchStringTail, ih]
    have hchar : escapeChar c = [c] := by simp [escapeChar, hbackslash, hquote, hnewline]
    rw [hchar, List.singleton_append, matchStringTail_cons hquote hbackslash (by simp), ih]
    rfl

theorem tokenize_quoted (s : String) (rest : List Char) :
    tokenize ((quoted s).toList ++ rest) = .string (quoted s) :: tokenize rest := by
  have hquoted : (quoted s).toList = '"' :: ((escapeString s).toList ++ ['"']) := by
    simp [quoted]
  have hone : lexOne ((quoted s).toList ++ rest) = some (.token (.string (quoted s)), rest) := by
    rw [hquoted, List.cons_append, List.append_assoc, List.singleton_append, toList_escapeString]
    have hofList : String.ofList ('"' :: (s.toList.flatMap escapeChar ++ ['"'])) = quoted s := by
      rw [← toList_escapeString, ← hquoted, String.ofList_toList]
    simp [lexOne, matchChar, matchString, matchStringTail_escape, Matched.to, tokenOf, hofList]
  exact tokenize_of_lexOne hone

/-! ### Unescaping -/

theorem head_replacePair (a b c y : Char) (cs : List Char) :
    (replacePair a b c (y :: cs)).head? = some y ∨ (replacePair a b c (y :: cs)).head? = some c := by
  cases cs with
  | nil => exact .inl rfl
  | cons z cs =>
    rw [replacePair]
    split_ifs
    · exact .inr rfl
    · exact .inl rfl

theorem pair_infix_cons {a b x : Char} {cs : List Char} :
    [a, b] <:+: x :: cs ↔ (a = x ∧ cs.head? = some b) ∨ [a, b] <:+: cs := by
  rw [List.infix_cons_iff, List.cons_prefix_cons]
  cases cs with
  | nil => simp
  | cons y cs => simp [List.cons_prefix_cons, eq_comm]

/-- A replaced pair is gone. -/
theorem not_infix_replacePair {a b c : Char} (hb : c ≠ b) (ha : c ≠ a) (cs : List Char) :
    ¬[a, b] <:+: replacePair a b c cs := by
  fun_induction replacePair a b c cs with
  | case1 x y cs hxy ih =>
    rw [pair_infix_cons]
    rintro (⟨rfl, -⟩ | h)
    · exact ha rfl
    · exact ih h
  | case2 x y cs hne ih =>
    rw [pair_infix_cons]
    rintro (⟨rfl, hhead⟩ | h)
    · rcases head_replacePair a b c y cs with hy | hy
      · rw [hy] at hhead
        exact hne ⟨rfl, by simpa using hhead⟩
      · rw [hy] at hhead
        exact hb (by simpa using hhead)
    · exact ih h
  | case3 cs hcs =>
    intro h
    obtain ⟨us, vs, rfl⟩ := h
    cases us with
    | nil => exact hcs a b vs rfl
    | cons u us => cases us <;> exact hcs _ _ _ rfl

theorem not_infix_replaceBackslash {cs : List Char} (h : ¬['\\', 'n'] <:+: cs) :
    ¬['\\', 'n'] <:+: replacePair '\\' '\\' '\\' cs := by
  fun_induction replacePair '\\' '\\' '\\' cs with
  | case1 x y cs hxy ih =>
    obtain ⟨rfl, rfl⟩ := hxy
    rw [pair_infix_cons, pair_infix_cons] at h
    push Not at h
    rw [pair_infix_cons]
    rintro (⟨-, hhead⟩ | hinfix)
    · cases cs with
      | nil => simp [replacePair] at hhead
      | cons y cs =>
        rcases head_replacePair '\\' '\\' '\\' y cs with hy | hy
        · rw [hy] at hhead
          exact h.2.1 rfl (by simpa using hhead)
        · rw [hy] at hhead
          exact absurd hhead (by decide)
    · exact ih h.2.2 hinfix
  | case2 x y cs hne ih =>
    rw [pair_infix_cons] at h
    push Not at h
    rw [pair_infix_cons]
    rintro (⟨rfl, hhead⟩ | hinfix)
    · rcases head_replacePair '\\' '\\' '\\' y cs with hy | hy
      · rw [hy] at hhead
        exact h.1 rfl (by simpa using hhead)
      · rw [hy] at hhead
        exact absurd hhead (by decide)
    · exact ih h.2 hinfix
  | case3 cs hcs => exact h

/-- The unescaping of a string reads every backslash before an `n` as the escape of a line break. -/
theorem not_hasBackslashN_stringText (value : String) : ¬HasBackslashN (stringText value) := by
  rw [HasBackslashN, stringText, String.toList_ofList, unescape]
  exact not_infix_replaceBackslash (not_infix_replacePair (by decide) (by decide) _)

/-- The escapes of a character once those of the quotes are read. -/
def escapeLine (c : Char) : List Char :=
  if c = '\\' then ['\\', '\\'] else if c = '\n' then ['\\', 'n'] else [c]

/-- The escapes of a character once only those of the backslashes are left. -/
def escapeBackslash (c : Char) : List Char := if c = '\\' then ['\\', '\\'] else [c]

theorem replacePair_cons_of_ne {a b c x : Char} (h : x ≠ a) (cs : List Char) :
    replacePair a b c (x :: cs) = x :: replacePair a b c cs := by
  cases cs with
  | nil => rfl
  | cons y cs => simp [replacePair, h]

theorem replacePair_cons_of_head {a b c x : Char} {cs : List Char} (h : cs.head? ≠ some b) :
    replacePair a b c (x :: cs) = x :: replacePair a b c cs := by
  cases cs with
  | nil => rfl
  | cons y cs =>
    have hy : y ≠ b := by simpa using h
    simp [replacePair, hy]

theorem head_flatMap {f : Char → List Char} {x : Char} (hf : ∀ c, (f c).head? = some x → c = x)
    (hne : ∀ c, f c ≠ []) {cs : List Char} (h : (cs.flatMap f).head? = some x) :
    cs.head? = some x := by
  cases cs with
  | nil => simp at h
  | cons c cs =>
    rw [List.flatMap_cons, List.head?_append_of_ne_nil _ (hne c)] at h
    rw [List.head?_cons, hf c h]

theorem replaceQuote_escape (cs : List Char) :
    replacePair '\\' '"' '"' (cs.flatMap escapeChar) = cs.flatMap escapeLine := by
  induction cs with
  | nil => rfl
  | cons c cs ih =>
    have hhead : (cs.flatMap escapeChar).head? ≠ some '"' := by
      intro h
      have hfirst : ∀ c, (escapeChar c).head? ≠ some '"' := by
        intro c hc
        unfold escapeChar at hc
        split_ifs at hc <;> simp_all
      cases cs with
      | nil => simp at h
      | cons d cs =>
        rw [List.flatMap_cons, List.head?_append_of_ne_nil] at h
        · exact hfirst d h
        · unfold escapeChar
          split_ifs <;> simp
    rw [List.flatMap_cons, List.flatMap_cons, ← ih]
    by_cases hbackslash : c = '\\'
    · subst hbackslash
      have hpair : escapeChar '\\' = ['\\', '\\'] := rfl
      rw [hpair, List.cons_append, List.cons_append, List.nil_append, replacePair_cons_of_head,
        replacePair_cons_of_head hhead]
      · rfl
      · simp
    by_cases hquote : c = '"'
    · subst hquote
      rfl
    by_cases hnewline : c = '\n'
    · subst hnewline
      have hpair : escapeChar '\n' = ['\\', 'n'] := rfl
      rw [hpair, List.cons_append, List.cons_append, List.nil_append, replacePair_cons_of_head,
        replacePair_cons_of_ne]
      · rfl
      · decide
      · simp
    have hchar : escapeChar c = [c] := by simp [escapeChar, hbackslash, hquote, hnewline]
    have hline : escapeLine c = [c] := by simp [escapeLine, hbackslash, hnewline]
    rw [hchar, hline, List.singleton_append, replacePair_cons_of_ne hbackslash,
      List.singleton_append]

theorem replaceLine_escape {cs : List Char} (h : ¬['\\', 'n'] <:+: cs) :
    replacePair '\\' 'n' '\n' (cs.flatMap escapeLine) = cs.flatMap escapeBackslash := by
  induction cs with
  | nil => rfl
  | cons c cs ih =>
    rw [pair_infix_cons] at h
    push Not at h
    rw [List.flatMap_cons, List.flatMap_cons, ← ih h.2]
    by_cases hbackslash : c = '\\'
    · subst hbackslash
      have hhead : (cs.flatMap escapeLine).head? ≠ some 'n' := by
        intro hn
        refine h.1 rfl (head_flatMap (fun c hc => ?_) (fun c => ?_) hn)
        · unfold escapeLine at hc
          split_ifs at hc <;> simp_all
        · unfold escapeLine
          split_ifs <;> simp
      have hpair : escapeLine '\\' = ['\\', '\\'] := rfl
      rw [hpair, List.cons_append, List.cons_append, List.nil_append, replacePair_cons_of_head,
        replacePair_cons_of_head hhead]
      · rfl
      · simp
    by_cases hnewline : c = '\n'
    · subst hnewline
      rfl
    have hline : escapeLine c = [c] := by simp [escapeLine, hbackslash, hnewline]
    have hlast : escapeBackslash c = [c] := by simp [escapeBackslash, hbackslash]
    rw [hline, hlast, List.singleton_append, replacePair_cons_of_ne hbackslash,
      List.singleton_append]

theorem replaceBackslash_escape (cs : List Char) :
    replacePair '\\' '\\' '\\' (cs.flatMap escapeBackslash) = cs := by
  induction cs with
  | nil => rfl
  | cons c cs ih =>
    rw [List.flatMap_cons]
    by_cases hbackslash : c = '\\'
    · subst hbackslash
      simp [escapeBackslash, replacePair, ih]
    · have hlast : escapeBackslash c = [c] := by simp [escapeBackslash, hbackslash]
      rw [hlast, List.singleton_append, replacePair_cons_of_ne hbackslash, ih]

theorem stringText_quoted {s : String} (h : ¬HasBackslashN s) : stringText (quoted s) = s := by
  have hbody : ((quoted s).toList.drop 1).dropLast = s.toList.flatMap escapeChar := by
    simp [quoted, toList_escapeString]
  rw [stringText, hbody, unescape, replaceQuote_escape, replaceLine_escape h,
    replaceBackslash_escape, String.ofList_toList]

/-! ## Printed text -/

/-- The text is read as the tokens, whatever follows it after a delimiter. -/
def Prints (text : String) (ts : List Token) : Prop :=
  ∀ rest, Delimited rest → tokenize (text.toList ++ rest) = ts ++ tokenize rest

/-- The text is read as the tokens, whatever follows it. -/
def PrintsAlone (text : String) (ts : List Token) : Prop :=
  ∀ rest, tokenize (text.toList ++ rest) = ts ++ tokenize rest

section Printed

variable {s t : String} {as bs : List Token}

theorem PrintsAlone.prints (h : PrintsAlone s as) : Prints s as := fun rest _ => h rest

theorem printsAlone_empty : PrintsAlone "" [] := fun _ => rfl

theorem printsAlone_quoted (s : String) : PrintsAlone (quoted s) [.string (quoted s)] :=
  tokenize_quoted s

/-- A piece of printed text that ends in a delimiter. -/
theorem printsAlone_of_clean (hclean : Clean s.toList) (hend : EndsDelimited s.toList) :
    PrintsAlone s (tokenize s.toList) := fun _ => tokenize_append hclean (.inl hend)

theorem prints_of_clean (hclean : Clean s.toList) : Prints s (tokenize s.toList) :=
  fun _ hrest => tokenize_append hclean (.inr hrest)

theorem Delimited.append {cs rest : List Char} (h : Delimited cs) (hrest : Delimited rest) :
    Delimited (cs ++ rest) := by
  cases cs with
  | nil => exact hrest
  | cons c cs => exact h

theorem Delimited.append_of_ne_nil {cs : List Char} (h : Delimited cs) (hne : cs ≠ [])
    (rest : List Char) : Delimited (cs ++ rest) := by
  cases cs with
  | nil => exact absurd rfl hne
  | cons c cs => exact h

theorem PrintsAlone.append (h : PrintsAlone s as) (h' : Prints t bs) : Prints (s ++ t) (as ++ bs) := by
  intro rest hrest
  rw [String.toList_append, List.append_assoc, h, h' rest hrest, List.append_assoc]

theorem Prints.append (h : Prints s as) (h' : Prints t bs) (ht : Delimited t.toList) :
    Prints (s ++ t) (as ++ bs) := by
  intro rest hrest
  rw [String.toList_append, List.append_assoc, h _ (ht.append hrest), h' rest hrest,
    List.append_assoc]

theorem Prints.blank (h : Prints s as) : PrintsAlone (s ++ " ") as := by
  intro rest
  rw [String.toList_append, List.append_assoc, h _ (by rintro _ ⟨⟩; decide)]
  have hblank : tokenize (" ".toList ++ rest) = tokenize rest := tokenize_space (by decide) rest
  rw [hblank]

theorem Prints.close (h : Prints s as) : PrintsAlone (s ++ ")") (as ++ [.rparen]) := by
  intro rest
  rw [String.toList_append, List.append_assoc, h _ (by rintro _ ⟨⟩; decide)]
  have hclose : tokenize (")".toList ++ rest) = .rparen :: tokenize rest := tokenize_rparen rest
  rw [hclose, List.append_assoc, List.singleton_append]

theorem printsAlone_open : PrintsAlone "(" [.lparen] := tokenize_lparen

/-- Texts that are joined by a separator of white space. -/
theorem prints_intercalate {sep : String} (hsep : PrintsAlone sep [])
    (hdelimited : Delimited sep.toList) (hne : sep.toList ≠ [])
    {texts : List String} {tss : List (List Token)} (h : List.Forall₂ Prints texts tss) :
    Prints (sep.intercalate texts) tss.flatten := by
  induction h with
  | nil =>
    rw [String.intercalate_nil]
    exact printsAlone_empty.prints
  | @cons text ts texts tss hhead htail ih =>
    cases htail with
    | nil => simpa using hhead
    | cons hnext htail =>
      rw [String.intercalate_cons_cons, List.flatten_cons, String.append_assoc]
      refine hhead.append (hsep.append ih) ?_
      rw [String.toList_append]
      exact hdelimited.append_of_ne_nil hne _

theorem printsAlone_blank : PrintsAlone " " [] := fun rest => tokenize_space (by decide) rest

theorem printsAlone_newline : PrintsAlone "\n" [] := fun rest => tokenize_space (by decide) rest

theorem prints_joinBlank {texts : List String} {tss : List (List Token)}
    (h : List.Forall₂ Prints texts tss) : Prints (joinBlank texts) tss.flatten :=
  prints_intercalate printsAlone_blank (by decide) (by decide) h

theorem prints_joinLines {texts : List String} {tss : List (List Token)}
    (h : List.Forall₂ Prints texts tss) : Prints (joinLines texts) tss.flatten :=
  prints_intercalate printsAlone_newline (by decide) (by decide) h

theorem printsAlone_blanks (n : ℕ) : PrintsAlone (blanks n) [] := by
  intro rest
  rw [blanks, String.toList_ofList, List.nil_append]
  induction n with
  | zero => rfl
  | succ n ih => rw [List.replicate_succ, List.cons_append, tokenize_space (by decide), ih]

end Printed

end LlamaTrade
