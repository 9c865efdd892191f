import Mathlib.Data.List.DropRight
import Mathlib.Tactic.IntervalCases

/-!
# Python exceptions and the text functions of the standard library

The exceptions that the modelled Python operations raise, and the parts of
`str`, `int` and `Decimal` that read numbers out of text: stripping white space,
recognising decimal digits of every script, and reading a run of digits. The
last section shows that the digits printed for a natural number read back as
that number.
-/

namespace LlamaTrade

/-- The subclasses of `ArithmeticError` raised here: the three signals that the
default decimal context traps, and the `OverflowError` of `int(inf)`. -/
inductive ArithmeticSignal where
  | invalidOperation
  | divisionByZero
  | overflow
  | overflowError
  deriving DecidableEq, Repr

/-- The exceptions of the service layer, which are subclasses of `Exception` only:
`FillQuarantineError`, `LedgerInvariantError`, `RuntimeError` and what the database and its
driver raise. -/
inductive ServiceException where
  | fillQuarantine
  | ledgerInvariant
  | runtime
  | database
  deriving DecidableEq, Repr

/-- A raised Python exception. A `ValueError` carries the name of its subclass. -/
inductive PyError where
  | keyError (key : String)
  | typeError (message : String)
  | valueError (cls message : String)
  | arithmeticError (signal : ArithmeticSignal)
  | service (cls : ServiceException) (message : String)
  deriving DecidableEq, Repr

/-- A computation with a second step returns when both steps do. -/
@[simp] theorem bind_eq_ok {α β : Type} {x : Except PyError α} {f : α → Except PyError β} {b : β} :
    x >>= f = .ok b ↔ ∃ a, x = .ok a ∧ f a = .ok b := by
  cases x <;> simp [bind, Except.bind]

@[simp] theorem pure_eq_ok {α : Type} (a : α) : (pure a : Except PyError α) = .ok a := rfl

@[simp] theorem ok_bind {α β : Type} (a : α) (f : α → Except PyError β) :
    (.ok a : Except PyError α) >>= f = f a := rfl

@[simp] theorem error_bind {α β : Type} (e : PyError) (f : α → Except PyError β) :
    (.error e : Except PyError α) >>= f = .error e := rfl

/-- A number with leading zeros. -/
def padded (width n : ℕ) : String :=
  String.ofList (List.replicate (width - (Nat.toDigits 10 n).length) '0' ++ Nat.toDigits 10 n)

namespace PyText

def digitZeros : List ℕ :=
  [0x30, 0x660, 0x6f0, 0x7c0, 0x966, 0x9e6, 0xa66, 0xae6, 0xb66, 0xbe6, 0xc66, 0xce6, 0xd66,
    0xde6, 0xe50, 0xed0, 0xf20, 0x1040, 0x1090, 0x17e0, 0x1810, 0x1946, 0x19d0, 0x1a80, 0x1a90,
    0x1b50, 0x1bb0, 0x1c40, 0x1c50, 0xa620, 0xa8d0, 0xa900, 0xa9d0, 0xa9f0, 0xaa50, 0xabf0,
    0xff10, 0x104a0, 0x10d30, 0x11066, 0x110f0, 0x11136, 0x111d0, 0x112f0, 0x11450, 0x114d0,
    0x11650, 0x116c0, 0x11730, 0x118e0, 0x11950, 0x11c50, 0x11d50, 0x11da0, 0x16a60, 0x16ac0,
    0x16b50, 0x1d7ce, 0x1d7d8, 0x1d7e2, 0x1d7ec, 0x1d7f6, 0x1e140, 0x1e2f0, 0x1e950, 0x1fbf0]

def digitValue (c : Char) : Option ℕ :=
  digitZeros.findSome? fun z => if z ≤ c.toNat ∧ c.toNat < z + 10 then some (c.toNat - z) else none

def spaces : List ℕ :=
  [0x9, 0xa, 0xb, 0xc, 0xd, 0x1c, 0x1d, 0x1e, 0x1f, 0x20, 0x85, 0xa0, 0x1680, 0x2000, 0x2001,
    0x2002, 0x2003, 0x2004, 0x2005, 0x2006, 0x2007, 0x2008, 0x2009, 0x200a, 0x2028, 0x2029,
    0x202f, 0x205f, 0x3000]

def isSpace (c : Char) : Bool := spaces.contains c.toNat

/-- `str.strip()`. -/
def strip (cs : List Char) : List Char := (cs.dropWhile isSpace).rdropWhile isSpace

/-- `str.lower()` on the letters of ASCII; other characters are kept. -/
def lower (s : String) : String := String.ofList (s.toList.map Char.toLower)

/-- `str.upper()` on the letters of ASCII; other characters are kept. -/
def upper (s : String) : String := String.ofList (s.toList.map Char.toUpper)

def takeDigits : List Char → List ℕ × List Char
  | [] => ([], [])
  | c :: cs =>
    match digitValue c with
    | none => ([], c :: cs)
    | some d => (d :: (takeDigits cs).1, (takeDigits cs).2)

/-- The number written by a list of digits, most significant first. -/
def ofDigits (ds : List ℕ) : ℕ := ds.foldl (fun n d => 10 * n + d) 0

def takeSign : List Char → Bool × List Char
  | '-' :: cs => (true, cs)
  | '+' :: cs => (false, cs)
  | cs => (false, cs)

def signed (negative : Bool) (n : ℕ) : ℤ := if negative then -n else n

def plainInt (cs : List Char) : Option ℤ :=
  match takeDigits (takeSign cs).2 with
  | ([], _) => none
  | (_, _ :: _) => none
  | (ds, []) => some (signed (takeSign cs).1 (ofDigits ds))

def underscoresOk : List Char → Bool
  | [] => true
  | [c] => c != '_'
  | c :: d :: cs =>
    (d != '_' || ((digitValue c).isSome && cs.head?.any fun x => (digitValue x).isSome)) &&
      underscoresOk (d :: cs)

/-- `int(text)` in base ten. -/
def parseInt (s : String) : Except PyError ℤ :=
  let cs := strip s.toList
  if cs.head? ≠ some '_' ∧ underscoresOk cs then
    match plainInt (cs.filter (· != '_')) with
    | some n => .ok n
    | none => .error (.valueError "ValueError" "invalid literal for int() with base 10")
  else .error (.valueError "ValueError" "invalid literal for int() with base 10")

def intChars (n : ℤ) : List Char := (if n < 0 then ['-'] else []) ++ Nat.toDigits 10 n.natAbs

/-- `str(n)` of an integer. -/
def intText (n : ℤ) : String := String.ofList (intChars n)

/-! ## Printed digits read back -/

theorem digitValue_digitChar {d : ℕ} (h : d < 10) : digitValue (Nat.digitChar d) = some d := by
  interval_cases d <;> decide

theorem takeDigits_stop {cs : List Char} (h : cs.head?.all fun c => (digitValue c).isNone) :
    takeDigits cs = ([], cs) := by
  cases cs with
  | nil => rfl
  | cons c cs =>
    have hc : digitValue c = none := by simpa using h
    simp [takeDigits, hc]

theorem ofDigits_append_singleton (ds : List ℕ) (d : ℕ) :
    ofDigits (ds ++ [d]) = 10 * ofDigits ds + d := by
  simp [ofDigits, List.foldl_append]

theorem ofDigits_replicate_zero_append (n : ℕ) (ds : List ℕ) :
    ofDigits (List.replicate n 0 ++ ds) = ofDigits ds := by
  induction n with
  | zero => simp
  | succ n ih =>
    rw [List.replicate_succ, List.cons_append]
    simpa [ofDigits] using ih

def digitValues (n : ℕ) : List ℕ := (takeDigits (Nat.toDigits 10 n)).1

theorem takeDigits_append_of_all {cs : List Char} (rest : List Char)
    (h : ∀ c ∈ cs, (digitValue c).isSome) :
    takeDigits (cs ++ rest) = ((takeDigits cs).1 ++ (takeDigits rest).1, (takeDigits rest).2) := by
  induction cs with
  | nil => simp [takeDigits]
  | cons c cs ih =>
    obtain ⟨d, hd⟩ := Option.isSome_iff_exists.mp (h c (by simp))
    have hcs := ih fun x hx => h x (by simp [hx])
    simp [takeDigits, hd, hcs]

theorem takeDigits_length_of_all {cs : List Char} (h : ∀ c ∈ cs, (digitValue c).isSome) :
    (takeDigits cs).1.length = cs.length := by
  induction cs with
  | nil => rfl
  | cons c cs ih =>
    obtain ⟨d, hd⟩ := Option.isSome_iff_exists.mp (h c (by simp))
    simp [takeDigits, hd, ih fun x hx => h x (by simp [hx])]

theorem isSome_digitValue_of_mem_toDigits {c : Char} {n : ℕ} (h : c ∈ Nat.toDigits 10 n) :
    (digitValue c).isSome := by
  induction n using Nat.strong_induction_on with
  | _ n ih =>
    by_cases hn : n < 10
    · rw [Nat.toDigits_of_lt_base hn, List.mem_singleton] at h
      simp [h, digitValue_digitChar hn]
    · rw [Nat.toDigits_of_base_le (by decide) (by omega), List.mem_append] at h
      rcases h with h | h
      · exact ih (n / 10) (by omega) h
      · rw [List.mem_singleton] at h
        simp [h, digitValue_digitChar (Nat.mod_lt n (by decide))]

@[simp] theorem ofDigits_digitValues (n : ℕ) : ofDigits (digitValues n) = n := by
  induction n using Nat.strong_induction_on with
  | _ n ih =>
    by_cases hn : n < 10
    · simp [digitValues, Nat.toDigits_of_lt_base hn, takeDigits, digitValue_digitChar hn, ofDigits]
    · have hlast : takeDigits [Nat.digitChar (n % 10)] = ([n % 10], []) := by
        simp [takeDigits, digitValue_digitChar (Nat.mod_lt n (by decide))]
      have hdiv := ih (n / 10) (by omega)
      unfold digitValues at hdiv ⊢
      rw [Nat.toDigits_of_base_le (by decide) (by omega),
        takeDigits_append_of_all _ fun c hc => isSome_digitValue_of_mem_toDigits hc, hlast,
        ofDigits_append_singleton, hdiv]
      omega

theorem takeDigits_toDigits_append (n : ℕ) {rest : List Char}
    (h : rest.head?.all fun c => (digitValue c).isNone) :
    takeDigits (Nat.toDigits 10 n ++ rest) = (digitValues n, rest) := by
  rw [takeDigits_append_of_all _ fun c hc => isSome_digitValue_of_mem_toDigits hc,
    takeDigits_stop h, List.append_nil]
  rfl

theorem takeDigits_toDigits (n : ℕ) : takeDigits (Nat.toDigits 10 n) = (digitValues n, []) := by
  have h : takeDigits (Nat.toDigits 10 n ++ []) = (digitValues n, []) :=
    takeDigits_toDigits_append n rfl
  rwa [List.append_nil] at h

@[simp] theorem length_digitValues (n : ℕ) :
    (digitValues n).length = (Nat.toDigits 10 n).length :=
  takeDigits_length_of_all fun _ hc => isSome_digitValue_of_mem_toDigits hc

theorem ne_of_mem_toDigits {c x : Char} {n : ℕ} (h : c ∈ Nat.toDigits 10 n)
    (hx : (digitValue x).isNone) : c ≠ x := by
  rintro rfl
  have hc := isSome_digitValue_of_mem_toDigits h
  simp [Option.isNone_iff_eq_none.mp hx] at hc

theorem not_isSpace_of_mem_toDigits {c : Char} {n : ℕ} (h : c ∈ Nat.toDigits 10 n) :
    isSpace c = false := by
  have hd : c.isDigit := Nat.isDigit_of_mem_toDigits (by decide) (by decide) h
  simp only [Char.isDigit, Bool.and_eq_true, decide_eq_true_eq] at hd
  have hlo : 48 ≤ c.toNat := by simpa using UInt32.le_iff_toNat_le.mp hd.1
  have hhi : c.toNat ≤ 57 := by simpa using UInt32.le_iff_toNat_le.mp hd.2
  simp only [isSpace, List.contains_eq_mem, decide_eq_false_iff_not]
  intro hm
  simp only [spaces, List.mem_cons, List.not_mem_nil, or_false] at hm
  omega

theorem strip_eq_self {cs : List Char} (h : ∀ c ∈ cs, isSpace c = false) : strip cs = cs := by
  have hfront : cs.dropWhile isSpace = cs := by
    cases cs with
    | nil => rfl
    | cons c cs => simp [h c (by simp)]
  rw [strip, hfront, List.rdropWhile_eq_self_iff]
  intro hne
  simp [h _ (List.getLast_mem hne)]

theorem takeSign_digit {c : Char} (cs : List Char) (h : (digitValue c).isSome) :
    takeSign (c :: cs) = (false, c :: cs) := by
  unfold takeSign
  split
  · rename_i heq
    rw [List.cons.injEq] at heq
    rw [heq.1] at h
    exact absurd h (by decide)
  · rename_i heq
    rw [List.cons.injEq] at heq
    rw [heq.1] at h
    exact absurd h (by decide)
  · rfl

theorem takeSign_toDigits (n : ℕ) :
    takeSign (Nat.toDigits 10 n) = (false, Nat.toDigits 10 n) := by
  cases h : Nat.toDigits 10 n with
  | nil => exact absurd h Nat.toDigits_ne_nil
  | cons c cs =>
    exact takeSign_digit cs (isSome_digitValue_of_mem_toDigits (n := n) (by simp [h]))

theorem plainInt_of_takeSign {cs : List Char} {b : Bool} {n : ℕ}
    (h : takeSign cs = (b, Nat.toDigits 10 n)) : plainInt cs = some (signed b n) := by
  have hne : digitValues n ≠ [] := by
    intro hnil
    have hlen := length_digitValues n
    rw [hnil] at hlen
    exact absurd hlen.symm (by simp [Nat.toDigits_ne_nil])
  unfold plainInt
  rw [h]
  simp only [takeDigits_toDigits, ofDigits_digitValues]

theorem plainInt_intChars (n : ℤ) : plainInt (intChars n) = some n := by
  by_cases hn : n < 0
  · rw [plainInt_of_takeSign (b := true) (n := n.natAbs) (by simp [intChars, hn, takeSign])]
    simp only [signed, if_true, Option.some.injEq]
    omega
  · rw [plainInt_of_takeSign (b := false) (n := n.natAbs)
      (by simp [intChars, hn, takeSign_toDigits])]
    simp only [signed, Bool.false_eq_true, if_false, Option.some.injEq]
    omega

/-- Every character of a printed integer is a minus sign or a digit. -/
theorem mem_intChars {n : ℤ} {c : Char} (h : c ∈ intChars n) :
    c = '-' ∨ c ∈ Nat.toDigits 10 n.natAbs := by
  rcases List.mem_append.mp h with h | h
  · split_ifs at h
    · exact .inl (by simpa using h)
    · simp at h
  · exact .inr h

theorem underscoresOk_of_not_mem {cs : List Char} (h : '_' ∉ cs) : underscoresOk cs = true := by
  induction cs with
  | nil => rfl
  | cons c cs ih =>
    have hc : c ≠ '_' := fun heq => h (by simp [heq])
    have hcs := ih fun hm => h (by simp [hm])
    cases cs with
    | nil => simpa [underscoresOk] using hc
    | cons d cs =>
      have hd : d ≠ '_' := fun heq => h (by simp [heq])
      simp [underscoresOk, hcs, hd]

@[simp] theorem parseInt_intText (n : ℤ) : parseInt (intText n) = .ok n := by
  have hspace : ∀ c ∈ intChars n, isSpace c = false := by
    intro c hc
    rcases mem_intChars hc with rfl | hc
    · decide
    · exact not_isSpace_of_mem_toDigits hc
  have hunder : ∀ c ∈ intChars n, c ≠ '_' := by
    intro c hc
    rcases mem_intChars hc with rfl | hc
    · decide
    · exact ne_of_mem_toDigits hc (by decide)
  have hmem : '_' ∉ intChars n := fun hm => hunder _ hm rfl
  have hhead : (intChars n).head? ≠ some '_' := fun h => hmem (List.mem_of_mem_head? h)
  have hfilter : (intChars n).filter (· != '_') = intChars n :=
    List.filter_eq_self.mpr fun c hc => by simpa using hunder c hc
  unfold parseInt intText
  rw [String.toList_ofList, strip_eq_self hspace, if_pos ⟨hhead, underscoresOk_of_not_mem hmem⟩,
    hfilter, plainInt_intChars]

end PyText

end LlamaTrade
