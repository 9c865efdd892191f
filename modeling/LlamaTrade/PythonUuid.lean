import LlamaTrade.PythonText
import Mathlib.Tactic.Ring

/-!
# UUIDs

The 128-bit identifiers of `uuid.UUID`: their canonical text and the lenient reading
of the constructor, which drops `urn:`, `uuid:`, braces and hyphens and then reads 32
characters as an integer in base sixteen, with everything `int` allows there.
-/

namespace LlamaTrade

structure UUID where
  value : ℕ
  bound : value < 2 ^ 128
  deriving DecidableEq

namespace UUID

/-- The UUID of a number. -/
instance (n : ℕ) : OfNat UUID n := ⟨⟨n % 2 ^ 128, Nat.mod_lt n (Nat.two_pow_pos 128)⟩⟩

/-- The 32 digits in base sixteen, most significant first. -/
def hexChars (u : UUID) : List Char :=
  (List.range 32).map fun i => Nat.digitChar (u.value / 16 ^ (31 - i) % 16)

/-- `str(u)`. -/
def text (u : UUID) : String :=
  let cs := u.hexChars
  String.ofList (cs.take 8 ++ '-' :: (cs.drop 8).take 4 ++ '-' :: (cs.drop 12).take 4 ++
    '-' :: (cs.drop 16).take 4 ++ '-' :: cs.drop 20)

/-- `s.replace(pattern, "")`, skipping the characters of a match. -/
def dropPattern (pattern : List Char) : ℕ → List Char → List Char
  | _, [] => []
  | skip + 1, _ :: cs => dropPattern pattern skip cs
  | 0, c :: cs =>
    if pattern.isPrefixOf (c :: cs) then dropPattern pattern (pattern.length - 1) cs
    else c :: dropPattern pattern 0 cs

def isBrace (c : Char) : Bool := c == '\x7b' || c == '\x7d'

def hexValue (c : Char) : Option ℕ :=
  match PyText.digitValue c with
  | some d => some d
  | none =>
    if 'a' ≤ c ∧ c ≤ 'f' then some (c.toNat - 87)
    else if 'A' ≤ c ∧ c ≤ 'F' then some (c.toNat - 55)
    else none

/-- Digits in base sixteen with single underscores between them; `digit` tells whether
the last character was a digit. -/
def readHex : ℕ → Bool → List Char → Option ℕ
  | n, digit, [] => if digit then some n else none
  | n, digit, c :: cs =>
    if c = '_' then if digit then readHex n false cs else none
    else (hexValue c).bind fun d => readHex (16 * n + d) true cs

/-- A prefix `0x` may be followed by an underscore. -/
def dropHexPrefix : List Char → List Char
  | '0' :: x :: '_' :: cs => if x = 'x' ∨ x = 'X' then cs else '0' :: x :: '_' :: cs
  | '0' :: x :: cs => if x = 'x' ∨ x = 'X' then cs else '0' :: x :: cs
  | cs => cs

/-- `int(text, 16)`. -/
def parseHex (cs : List Char) : Option ℤ :=
  let signed := PyText.takeSign (PyText.strip cs)
  (readHex 0 false (dropHexPrefix signed.2)).map fun n => PyText.signed signed.1 n

def badUuid (message : String) : PyError := .valueError "ValueError" message

/-- `UUID(text)`. -/
def parse (s : String) : Except PyError UUID :=
  let cs := dropPattern "uuid:".toList 0 (dropPattern "urn:".toList 0 s.toList)
  let cs := ((cs.dropWhile isBrace).rdropWhile isBrace).filter (· != '-')
  if cs.length ≠ 32 then .error (badUuid "badly formed hexadecimal UUID string")
  else
    match parseHex cs with
    | none => .error (badUuid "invalid literal for int() with base 16")
    | some n =>
      if h : n.toNat < 2 ^ 128 then
        if n < 0 then .error (badUuid "int is out of range (need a 128-bit value)")
        else .ok ⟨n.toNat, h⟩
      else .error (badUuid "int is out of range (need a 128-bit value)")

/-! ## The canonical text -/

theorem forall_mem_hexChars {P : Char → Prop} (h : ∀ d < 16, P (Nat.digitChar d)) (u : UUID) :
    ∀ c ∈ u.hexChars, P c := by
  intro c hc
  obtain ⟨i, -, hi⟩ := List.mem_map.mp hc
  exact hi ▸ h _ (Nat.mod_lt _ (by decide))

theorem hexValue_digitChar : ∀ d < 16, hexValue (Nat.digitChar d) = some d := by decide

/-- The digits of a number, read from the most significant one. -/
theorem readHex_digits (n k m : ℕ) (digit : Bool) (hdigit : k = 0 → digit = true) :
    readHex m digit ((List.range k).map fun i => Nat.digitChar (n / 16 ^ (k - 1 - i) % 16)) =
      some (m * 16 ^ k + n % 16 ^ k) := by
  induction k generalizing m digit with
  | zero => simp [readHex, hdigit rfl, Nat.mod_one]
  | succ k ih =>
    have hne : ∀ d < 16, Nat.digitChar d ≠ '_' := by decide
    have hd : n / 16 ^ k % 16 < 16 := Nat.mod_lt _ (by decide)
    have hrest : (fun i => Nat.digitChar (n / 16 ^ (k - (i + 1)) % 16)) =
        fun i => Nat.digitChar (n / 16 ^ (k - 1 - i) % 16) := by
      funext i
      rw [Nat.sub_sub, Nat.add_comm 1 i]
    rw [List.range_succ_eq_map, List.map_cons, List.map_map]
    simp only [Function.comp_def, Nat.succ_eq_add_one, Nat.add_sub_cancel, Nat.sub_zero,
      readHex, if_neg (hne _ hd), hexValue_digitChar _ hd, Option.bind_some]
    rw [hrest, ih _ true fun _ => rfl, Nat.pow_succ, Nat.mod_mul]
    congr 1
    ring

theorem drop_eq_self {p : Char → Bool} {cs : List Char} (h : ∀ c ∈ cs, p c = false) :
    cs.dropWhile p = cs ∧ cs.rdropWhile p = cs := by
  have hdrop : ∀ {cs : List Char}, (∀ c ∈ cs, p c = false) → cs.dropWhile p = cs := by
    intro cs h
    cases cs with
    | nil => rfl
    | cons c cs => rw [List.dropWhile_cons, if_neg (by simp [h c])]
  refine ⟨hdrop h, ?_⟩
  rw [List.rdropWhile, hdrop (by simpa using h), List.reverse_reverse]

theorem parseHex_hexChars (u : UUID) : parseHex u.hexChars = some (u.value : ℤ) := by
  have hspace : ∀ c ∈ u.hexChars, PyText.isSpace c = false :=
    forall_mem_hexChars (by decide) u
  have hsign : ∀ c ∈ u.hexChars, c ≠ '-' ∧ c ≠ '+' := forall_mem_hexChars (by decide) u
  have hx : ∀ c ∈ u.hexChars, ¬ (c = 'x' ∨ c = 'X') := forall_mem_hexChars (by decide) u
  have hread : readHex 0 false u.hexChars = some u.value := by
    have h := readHex_digits u.value 32 0 false (by decide)
    rw [Nat.zero_mul, Nat.zero_add, Nat.mod_eq_of_lt (by simpa using u.bound)] at h
    exact h
  have hstrip : PyText.strip u.hexChars = u.hexChars := by
    rw [PyText.strip, (drop_eq_self hspace).1, (drop_eq_self hspace).2]
  have htake : PyText.takeSign u.hexChars = (false, u.hexChars) := by
    unfold PyText.takeSign
    split
    · rename_i heq
      exact absurd rfl (hsign '-' (by simp [heq])).1
    · rename_i heq
      exact absurd rfl (hsign '+' (by simp [heq])).2
    · rfl
  have hdrop : dropHexPrefix u.hexChars = u.hexChars := by
    unfold dropHexPrefix
    split
    · rename_i x cs heq
      rw [if_neg (hx x (by simp [heq]))]
      exact heq.symm
    · rename_i x cs _ heq
      rw [if_neg (hx x (by simp [heq]))]
      exact heq.symm
    · rfl
  simp [parseHex, hstrip, htake, hdrop, hread, PyText.signed]

theorem dropPattern_eq_self {p : Char} {pattern cs : List Char} (h : p ∉ cs) :
    dropPattern (p :: pattern) 0 cs = cs := by
  induction cs with
  | nil => rfl
  | cons c cs ih =>
    obtain ⟨hc, hcs⟩ := not_or.mp (mt List.mem_cons.mpr h)
    have hmatch : (p :: pattern).isPrefixOf (c :: cs) = false := by simp [List.isPrefixOf, hc]
    rw [dropPattern, hmatch, ih hcs]
    rfl

theorem text_toList (u : UUID) : u.text.toList =
    u.hexChars.take 8 ++ '-' :: (u.hexChars.drop 8).take 4 ++ '-' :: (u.hexChars.drop 12).take 4 ++
    '-' :: (u.hexChars.drop 16).take 4 ++ '-' :: u.hexChars.drop 20 := by
  simp [text]

/-- The characters of the text are digits and hyphens. -/
theorem forall_mem_text {P : Char → Prop} (h : ∀ d < 16, P (Nat.digitChar d)) (hdash : P '-')
    (u : UUID) : ∀ c ∈ u.text.toList, P c := by
  have hhex := forall_mem_hexChars h u
  intro c hc
  rw [text_toList] at hc
  simp only [List.mem_append, List.mem_cons] at hc
  rcases hc with (((hc | rfl | hc) | rfl | hc) | rfl | hc) | rfl | hc
  · exact hhex c (List.mem_of_mem_take hc)
  · exact hdash
  · exact hhex c (List.mem_of_mem_drop (List.mem_of_mem_take hc))
  · exact hdash
  · exact hhex c (List.mem_of_mem_drop (List.mem_of_mem_take hc))
  · exact hdash
  · exact hhex c (List.mem_of_mem_drop (List.mem_of_mem_take hc))
  · exact hdash
  · exact hhex c (List.mem_of_mem_drop hc)

theorem text_filter (u : UUID) : u.text.toList.filter (· != '-') = u.hexChars := by
  have hkeep : ∀ cs : List Char, (∀ c ∈ cs, c ∈ u.hexChars) → cs.filter (· != '-') = cs := by
    intro cs h
    refine List.filter_eq_self.mpr fun c hc => ?_
    have hne : c ≠ '-' := forall_mem_hexChars (P := (· ≠ '-')) (by decide) u c (h c hc)
    simpa using hne
  have hdrop : ∀ j k, (u.hexChars.drop j).take k ++ u.hexChars.drop (j + k) = u.hexChars.drop j := by
    intro j k
    rw [← List.drop_drop, List.take_append_drop]
  have htake : ∀ j k, ∀ c ∈ (u.hexChars.drop j).take k, c ∈ u.hexChars :=
    fun j k c hc => List.mem_of_mem_drop (List.mem_of_mem_take hc)
  rw [text_toList]
  simp only [List.filter_append, List.filter_cons, bne_self_eq_false, Bool.false_eq_true, if_false,
    hkeep _ (htake _ _), hkeep _ fun c hc => List.mem_of_mem_take hc,
    hkeep _ fun c hc => List.mem_of_mem_drop hc]
  rw [List.append_assoc, hdrop 16 4, List.append_assoc, hdrop 12 4, List.append_assoc, hdrop 8 4,
    List.take_append_drop]

/-- Reading the canonical text gives the id. -/
theorem parse_text (u : UUID) : parse u.text = .ok u := by
  have hplain : 'u' ∉ u.text.toList := fun h =>
    forall_mem_text (P := (· ≠ 'u')) (by decide) (by decide) u _ h rfl
  have hbrace : ∀ c ∈ u.text.toList, isBrace c = false := forall_mem_text (by decide) (by decide) u
  have hcs : ((dropPattern "uuid:".toList 0 (dropPattern "urn:".toList 0 u.text.toList)).dropWhile
      isBrace).rdropWhile isBrace = u.text.toList := by
    rw [show "urn:".toList = 'u' :: "rn:".toList from rfl,
      show "uuid:".toList = 'u' :: "uid:".toList from rfl, dropPattern_eq_self hplain,
      dropPattern_eq_self hplain, (drop_eq_self hbrace).1, (drop_eq_self hbrace).2]
  have hlength : ¬ u.hexChars.length ≠ 32 := by simp [hexChars]
  simp only [parse, hcs, text_filter, if_neg hlength, parseHex_hexChars, Int.toNat_natCast,
    dif_pos u.bound]
  rw [if_neg (by omega)]

theorem text_injective : Function.Injective text := by
  intro u v h
  have hparse := u.parse_text
  rw [h, v.parse_text] at hparse
  exact (Except.ok.inj hparse).symm

/-! ## NUL characters -/

theorem nul_not_mem_text (u : UUID) : '\x00' ∉ u.text.toList := fun h =>
  forall_mem_text (P := (· ≠ '\x00')) (by decide) (by decide) u _ h rfl

/-- Dropping a pattern keeps the characters that the pattern does not have. -/
theorem mem_dropPattern {pattern : List Char} (hne : pattern ≠ []) {c : Char} (hc : c ∉ pattern)
    {skip : ℕ} {cs : List Char} (hskip : ∀ d ∈ cs.take skip, d ∈ pattern) (h : c ∈ cs) :
    c ∈ dropPattern pattern skip cs := by
  induction cs generalizing skip with
  | nil => cases h
  | cons d cs ih =>
    cases skip with
    | succ skip =>
      have hd : d ∈ pattern := hskip d (by simp)
      have hcs : c ∈ cs := (List.mem_cons.mp h).resolve_left fun heq => hc (heq ▸ hd)
      exact ih (fun x hx => hskip x (by simp [hx])) hcs
    | zero =>
      rw [dropPattern]
      split_ifs with hmatch
      · obtain ⟨p, ps, rfl⟩ := List.exists_cons_of_ne_nil hne
        obtain ⟨rfl, hps⟩ := List.cons_prefix_cons.mp (List.isPrefixOf_iff_prefix.mp hmatch)
        have hcs : c ∈ cs :=
          (List.mem_cons.mp h).resolve_left fun heq => hc (heq ▸ List.mem_cons_self)
        refine ih (fun x hx => ?_) hcs
        rw [List.length_cons, Nat.add_sub_cancel, ← List.prefix_iff_eq_take.mp hps] at hx
        exact List.mem_cons_of_mem _ hx
      · rcases List.mem_cons.mp h with rfl | h
        · exact List.mem_cons_self
        · exact List.mem_cons_of_mem _ (ih (by simp) h)

theorem mem_dropWhile_of_not {p : Char → Bool} {c : Char} (hc : p c = false) {cs : List Char}
    (h : c ∈ cs) : c ∈ cs.dropWhile p ∧ c ∈ cs.rdropWhile p := by
  have hdrop : ∀ {cs : List Char}, c ∈ cs → c ∈ cs.dropWhile p := by
    intro cs h
    rw [← List.takeWhile_append_dropWhile (p := p) (l := cs)] at h
    refine (List.mem_append.mp h).resolve_left fun htake => ?_
    have hp := List.mem_takeWhile_imp htake
    rw [hc] at hp
    cases hp
  refine ⟨hdrop h, ?_⟩
  rw [List.rdropWhile, List.mem_reverse]
  exact hdrop (List.mem_reverse.mpr h)

theorem readHex_eq_none {cs : List Char} (h : '\x00' ∈ cs) (n : ℕ) (digit : Bool) :
    readHex n digit cs = none := by
  induction cs generalizing n digit with
  | nil => cases h
  | cons c cs ih =>
    rcases List.mem_cons.mp h with rfl | h
    · rfl
    · rw [readHex]
      split_ifs
      · exact ih h _ _
      · rfl
      · cases hexValue c with
        | none => rfl
        | some d => exact ih h _ _

theorem mem_dropHexPrefix {cs : List Char} (h : '\x00' ∈ cs) : '\x00' ∈ dropHexPrefix cs := by
  unfold dropHexPrefix
  split
  · split_ifs with hx
    · rcases hx with rfl | rfl <;> simpa using h
    · exact h
  · split_ifs with hx
    · rcases hx with rfl | rfl <;> simpa using h
    · exact h
  · exact h

theorem parseHex_eq_none {cs : List Char} (h : '\x00' ∈ cs) : parseHex cs = none := by
  have hspace : PyText.isSpace '\x00' = false := by decide
  have hstrip : '\x00' ∈ PyText.strip cs :=
    (mem_dropWhile_of_not hspace (mem_dropWhile_of_not hspace h).1).2
  have hsign : '\x00' ∈ (PyText.takeSign (PyText.strip cs)).2 := by
    unfold PyText.takeSign
    split
    · rename_i heq
      rw [heq] at hstrip
      simpa using hstrip
    · rename_i heq
      rw [heq] at hstrip
      simpa using hstrip
    · exact hstrip
  simp [parseHex, readHex_eq_none (mem_dropHexPrefix hsign)]

/-- A text that reads as a UUID has no NUL character. -/
theorem nul_not_mem_of_parse {s : String} {u : UUID} (h : parse s = .ok u) :
    '\x00' ∉ s.toList := by
  intro hmem
  have hurn : '\x00' ∈ dropPattern "urn:".toList 0 s.toList :=
    mem_dropPattern (by decide) (by decide) (by simp) hmem
  have huuid : '\x00' ∈ dropPattern "uuid:".toList 0 (dropPattern "urn:".toList 0 s.toList) :=
    mem_dropPattern (by decide) (by decide) (by simp) hurn
  have hbrace : isBrace '\x00' = false := by decide
  have hcore := (mem_dropWhile_of_not hbrace (mem_dropWhile_of_not hbrace huuid).1).2
  have hfilter := List.mem_filter (p := (· != '-')).mpr ⟨hcore, by decide⟩
  simp only [parse, parseHex_eq_none hfilter] at h
  split_ifs at h

end UUID

example : (UUID.parse "urn:uuid:\x7b0000000A-0000-0000-0000-00000000000b\x7d").map UUID.text =
    .ok "0000000a-0000-0000-0000-00000000000b" := by decide

end LlamaTrade
