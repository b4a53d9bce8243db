/-!
# Texts, blanks and byte spans

A text is scanned as its list of characters. Places in it are counted in bytes of its UTF-8
form, so a span always starts and ends between two characters.
-/

namespace AnnotatedSql

/-- A stretch of a text: where it starts and how long it is, in UTF-8 bytes. -/
structure Span where
  offset : Nat
  length : Nat
  deriving DecidableEq, Repr

namespace Text

/-- The length of a text in UTF-8 bytes. -/
def byteLength : List Char → Nat
  | [] => 0
  | c :: cs => c.utf8Size + byteLength cs

@[simp] theorem byteLength_nil : byteLength [] = 0 := rfl

@[simp] theorem byteLength_cons (c : Char) (cs : List Char) :
    byteLength (c :: cs) = c.utf8Size + byteLength cs := rfl

@[simp] theorem byteLength_append (s t : List Char) :
    byteLength (s ++ t) = byteLength s + byteLength t := by
  induction s with
  | nil => simp
  | cons c cs ih => simp [ih, Nat.add_assoc]

/-! ## Blanks -/

/-- The characters with the Unicode property White_Space. -/
def isBlank (c : Char) : Bool :=
  let n := c.toNat
  (9 ≤ n && n ≤ 13) || n == 0x20 || n == 0x85 || n == 0xA0 || n == 0x1680 ||
    (0x2000 ≤ n && n ≤ 0x200A) || n == 0x2028 || n == 0x2029 || n == 0x202F ||
    n == 0x205F || n == 0x3000

/-- A text without the blanks it starts with. -/
def trimStart (s : List Char) : List Char :=
  s.dropWhile isBlank

/-- A text without the blanks it ends with. -/
def trimEnd (s : List Char) : List Char :=
  (s.reverse.dropWhile isBlank).reverse

/-- A text without the blanks it starts and ends with. -/
def trim (s : List Char) : List Char :=
  trimEnd (trimStart s)

/-- The blanks a text starts with. -/
def indent (s : List Char) : List Char :=
  s.takeWhile isBlank

theorem indent_append_trimStart (s : List Char) : indent s ++ trimStart s = s :=
  List.takeWhile_append_dropWhile

/-! ## Words and digits -/

/-- A character of a word: an ASCII letter, an ASCII digit or an underscore. -/
def isWord (c : Char) : Bool :=
  c.isAlphanum || c == '_'

/-- The number that a run of decimal digits writes. -/
def decimal (digits : List Char) : Nat :=
  Nat.ofDigitChars 10 digits 0

/-- The number that a run of decimal digits writes, read digit by digit into a word of 64 bits;
nothing as soon as the word cannot hold it. -/
def decimal64? (digits : List Char) : Option Nat :=
  go 0 digits
where
  /-- Goes on from the digits already read as `n`. -/
  go (n : Nat) : List Char → Option Nat
    | [] => some n
    | c :: cs =>
      let next := 10 * n + (c.toNat - '0'.toNat)
      if next < UInt64.size then go next cs else none

/-- The value of a hexadecimal digit. -/
def hexValue? (c : Char) : Option Nat :=
  if c.isDigit then some (c.toNat - '0'.toNat)
  else if 'a' ≤ c ∧ c ≤ 'f' then some (c.toNat - 'a'.toNat + 10)
  else if 'A' ≤ c ∧ c ≤ 'F' then some (c.toNat - 'A'.toNat + 10)
  else none

/-! ## Finding one text in another -/

/-- What follows `start` in a text, if the text starts with it. -/
def after? : (start : List Char) → (text : List Char) → Option (List Char)
  | [], text => some text
  | _ :: _, [] => none
  | c :: cs, d :: ds => if c = d then after? cs ds else none

theorem after?_eq_some_iff {start text rest : List Char} :
    after? start text = some rest ↔ text = start ++ rest := by
  induction start generalizing text with
  | nil => simp [after?, eq_comm]
  | cons c cs ih =>
    cases text with
    | nil => simp [after?]
    | cons d ds => by_cases h : c = d <;> simp [after?, h, ih, eq_comm]

/-- A text cut at the first place where `mark` stands: what is in front of the mark, and what
is behind it. -/
def cut? (mark : List Char) : List Char → Option (List Char × List Char)
  | [] => (after? mark []).map fun rest => ([], rest)
  | c :: cs =>
    match after? mark (c :: cs) with
    | some rest => some ([], rest)
    | none => (cut? mark cs).map fun (front, rest) => (c :: front, rest)

theorem eq_append_of_cut? {mark text front rest : List Char}
    (h : cut? mark text = some (front, rest)) : text = front ++ mark ++ rest := by
  induction text generalizing front with
  | nil =>
    simp only [cut?, Option.map_eq_some_iff, Prod.mk.injEq] at h
    obtain ⟨_, hr, rfl, rfl⟩ := h
    simpa using after?_eq_some_iff.1 hr
  | cons c cs ih =>
    simp only [cut?] at h
    split at h
    · rename_i r hr
      simp only [Option.some.injEq, Prod.mk.injEq] at h
      obtain ⟨rfl, rfl⟩ := h
      simpa using after?_eq_some_iff.1 hr
    · simp only [Option.map_eq_some_iff, Prod.mk.injEq] at h
      obtain ⟨⟨f, r⟩, hcut, rfl, rfl⟩ := h
      simp [ih hcut]

/-- Dictionary order by code point, which is also the order of the UTF-8 bytes. -/
def precedes : List Char → List Char → Bool
  | [], _ => true
  | _ :: _, [] => false
  | c :: cs, d :: ds => c.toNat < d.toNat || (c == d && precedes cs ds)

end Text
end AnnotatedSql
