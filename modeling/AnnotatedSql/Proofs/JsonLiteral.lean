import AnnotatedSql.Json.Print
import AnnotatedSql.Json.Read
import AnnotatedSql.Proofs.Text
import Mathlib.Algebra.Group.Int.Defs
/-!
# Reading printed JSON strings and numbers

A printed string is read back as the string whatever stands behind it (`Json.reads_stringLiteral`), and a printed
integer as the integer if no character that could go on with a number stands behind it (`Json.reads_numberLiteral`).
-/

namespace AnnotatedSql.Json

/-- A reader takes a value from the front of a text and leaves a rest. -/
def Reads {α : Type} (read : Reader α) (text : List Char) (value : α) (rest : List Char) : Prop :=
  ∃ a, read text = .ok a ∧ a.value = value ∧ a.rest = rest

variable {α : Type} {text rest : List Char}

theorem reads_char (c : Char) (rest : List Char) : Reads (char c) (c :: rest) () rest := by
  refine ⟨⟨(), rest, length_rest_lt c rest⟩, ?_, rfl, rfl⟩
  simp [char]

theorem reads_behindBlanks_iff {read : Reader α} {value : α} :
    Reads (behindBlanks read) text value rest ↔ Reads read (skipBlanks text) value rest := by
  unfold Reads behindBlanks
  constructor
  · rintro ⟨a, hread, hvalue, hrest⟩
    cases h : read (skipBlanks text) with
    | error fault =>
      rw [h] at hread
      cases hread
    | ok b =>
      rw [h] at hread
      cases hread
      exact ⟨b, rfl, hvalue, hrest⟩
  · rintro ⟨a, hread, hvalue, hrest⟩
    rw [hread]
    exact ⟨_, rfl, hvalue, hrest⟩

/-- Blanks in front of what is read are skipped. -/
theorem reads_behindBlanks {read : Reader α} {value : α} {blanks : List Char} (hblanks : ∀ c ∈ blanks, isBlank c = true)
    (htext : ∀ c, text.head? = some c → isBlank c = false) (h : Reads read text value rest) :
    Reads (behindBlanks read) (blanks ++ text) value rest := by
  have hskip : skipBlanks (blanks ++ text) = text := Text.dropWhile_append_stop hblanks htext
  rw [reads_behindBlanks_iff, hskip]
  exact h

theorem reads_behindBlanks_of_head {read : Reader α} {value : α} (htext : ∀ c, text.head? = some c → isBlank c = false)
    (h : Reads read text value rest) : Reads (behindBlanks read) text value rest := by
  have hskip : skipBlanks text = text := Text.dropWhile_append_stop (s := []) (by simp) htext
  rw [reads_behindBlanks_iff, hskip]
  exact h

/-! ## Strings -/

/-- The codes of control characters read back. -/
theorem hexNumber?_hexDigit : ∀ n < 0x20, hexNumber? '0' '0' (hexDigit (n / 16)) (hexDigit n) = some n := by
  decide

theorem reads_codedChar {c : Char} (hc : c.toNat < 0x20) (rest : List Char) :
    Reads codedChar ('0' :: '0' :: hexDigit (c.toNat / 16) :: hexDigit c.toNat :: rest) c rest := by
  have hunit : Reads hexUnit ('0' :: '0' :: hexDigit (c.toNat / 16) :: hexDigit c.toNat :: rest) c.toNat rest := by
    unfold Reads hexUnit
    dsimp only
    rw [hexNumber?_hexDigit c.toNat hc]
    exact ⟨_, rfl, rfl, rfl⟩
  obtain ⟨a, hread, hvalue, hrest⟩ := hunit
  have hlow : isLowSurrogate a.value = false := by
    simp [isLowSurrogate, hvalue]
    omega
  have hhigh : isHighSurrogate a.value = false := by
    simp [isHighSurrogate, hvalue]
    omega
  refine ⟨a.map Char.ofNat, ?_, ?_, hrest⟩
  · unfold codedChar
    rw [hread]
    simp only [bind, Except.bind, hlow, hhigh]
    rfl
  · simp [Front.map, hvalue, Char.ofNat_toNat]

theorem reads_escape_letter {letter c : Char} (hletter : letter ≠ 'u') (hmeant : letterEscape? letter = some c)
    (rest : List Char) : Reads escape (letter :: rest) c rest := by
  refine ⟨⟨c, rest, length_rest_lt letter rest⟩, ?_, rfl, rfl⟩
  unfold escape
  simp [hletter, hmeant]

theorem reads_escape_code {c : Char} (hc : c.toNat < 0x20) (rest : List Char) :
    Reads escape ('u' :: '0' :: '0' :: hexDigit (c.toNat / 16) :: hexDigit c.toNat :: rest) c rest := by
  obtain ⟨a, hread, hvalue, hrest⟩ := reads_codedChar hc rest
  refine ⟨a.after 'u', ?_, hvalue, hrest⟩
  unfold escape
  simp [hread, Except.map]

theorem reads_stringRest_backslash {c : Char} {s : List Char} (hescape : Reads escape text c rest)
    {end' : List Char} (h : Reads stringRest rest s end') : Reads stringRest ('\\' :: text) (c :: s) end' := by
  obtain ⟨meant, hread, rfl, rfl⟩ := hescape
  obtain ⟨more, hmore, rfl, rfl⟩ := h
  refine ⟨((meant.later more).map (meant.value :: ·)).after '\\', ?_, rfl, rfl⟩
  rw [stringRest]
  simp [hread, hmore, bind, Except.bind, pure, Except.pure]

theorem reads_stringRest_plain {c : Char} (hquote : c ≠ '"') (hbackslash : c ≠ '\\') (hcontrol : ¬ c.toNat < 0x20)
    {s : List Char} (h : Reads stringRest text s rest) : Reads stringRest (c :: text) (c :: s) rest := by
  obtain ⟨more, hmore, rfl, rfl⟩ := h
  refine ⟨(more.map (c :: ·)).after c, ?_, rfl, rfl⟩
  rw [stringRest]
  simp [hquote, hbackslash, hcontrol, hmore, bind, Except.bind, pure, Except.pure]

/-- What is printed for a character reads back as one character of a string. -/
theorem reads_stringRest_escaped (c : Char) {s : List Char} (h : Reads stringRest text s rest) :
    Reads stringRest (escaped c ++ text) (c :: s) rest := by
  unfold escaped
  split
  case h_8 =>
    rename_i hquote hbackslash _ _ _ _ _
    split
    · rename_i hcontrol
      exact reads_stringRest_backslash (reads_escape_code hcontrol text) h
    · rename_i hcontrol
      exact reads_stringRest_plain (fun hc => hquote hc) (fun hc => hbackslash hc) hcontrol h
  all_goals exact reads_stringRest_backslash (reads_escape_letter (by decide) (by decide) text) h

theorem reads_stringRest_quote (rest : List Char) : Reads stringRest ('"' :: rest) [] rest := by
  refine ⟨⟨[], rest, length_rest_lt '"' rest⟩, ?_, rfl, rfl⟩
  rw [stringRest]
  simp

theorem reads_stringRest (s rest : List Char) : Reads stringRest (s.flatMap escaped ++ '"' :: rest) s rest := by
  induction s with
  | nil => exact reads_stringRest_quote rest
  | cons c s ih =>
    rw [List.flatMap_cons, List.append_assoc]
    exact reads_stringRest_escaped c ih

/-- A printed string is read back. -/
theorem reads_stringLiteral (s : String) (rest : List Char) :
    Reads stringLiteral (quoted s.toList ++ rest) s rest := by
  have hquoted : quoted s.toList ++ rest = '"' :: (s.toList.flatMap escaped ++ '"' :: rest) := by
    simp [quoted]
  rw [hquoted]
  obtain ⟨more, hmore, hvalue, hrest⟩ := reads_stringRest s.toList rest
  refine ⟨(Front.map String.ofList more).after '"', ?_, ?_, hrest⟩
  · unfold stringLiteral
    simp [char, hmore, bind, Except.bind, pure, Except.pure, Front.later, Front.map, Front.after]
  · simp [Front.map, Front.after, hvalue]

/-! ## Numbers -/

/-- No character stands here that could go on with a number. -/
def Stops (text : List Char) : Prop :=
  ∀ c, text.head? = some c → c.isDigit = false ∧ c ∉ ['.', 'e', 'E']

theorem accumulate_eq {digits : List Char} {n : Nat} (h : Nat.ofDigitChars 10 digits n ≤ maxSignificand) :
    accumulate n digits = (Nat.ofDigitChars 10 digits n, 0) := by
  induction digits generalizing n with
  | nil => rfl
  | cons c cs ih =>
    have hnext : 10 * n + Text.decimal [c] = 10 * n + (c.toNat - '0'.toNat) := by
      simp [Text.decimal, Nat.ofDigitChars_cons]
    rw [Nat.ofDigitChars_cons] at h ⊢
    unfold accumulate
    simp only [hnext]
    rw [if_pos (Nat.le_trans (Text.le_ofDigitChars _ cs) h), ih h]

/-- Only zero itself is written with a zero in front. -/
theorem head?_toDigits {n : Nat} (h : 0 < n) : (Nat.toDigits 10 n).head? ≠ some '0' := by
  induction n using Nat.strong_induction_on with
  | _ n ih =>
    by_cases hsmall : n < 10
    · rw [Nat.toDigits_of_lt_base hsmall]
      have hdigit : ∀ m < 10, 0 < m → [m.digitChar].head? ≠ some '0' := by decide
      exact hdigit n hsmall h
    · rw [Nat.toDigits_of_base_le (by decide) (by omega), List.head?_append_of_ne_nil _ Nat.toDigits_ne_nil]
      exact ih (n / 10) (by omega) (by omega)

theorem reads_digits (ds : List Char) (hne : ds ≠ []) (hdigits : ∀ c ∈ ds, c.isDigit = true)
    (hrest : ∀ c, rest.head? = some c → c.isDigit = false) : Reads digits (ds ++ rest) ds rest := by
  obtain ⟨c, cs, rfl⟩ := List.exists_cons_of_ne_nil hne
  rw [List.forall_mem_cons] at hdigits
  have htake := Text.takeWhile_append_stop hdigits.2 hrest
  have hdrop := Text.dropWhile_append_stop hdigits.2 hrest
  refine ⟨⟨c :: (cs ++ rest).takeWhile Char.isDigit, (cs ++ rest).dropWhile Char.isDigit, ?_⟩, ?_, ?_, ?_⟩
  · exact Nat.lt_succ_of_le (List.dropWhile_suffix Char.isDigit).length_le
  · unfold digits
    simp [hdigits.1]
  · simp [htake]
  · exact hdrop

theorem reads_wholeDigits (n : Nat) (hrest : ∀ c, rest.head? = some c → c.isDigit = false) :
    Reads wholeDigits (Nat.toDigits 10 n ++ rest) (Nat.toDigits 10 n) rest := by
  obtain ⟨ds, hread, hvalue, hends⟩ :=
    reads_digits (Nat.toDigits 10 n) Nat.toDigits_ne_nil (fun c => Text.isDigit_of_mem_toDigits) hrest
  have hleading : ¬ (ds.value.head? = some '0' ∧ ds.value ≠ ['0']) := by
    rw [hvalue]
    rintro ⟨hzero, hlong⟩
    by_cases hn : n = 0
    · subst hn
      exact hlong rfl
    · exact head?_toDigits (by omega) hzero
  refine ⟨ds, ?_, hvalue, hends⟩
  unfold wholeDigits
  rw [hread]
  simp only [bind, Except.bind, if_neg hleading]
  rfl

/-- Nothing is read on behind a front if no mark stands there. -/
theorem also_eq {a : Front α text} {β : Type} {isMark : Char → Bool} (read : Reader β)
    (h : ∀ c, a.rest.head? = some c → isMark c = false) : a.also isMark read = .ok (a.map (·, none)) := by
  unfold Front.also
  split
  · rfl
  · rename_i c rest hrest
    rw [if_neg (by simp [h c (by rw [hrest]; rfl)])]

/-- The number that whole digits write is read when nothing goes on with it. -/
theorem reads_unsigned {negative : Bool} {n : Nat} {number : Number} (hn : n ≤ maxSignificand)
    (hnumber : Number.integer? negative n = some number) (hrest : Stops rest) :
    Reads (unsigned negative) (Nat.toDigits 10 n ++ rest) number rest := by
  obtain ⟨whole, hread, hvalue, hends⟩ := reads_wholeDigits n fun c hc => (hrest c hc).1
  have hdigits : Nat.ofDigitChars 10 (Nat.toDigits 10 n) 0 = n := Text.decimal_toDigits n
  have hwhole : Number.ofWhole? negative whole.value = some number := by
    unfold Number.ofWhole?
    rw [hvalue, accumulate_eq (by rwa [hdigits]), hdigits]
    simp [hnumber]
  have hmark : ∀ c, whole.rest.head? = some c → c ∉ ['.', 'e', 'E'] := fun c hc => (hrest c (hends ▸ hc)).2
  have hdot : whole.also (· == '.') digits = .ok (whole.map (·, none)) :=
    also_eq digits fun c hc => by simpa using And.left (by simpa using hmark c hc)
  have hpower : (whole.map (·, (none : Option (List Char)))).also (fun c => c == 'e' || c == 'E') signedDigits =
      .ok ((whole.map (·, none)).map (·, none)) :=
    also_eq signedDigits fun c hc => by simpa using And.right (by simpa using hmark c hc)
  refine ⟨whole.map fun _ => number, ?_, rfl, hends⟩
  unfold unsigned
  rw [hread]
  simp only [bind, Except.bind, hdot, hpower]
  simp only [Front.map, hwhole]
  rfl

/-- A number that is read back as it is printed: an integer of 64 bits, or the negative zero that is kept for `-0`. -/
inductive Number.IsWhole : Number → Prop
  | integer {n : Int} (low : -2 ^ 63 ≤ n) (high : n < 2 ^ 64) : IsWhole (.integer n)
  | negativeZero : IsWhole (.double (.zero true))

theorem text_ofNat (n : Nat) : (Number.integer (.ofNat n)).text = Nat.toDigits 10 n :=
  Nat.toList_repr

theorem text_negSucc (n : Nat) : (Number.integer (.negSucc n)).text = '-' :: Nat.toDigits 10 (n + 1) := by
  have hrepr : toString (Int.negSucc n) = "-" ++ (n + 1).repr := rfl
  rw [Number.text, hrepr, String.toList_append, Nat.toList_repr]
  rfl

theorem reads_numberLiteral_minus {n : Number} (h : Reads (unsigned true) text n rest) :
    Reads numberLiteral ('-' :: text) n rest := by
  obtain ⟨a, hread, hvalue, hends⟩ := h
  refine ⟨a.after '-', ?_, hvalue, hends⟩
  unfold numberLiteral
  simp [hread, Except.map]

/-- Reads on behind a front where a mark stands. -/
theorem also_eq_of_mark {a : Front α text} {β : Type} (isMark : Char → Bool) {read : Reader β} {c : Char}
    {behind : List Char} {b : β} (hc : isMark c = true) (ha : a.rest = c :: behind) (h : Reads read behind b rest) :
    ∃ both, a.also isMark read = .ok both ∧ both.value = (a.value, some b) ∧ both.rest = rest := by
  obtain ⟨more, hread, rfl, rfl⟩ := h
  unfold Front.also
  split
  · rename_i hnil
    rw [ha] at hnil
    cases hnil
  · rename_i d behind' hcons
    rw [ha, List.cons.injEq] at hcons
    obtain ⟨rfl, rfl⟩ := hcons
    rw [if_pos hc, hread]
    exact ⟨_, rfl, rfl, rfl⟩

theorem reads_negativeZero (hrest : Stops rest) :
    Reads (unsigned true) (Nat.toDigits 10 0 ++ '.' :: '0' :: rest) (.double (.zero true)) rest := by
  have hwhole : Reads wholeDigits (Nat.toDigits 10 0 ++ '.' :: '0' :: rest) (Nat.toDigits 10 0) ('.' :: '0' :: rest) :=
    reads_wholeDigits 0 (by simp)
  have hfraction : Reads digits ('0' :: rest) ['0'] rest :=
    reads_digits ['0'] (by decide) (List.all_eq_true.1 (by decide)) fun c hc => (hrest c hc).1
  obtain ⟨whole, hread, hvalue, hends⟩ := hwhole
  obtain ⟨both, hboth, hbothvalue, hbothrest⟩ := also_eq_of_mark (· == '.') (by decide) hends hfraction
  have hpower : both.also (fun c => c == 'e' || c == 'E') signedDigits = .ok (both.map (·, none)) := by
    refine also_eq signedDigits fun c hc => ?_
    have hmark := (hrest c (hbothrest ▸ hc)).2
    simpa using And.right (by simpa using hmark)
  have hnumber : Number.ofParts? true (Nat.toDigits 10 0) ['0'] 0 = some (.double (.zero true)) := by decide +kernel
  refine ⟨both.map fun _ => .double (.zero true), ?_, rfl, hbothrest⟩
  unfold unsigned
  rw [hread]
  simp only [bind, Except.bind, hboth, hpower]
  simp only [Front.map, hbothvalue, hvalue, Option.getD_some, Option.getD_none, hnumber]
  rfl

theorem numberLiteral_of_head (h : text.head? ≠ some '-') : numberLiteral text = unsigned false text := by
  unfold numberLiteral
  split
  · exact absurd rfl h
  · rfl

/-- A printed whole number is read back. -/
theorem reads_numberLiteral {n : Number} (h : n.IsWhole) (hrest : Stops rest) :
    Reads numberLiteral (n.text ++ rest) n rest := by
  have hmax : maxSignificand = 18446744073709551615 := rfl
  cases h with
  | @integer n low high =>
    cases n with
    | ofNat n =>
      have hsign : (Nat.toDigits 10 n ++ rest).head? ≠ some '-' := by
        rw [List.head?_append_of_ne_nil _ Nat.toDigits_ne_nil]
        intro hhead
        exact absurd (Text.isDigit_of_mem_toDigits (List.mem_of_mem_head? hhead)) (by decide)
      rw [text_ofNat]
      unfold Reads
      rw [numberLiteral_of_head hsign]
      exact reads_unsigned (by simp at high; omega) rfl hrest
    | negSucc n =>
      rw [text_negSucc]
      refine reads_numberLiteral_minus (reads_unsigned (by omega) ?_ hrest)
      unfold Number.integer?
      rw [if_neg (by decide), if_pos (by simp; omega)]
      rfl
  | negativeZero =>
    have htext : (Number.double (.zero true)).text = '-' :: (Nat.toDigits 10 0 ++ ['.', '0']) := by decide +kernel
    rw [htext]
    exact reads_numberLiteral_minus (reads_negativeZero hrest)

end AnnotatedSql.Json
