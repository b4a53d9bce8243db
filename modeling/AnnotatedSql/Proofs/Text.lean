import AnnotatedSql.Text
import Mathlib.Algebra.Group.Nat.Defs
import Mathlib.Data.List.DropRight
import Mathlib.Data.List.TakeWhile
/-!
# Blanks, lines and bytes

Trimming takes blanks from both ends of a text and nothing else. Lines are what stands between line
feeds. The bytes of a text are counted from its characters, so a cut between two characters is a cut
between two bytes of the encoded text.
-/

namespace AnnotatedSql.Text

variable {c : Char} {s t : List Char} {p : Char → Bool}

/-! ## Characters -/

/-- What holds of all characters of a text can be decided along the text. Deciding the statement itself may go through
all characters that there are. -/
theorem forall_mem_of_all {q : Char → Prop} [DecidablePred q] (h : s.all (fun c => decide (q c)) = true) :
    ∀ c ∈ s, q c := by
  simpa using h

theorem isDigit_iff {c : Char} : c.isDigit = true ↔ 48 ≤ c.toNat ∧ c.toNat ≤ 57 := by
  change (decide _ && decide _) = true ↔ _
  rw [Bool.and_eq_true, decide_eq_true_iff, decide_eq_true_iff]
  rfl

theorem isAlpha_iff {c : Char} :
    c.isAlpha = true ↔ (65 ≤ c.toNat ∧ c.toNat ≤ 90) ∨ (97 ≤ c.toNat ∧ c.toNat ≤ 122) := by
  have hupper : c.isUpper = true ↔ 65 ≤ c.toNat ∧ c.toNat ≤ 90 := decide_eq_true_iff
  have hlower : c.isLower = true ↔ 97 ≤ c.toNat ∧ c.toNat ≤ 122 := by
    change (decide _ && decide _) = true ↔ _
    rw [Bool.and_eq_true, decide_eq_true_iff, decide_eq_true_iff]
    rfl
  change (c.isUpper || c.isLower) = true ↔ _
  rw [Bool.or_eq_true, hupper, hlower]

theorem isWord_iff {c : Char} : isWord c = true ↔ c.isAlpha = true ∨ c.isDigit = true ∨ c = '_' := by
  change (c.isAlpha || c.isDigit || c == '_') = true ↔ _
  rw [Bool.or_eq_true, Bool.or_eq_true, beq_iff_eq, or_assoc]

theorem isWord_iff_isAlphanum {c : Char} : isWord c = true ↔ c.isAlphanum = true ∨ c = '_' := by
  rw [isWord, Bool.or_eq_true, beq_iff_eq]

theorem isWord_eq_false_iff {c : Char} : isWord c = false ↔ ¬ (c.isAlphanum = true ∨ c = '_') := by
  rw [← isWord_iff_isAlphanum, Bool.not_eq_true]

/-- Words are made of such characters only. -/
theorem forall_isWord_iff : (∀ c ∈ s, isWord c = true) ↔ ∀ c ∈ s, c.isAlphanum = true ∨ c = '_' := by
  simp only [isWord_iff_isAlphanum]

/-- The characters that Unicode counts as white space. -/
def IsSpace (c : Char) : Prop :=
  c.toNat ∈ [0x09, 0x0A, 0x0B, 0x0C, 0x0D, 0x20, 0x85, 0xA0, 0x1680, 0x2000, 0x2001, 0x2002, 0x2003, 0x2004, 0x2005,
    0x2006, 0x2007, 0x2008, 0x2009, 0x200A, 0x2028, 0x2029, 0x202F, 0x205F, 0x3000]

theorem isBlank_iff {c : Char} : isBlank c = true ↔ IsSpace c := by
  simp only [isBlank, IsSpace, Bool.or_eq_true, Bool.and_eq_true, decide_eq_true_eq, beq_iff_eq, List.mem_cons,
    List.not_mem_nil, or_false]
  omega

theorem isBlank_eq_false_iff {c : Char} : isBlank c = false ↔ ¬ IsSpace c := by
  rw [← isBlank_iff, Bool.not_eq_true]

theorem forall_isBlank_iff : (∀ c ∈ s, isBlank c = true) ↔ ∀ c ∈ s, IsSpace c := by
  simp only [isBlank_iff]

theorem isWord_of_isDigit {c : Char} (h : c.isDigit = true) : isWord c = true :=
  isWord_iff.2 (.inr (.inl h))

/-- A character of a word is one of ASCII, above the blanks and the punctuation that starts no word. -/
theorem toNat_of_isWord {c : Char} (h : isWord c = true) :
    (48 ≤ c.toNat ∧ c.toNat ≤ 57) ∨ (65 ≤ c.toNat ∧ c.toNat ≤ 90) ∨ c.toNat = 95 ∨
      (97 ≤ c.toNat ∧ c.toNat ≤ 122) := by
  rcases isWord_iff.1 h with h | h | rfl
  · have := isAlpha_iff.1 h
    omega
  · exact .inl (isDigit_iff.1 h)
  · decide

theorem not_isBlank_of_isWord {c : Char} (h : isWord c = true) : isBlank c = false := by
  have := toNat_of_isWord h
  simp only [isBlank, Bool.or_eq_false_iff, Bool.and_eq_false_iff, decide_eq_false_iff_not, beq_eq_false_iff_ne]
  omega

theorem newline_not_mem_of_isWord {word : List Char} (h : ∀ c ∈ word, isWord c = true) : '\n' ∉ word := by
  intro hmem
  exact absurd (h '\n' hmem) (by decide)

theorem isDigit_of_mem_toDigits {c : Char} {n : Nat} (h : c ∈ Nat.toDigits 10 n) : c.isDigit = true :=
  Nat.isDigit_of_mem_toDigits (by decide) (by decide) h

/-- Decimal digits are read back as the number that they were written for. -/
theorem decimal_toDigits (n : Nat) : decimal (Nat.toDigits 10 n) = n :=
  Nat.ofDigitChars_toDigits (by decide) (by decide)

theorem le_ofDigitChars (n : Nat) (digits : List Char) : n ≤ Nat.ofDigitChars 10 digits n := by
  induction digits generalizing n with
  | nil => simp
  | cons c cs ih =>
    rw [Nat.ofDigitChars_cons]
    exact Nat.le_trans (by omega) (ih _)

theorem decimal64?_go {n m : Nat} {digits : List Char} (hn : n < 2 ^ 64) :
    decimal64?.go n digits = some m ↔ Nat.ofDigitChars 10 digits n = m ∧ m < 2 ^ 64 := by
  have hword : UInt64.size = 2 ^ 64 := by decide
  induction digits generalizing n with
  | nil =>
    simp only [decimal64?.go, Option.some.injEq, Nat.ofDigitChars_nil]
    omega
  | cons c cs ih =>
    simp only [decimal64?.go, Nat.ofDigitChars_cons, hword]
    split
    · rename_i hnext
      exact ih hnext
    · -- what a word cannot hold now only grows with the digits behind
      have hle := le_ofDigitChars (10 * n + (c.toNat - '0'.toNat)) cs
      simp only [reduceCtorEq, false_iff]
      omega

/-- Digits are read into a word of 64 bits exactly when it can hold the number that they write. -/
theorem decimal64?_eq_some_iff {n : Nat} {digits : List Char} :
    decimal64? digits = some n ↔ decimal digits = n ∧ n < 2 ^ 64 :=
  decimal64?_go (by omega)

/-! ## The longest run -/

/-- A run ends in front of a character that does not belong in it. -/
theorem stop_cons (hc : p c = false) : ∀ d, (c :: s).head? = some d → p d = false := by
  rintro d hd
  cases hd
  exact hc

theorem takeWhile_append_stop (hs : ∀ c ∈ s, p c = true) (ht : ∀ c, t.head? = some c → p c = false) :
    (s ++ t).takeWhile p = s := by
  rw [List.takeWhile_append_of_pos hs]
  cases t with
  | nil => simp
  | cons c cs => simp [ht c rfl]

theorem dropWhile_append_stop (hs : ∀ c ∈ s, p c = true) (ht : ∀ c, t.head? = some c → p c = false) :
    (s ++ t).dropWhile p = t := by
  rw [List.dropWhile_append_of_pos hs]
  cases t with
  | nil => rfl
  | cons c cs => simp [ht c rfl]

theorem head?_dropWhile (s : List Char) (c : Char) (h : (s.dropWhile p).head? = some c) : p c = false := by
  have := List.head?_dropWhile_not p s
  rw [h] at this
  simpa using this

/-! ## Trimming -/

theorem trimEnd_eq (s : List Char) : trimEnd s = s.rdropWhile isBlank := rfl

theorem trimStart_of_blank (h : ∀ c ∈ s, isBlank c = true) : trimStart s = [] :=
  List.dropWhile_eq_nil_iff.2 h

theorem trimStart_append_of_blank (h : ∀ c ∈ s, isBlank c = true) : trimStart (s ++ t) = trimStart t :=
  List.dropWhile_append_of_pos h

theorem isBlank_of_mem_indent {c : Char} (h : c ∈ indent s) : isBlank c = true :=
  List.mem_takeWhile_imp h

/-- Blanks in front of a text that starts with none are its indent. -/
theorem indent_append_stop (hs : ∀ c ∈ s, isBlank c = true) (ht : ∀ c, t.head? = some c → isBlank c = false) :
    indent (s ++ t) = s :=
  takeWhile_append_stop hs ht

theorem trimStart_append_stop (hs : ∀ c ∈ s, isBlank c = true) (ht : ∀ c, t.head? = some c → isBlank c = false) :
    trimStart (s ++ t) = t :=
  dropWhile_append_stop hs ht

/-- A text that starts with no blank is left alone at its start. -/
theorem trimStart_eq_self (h : ∀ c, s.head? = some c → isBlank c = false) : trimStart s = s :=
  trimStart_append_stop (s := []) (by simp) h

theorem trimEnd_append_of_blank (h : ∀ c ∈ t, isBlank c = true) : trimEnd (s ++ t) = trimEnd s := by
  unfold trimEnd
  rw [List.reverse_append, List.dropWhile_append_of_pos (by simpa using h)]

theorem trimEnd_eq_self (h : ∀ c, s.getLast? = some c → isBlank c = false) : trimEnd s = s := by
  rw [trimEnd_eq, List.rdropWhile_eq_self_iff]
  intro hs
  simp [h _ (List.getLast?_eq_some_getLast hs)]

/-- What `trimEnd` takes from a text is blank. -/
theorem exists_trimEnd_append (s : List Char) :
    ∃ behind, (∀ c ∈ behind, isBlank c = true) ∧ s = trimEnd s ++ behind := by
  refine ⟨s.rtakeWhile isBlank, fun c hc => List.mem_rtakeWhile_imp hc, ?_⟩
  rw [trimEnd_eq, List.rdropWhile_append_rtakeWhile]

theorem getLast?_trimEnd {c : Char} (h : (trimEnd s).getLast? = some c) : isBlank c = false := by
  have hs : s.rdropWhile isBlank ≠ [] := by
    rintro he
    rw [trimEnd_eq, he] at h
    cases h
  have := List.rdropWhile_last_not isBlank s hs
  rw [trimEnd_eq, List.getLast?_eq_some_getLast hs] at h
  cases h
  simpa using this

/-- A text is its indent, what trimming leaves of it, and blanks. -/
theorem exists_indent_append_trim (s : List Char) :
    ∃ behind, (∀ c ∈ behind, isBlank c = true) ∧ s = indent s ++ trim s ++ behind := by
  obtain ⟨behind, hb, he⟩ := exists_trimEnd_append (trimStart s)
  refine ⟨behind, hb, ?_⟩
  rw [List.append_assoc]
  unfold trim
  rw [← he, indent_append_trimStart]

theorem mem_of_mem_trim (h : c ∈ trim s) : c ∈ s := by
  obtain ⟨behind, -, he⟩ := exists_indent_append_trim s
  rw [he]
  simp [h]

theorem trim_of_blank (h : ∀ c ∈ s, isBlank c = true) : trim s = [] := by
  unfold trim
  rw [trimStart_of_blank h]
  rfl

theorem trim_append_left (h : ∀ c ∈ s, isBlank c = true) : trim (s ++ t) = trim t := by
  unfold trim
  rw [trimStart_append_of_blank h]

theorem trim_append_right (h : ∀ c ∈ t, isBlank c = true) : trim (s ++ t) = trim s := by
  unfold trim trimStart
  rw [List.dropWhile_append]
  -- if the text is blank, the blanks behind it go with those in front
  split
  · rename_i he
    rw [List.isEmpty_iff.1 he, List.dropWhile_eq_nil_iff.2 h]
  · exact trimEnd_append_of_blank h

theorem trim_eq_nil_iff : trim s = [] ↔ ∀ c ∈ s, isBlank c = true := by
  refine ⟨fun h => ?_, trim_of_blank⟩
  obtain ⟨behind, hb, he⟩ := exists_indent_append_trim s
  rw [h, List.append_nil] at he
  rw [he]
  intro c hc
  rcases List.mem_append.1 hc with hc | hc
  · exact isBlank_of_mem_indent hc
  · exact hb c hc

/-- A text ends with no blank if its parts do. -/
theorem getLast?_append_not_isBlank (hs : ∀ c, s.getLast? = some c → isBlank c = false)
    (ht : ∀ c, t.getLast? = some c → isBlank c = false) : ∀ c, (s ++ t).getLast? = some c → isBlank c = false := by
  intro c hc
  rw [List.getLast?_append, Option.or_eq_some_iff] at hc
  rcases hc with hc | ⟨-, hc⟩
  · exact ht c hc
  · exact hs c hc

/-- What stands behind a text that is not blank is no part of its indent. -/
theorem indent_append (h : trim s ≠ []) (t : List Char) : indent (s ++ t) = indent s := by
  unfold indent
  rw [List.takeWhile_append, if_neg]
  intro hlen
  exact h (trim_of_blank (List.takeWhile_eq_self_iff.1 ((List.takeWhile_prefix _).eq_of_length hlen)))

theorem trimStart_append (h : trim s ≠ []) (t : List Char) : trimStart (s ++ t) = trimStart s ++ t := by
  have hsplit := indent_append_trimStart (s ++ t)
  rw [indent_append h] at hsplit
  refine (List.append_right_inj (indent s)).1 ?_
  rw [hsplit, ← List.append_assoc, indent_append_trimStart]

theorem trim_trimStart (s : List Char) : trim (trimStart s) = trim s := by
  conv_rhs => rw [← indent_append_trimStart s]
  exact (trim_append_left fun _ => isBlank_of_mem_indent).symm

/-- Trimming leaves a text alone exactly when no blank stands at either end of it. -/
theorem trim_eq_self_iff :
    trim s = s ↔ (∀ c, s.head? = some c → isBlank c = false) ∧ ∀ c, s.getLast? = some c → isBlank c = false := by
  constructor
  · intro h
    refine ⟨fun c hc => ?_, fun c hc => getLast?_trimEnd (s := trimStart s) (by unfold trim at h; rwa [h])⟩
    obtain ⟨behind, -, he⟩ := exists_trimEnd_append (trimStart s)
    change trimStart s = trim s ++ behind at he
    refine head?_dropWhile s c (?_ : (trimStart s).head? = some c)
    rw [he, h]
    cases s with
    | nil => cases hc
    | cons d ds => exact hc
  · rintro ⟨hh, hl⟩
    unfold trim
    rw [trimStart_eq_self hh, trimEnd_eq_self hl]

theorem trim_trim (s : List Char) : trim (trim s) = trim s := by
  obtain ⟨behind, hb, he⟩ := exists_indent_append_trim s
  conv_rhs => rw [he]
  rw [trim_append_right hb, trim_append_left fun _ => isBlank_of_mem_indent]

/-! ## Lines -/

/-- A line of a text, or another part of one, with what stands in front of it and what stands behind it. -/
theorem intercalate_append_cons (pre : List (List Char)) (line : List Char) (post : List (List Char)) :
    [c].intercalate (pre ++ line :: post) = pre.flatMap (· ++ [c]) ++ line ++ post.flatMap (c :: ·) := by
  induction pre with
  | nil =>
    induction post generalizing line with
    | nil => simp
    | cons next post ih =>
      rw [List.nil_append, List.intercalate_cons_cons, ← List.nil_append (next :: post), ih]
      simp
  | cons first pre ih =>
    rw [List.cons_append, List.intercalate_cons_of_ne_nil (by simp), ih]
    simp

theorem not_mem_of_mem_splitOn {line : List Char} (h : line ∈ s.splitOn c) : c ∉ line := by
  induction s generalizing line with
  | nil =>
    rw [List.splitOn_nil, List.mem_singleton] at h
    simp [h]
  | cons d ds ih =>
    rw [List.splitOn_cons_eq_if_modifyHead] at h
    by_cases hd : d = c
    · rw [if_pos (by simpa using hd)] at h
      rcases List.mem_cons.1 h with rfl | h
      · simp
      · exact ih h
    · rw [if_neg (by simpa using hd)] at h
      cases hs : ds.splitOn c with
      | nil => exact absurd hs (List.splitOn_ne_nil c ds)
      | cons first rest =>
        rw [hs, List.modifyHead_cons] at h
        rcases List.mem_cons.1 h with rfl | h
        · have hfirst : first ∈ ds.splitOn c := by simp [hs]
          simp [Ne.symm hd, ih hfirst]
        · exact ih (by simp [hs, h])

/-- A text put together from parts holds only their characters and those of the separator. -/
theorem mem_of_mem_intercalate {sep : List Char} {parts : List (List Char)} (h : c ∈ sep.intercalate parts) :
    c ∈ sep ∨ ∃ part ∈ parts, c ∈ part := by
  induction parts with
  | nil => cases h
  | cons part parts ih =>
    by_cases hp : parts = []
    · subst hp
      exact .inr ⟨part, List.mem_cons_self, by simpa using h⟩
    · rw [List.intercalate_cons_of_ne_nil hp, List.append_assoc, List.mem_append, List.mem_append] at h
      rcases h with h | h | h
      · exact .inr ⟨part, List.mem_cons_self, h⟩
      · exact .inl h
      · rcases ih h with h | ⟨q, hq, h⟩
        · exact .inl h
        · exact .inr ⟨q, List.mem_cons_of_mem _ hq, h⟩

/-! ## Cutting a text -/

/-- A text is cut at the first place where its mark can start. -/
theorem cut?_append {m : Char} (mark : List Char) (h : m ∉ s) (t : List Char) :
    cut? (m :: mark) (s ++ (m :: mark ++ t)) = some (s, t) := by
  induction s with
  | nil => simp [cut?, after?_eq_some_iff.2]
  | cons c cs ih =>
    rw [List.mem_cons, not_or] at h
    rw [List.cons_append, cut?, ih h.2]
    -- the mark does not start here, because its first character is another one
    have hnone : after? (m :: mark) (c :: (cs ++ (m :: mark ++ t))) = none := if_neg h.1
    rw [hnone]
    rfl

/-! ## Bytes -/

/-- The bytes of a text, counted character by character, are those of its encoding. -/
theorem utf8ByteSize_ofList (s : List Char) : (String.ofList s).utf8ByteSize = byteLength s := by
  induction s with
  | nil => rfl
  | cons c cs ih =>
    rw [show String.ofList (c :: cs) = String.singleton c ++ String.ofList cs by
      rw [String.singleton_eq_ofList, ← String.ofList_append]; rfl]
    rw [String.utf8ByteSize_append, String.utf8ByteSize_singleton, ih, byteLength_cons]

/-- A cut between two characters is a place in the encoded text. -/
theorem isValid_byteLength {content : String} {before behind : List Char} (h : content.toList = before ++ behind) :
    String.Pos.Raw.IsValid content ⟨byteLength before⟩ := by
  refine String.Pos.Raw.isValid_iff_exists_append.2 ⟨String.ofList before, String.ofList behind, ?_, ?_⟩
  · rw [← String.ofList_append, ← h, String.ofList_toList]
  · rw [← utf8ByteSize_ofList]
    rfl

/-- The bytes between two cuts are those of the characters between them. -/
theorem extract_toByteArray {content : String} {before text behind : List Char}
    (h : content.toList = before ++ text ++ behind) :
    content.toByteArray.extract (byteLength before) (byteLength before + byteLength text) =
      (String.ofList text).toByteArray := by
  have hcontent : content = String.ofList before ++ (String.ofList text ++ String.ofList behind) := by
    rw [← String.ofList_append, ← String.ofList_append, ← List.append_assoc, ← h, String.ofList_toList]
  have hbefore : byteLength before = (String.ofList before).toByteArray.size + 0 := (utf8ByteSize_ofList before).symm
  have htext : byteLength text = (String.ofList text).toByteArray.size := (utf8ByteSize_ofList text).symm
  calc content.toByteArray.extract (byteLength before) (byteLength before + byteLength text)
    _ = ((String.ofList before).toByteArray ++
          ((String.ofList text).toByteArray ++ (String.ofList behind).toByteArray)).extract
          ((String.ofList before).toByteArray.size + 0)
          ((String.ofList before).toByteArray.size + (String.ofList text).toByteArray.size) := by
      rw [hbefore, htext, hcontent, String.toByteArray_append, String.toByteArray_append, Nat.add_zero]
    _ = (String.ofList text).toByteArray := by
      rw [ByteArray.extract_append_size_add, ByteArray.extract_append_eq_left rfl]

/-- A span lies in a text, starts and ends between two characters, and holds exactly the bytes of a part of it. -/
structure Covers (content : String) (span : Span) (part : String) : Prop where
  inside : span.offset + span.length ≤ content.utf8ByteSize
  starts : String.Pos.Raw.IsValid content ⟨span.offset⟩
  ends : String.Pos.Raw.IsValid content ⟨span.offset + span.length⟩
  bytes : content.toByteArray.extract span.offset (span.offset + span.length) = part.toByteArray

theorem covers_of_append {content : String} {before part behind : List Char}
    (h : content.toList = before ++ part ++ behind) :
    Covers content ⟨byteLength before, byteLength part⟩ (String.ofList part) where
  inside := by
    dsimp only
    rw [← String.ofList_toList (s := content), utf8ByteSize_ofList, h, ← byteLength_append, byteLength_append (before ++ _)]
    exact Nat.le_add_right _ _
  starts := isValid_byteLength (h.trans (List.append_assoc _ _ _))
  ends := by
    dsimp only
    rw [← byteLength_append]
    exact isValid_byteLength h
  bytes := extract_toByteArray h

end AnnotatedSql.Text
