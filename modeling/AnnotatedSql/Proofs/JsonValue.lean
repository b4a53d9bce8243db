import AnnotatedSql.Proofs.JsonLiteral
/-!
# Reading printed JSON values

Every value that was read nests at most so deep and has each key of an object once (`Json.wellFormed_of_value`). A
value like that whose numbers are whole is read back from its printed text (`Json.parse_render`).
-/

namespace AnnotatedSql

namespace Json

/-- A value that nests at most some levels deep and has each key of an object once. -/
inductive Value.WellFormed : Nat → Value → Prop
  | null (depth : Nat) : WellFormed depth .null
  | bool (depth : Nat) (b : Bool) : WellFormed depth (.bool b)
  | number (depth : Nat) (n : Number) : WellFormed depth (.number n)
  | string (depth : Nat) (s : String) : WellFormed depth (.string s)
  | array {depth : Nat} {vs : List Value} (elements : ∀ v ∈ vs, WellFormed depth v) : WellFormed (depth + 1) (.array vs)
  | object {depth : Nat} {ms : Entries Value} (names : ms.names.Nodup) (members : ∀ m ∈ ms, WellFormed depth m.2) :
    WellFormed (depth + 1) (.object ms)

/-- A value whose numbers are whole. -/
inductive Value.IsWhole : Value → Prop
  | null : IsWhole .null
  | bool (b : Bool) : IsWhole (.bool b)
  | number {n : Number} (whole : n.IsWhole) : IsWhole (.number n)
  | string (s : String) : IsWhole (.string s)
  | array {vs : List Value} (elements : ∀ v ∈ vs, IsWhole v) : IsWhole (.array vs)
  | object {ms : Entries Value} (members : ∀ m ∈ ms, IsWhole m.2) : IsWhole (.object ms)

variable {α : Type} {text rest middle : List Char} {depth : Nat}

/-! ## Written items -/

/-- No character stands here that could go on with a number. -/
theorem stops_cons {c : Char} (hdigit : c.isDigit = false) (hmark : c ∉ ['.', 'e', 'E']) (text : List Char) :
    Stops (c :: text) := by
  rintro d hd
  cases hd
  exact ⟨hdigit, hmark⟩

theorem isBlank_of_mem_newLine (depth : Nat) : ∀ c ∈ newLine depth, isBlank c = true := by
  intro c hc
  rcases List.mem_cons.1 hc with rfl | hc
  · decide
  · rw [List.eq_of_mem_replicate hc]
    decide

/-- A text from which a reader takes a value, if nothing that could go on with a number stands behind it. It starts
with neither a blank nor a closing bracket. -/
structure Written (read : Reader α) (text : List Char) (value : α) : Prop where
  head : ∃ c, text.head? = some c ∧ isBlank c = false ∧ c ∉ [']', '}']
  reads : ∀ rest, Stops rest → Reads read (text ++ rest) value rest

theorem Written.reads_behind {read : Reader α} {value : α} (h : Written read text value) {blanks : List Char}
    (hblanks : ∀ c ∈ blanks, isBlank c = true) (hrest : Stops rest) :
    Reads (behindBlanks read) (blanks ++ text ++ rest) value rest := by
  obtain ⟨c, hhead, hc, -⟩ := h.head
  rw [List.append_assoc]
  refine reads_behindBlanks hblanks ?_ (h.reads rest hrest)
  rw [List.head?_append, hhead]
  rintro d hd
  cases hd
  exact hc

/-! ## Lists of items -/

section Items

variable {item : Reader α} {close : Char} {first : Bool} {a : α} {as : List α}

theorem reads_items_close (h : skipBlanks text = close :: rest) : Reads (items item close first) text [] rest := by
  unfold Reads
  rw [items]
  split
  · rename_i hnil
    rw [h] at hnil
    cases hnil
  · rename_i c behind hcons
    rw [h, List.cons.injEq] at hcons
    obtain ⟨rfl, rfl⟩ := hcons
    rw [if_pos rfl]
    exact ⟨_, rfl, rfl, rfl⟩

theorem reads_items_first {c : Char} {behind : List Char} (htext : skipBlanks text = c :: behind) (hc : c ≠ close)
    (hitem : Reads (behindBlanks item) text a middle) (hitems : Reads (items item close false) middle as rest) :
    Reads (items item close true) text (a :: as) rest := by
  obtain ⟨front, hfront, rfl, rfl⟩ := hitem
  obtain ⟨more, hmore, rfl, rfl⟩ := hitems
  unfold Reads
  rw [items]
  split
  · rename_i hnil
    rw [htext] at hnil
    cases hnil
  · rename_i d behind' hcons
    rw [htext, List.cons.injEq] at hcons
    obtain ⟨rfl, rfl⟩ := hcons
    rw [if_neg hc]
    simp only [if_true, hfront, hmore]
    exact ⟨_, rfl, rfl, rfl⟩

theorem reads_items_comma (hclose : close ≠ ',') (hitem : Reads (behindBlanks item) text a middle)
    (hitems : Reads (items item close false) middle as rest) :
    Reads (items item close false) (',' :: text) (a :: as) rest := by
  obtain ⟨front, hfront, rfl, rfl⟩ := hitem
  obtain ⟨more, hmore, rfl, rfl⟩ := hitems
  have hcomma : skipBlanks (',' :: text) = ',' :: text := by
    simp [skipBlanks, isBlank]
  unfold Reads
  rw [items]
  split
  · rename_i hnil
    rw [hcomma] at hnil
    cases hnil
  · rename_i d behind hcons
    have hboth := hcons
    rw [hcomma, List.cons.injEq] at hboth
    obtain ⟨rfl, rfl⟩ := hboth
    rw [if_neg (Ne.symm hclose)]
    simp only [Bool.false_eq_true, if_false, if_true, hfront, Except.map]
    simp only [Front.widen, hmore]
    exact ⟨_, rfl, rfl, rfl⟩

/-- The lines of all items but the first, each with a comma in front, and the closing bracket behind them. -/
def furtherLines (written : α → List Char) (close : Char) (depth : Nat) (as : List α) : List Char :=
  as.flatMap (fun a => ',' :: (newLine (depth + 1) ++ written a)) ++ newLine depth ++ [close]

theorem stops_furtherLines (written : α → List Char) (close : Char) (depth : Nat) (as : List α) (rest : List Char) :
    Stops (furtherLines written close depth as ++ rest) := by
  cases as with
  | nil => exact stops_cons (by decide) (by decide) _
  | cons a as => exact stops_cons (by decide) (by decide) _

variable {written : α → List Char}

theorem reads_furtherLines (hclose : close ∈ [']', '}']) (h : ∀ a ∈ as, Written item (written a) a) (depth : Nat)
    (rest : List Char) : Reads (items item close false) (furtherLines written close depth as ++ rest) as rest := by
  have hboth : close ≠ ',' ∧ isBlank close = false := by
    rcases List.mem_cons.1 hclose with rfl | hclose
    · decide
    · rw [List.mem_singleton.1 hclose]
      decide
  induction as with
  | nil =>
    have hend : furtherLines written close depth [] ++ rest = newLine depth ++ close :: rest := by
      simp [furtherLines]
    rw [hend]
    exact reads_items_close (Text.dropWhile_append_stop (isBlank_of_mem_newLine depth) (Text.stop_cons hboth.2))
  | cons a as ih =>
    rw [List.forall_mem_cons] at h
    have hlines : furtherLines written close depth (a :: as) ++ rest =
        ',' :: (newLine (depth + 1) ++ written a ++ (furtherLines written close depth as ++ rest)) := by
      simp [furtherLines]
    rw [hlines]
    exact reads_items_comma hboth.1
      (h.1.reads_behind (isBlank_of_mem_newLine (depth + 1)) (stops_furtherLines written close depth as rest)) (ih h.2)

/-- Items are read back from lines of their own. -/
theorem reads_items (hclose : close ∈ [']', '}']) (h : ∀ b ∈ a :: as, Written item (written b) b) (depth : Nat)
    (rest : List Char) :
    Reads (items item close true) (newLine (depth + 1) ++ written a ++ (furtherLines written close depth as ++ rest))
      (a :: as) rest := by
  rw [List.forall_mem_cons] at h
  obtain ⟨c, hhead, hblank, hc⟩ := h.1.head
  obtain ⟨tail, htail⟩ := List.head?_eq_some_iff.1 hhead
  have hskip : skipBlanks (newLine (depth + 1) ++ written a ++ (furtherLines written close depth as ++ rest)) =
      c :: (tail ++ (furtherLines written close depth as ++ rest)) := by
    rw [htail, List.append_assoc, List.cons_append]
    exact Text.dropWhile_append_stop (isBlank_of_mem_newLine (depth + 1)) (Text.stop_cons hblank)
  have hne : c ≠ close := by
    rintro rfl
    exact hc hclose
  exact reads_items_first hskip hne
    (h.1.reads_behind (isBlank_of_mem_newLine (depth + 1)) (stops_furtherLines written close depth as rest))
    (reads_furtherLines hclose h.2 depth rest)

end Items

/-! ## Values -/

/-- The reader for what is inside a value that nests at most so deep. -/
def nestedReader : Nat → Option (Reader Value)
  | 0 => none
  | depth + 1 => some (value depth)

theorem value_eq (depth : Nat) : value depth = behindBlanks (valueHere (nestedReader depth)) := by
  cases depth <;> rfl

theorem written_of_valueHere {v : Value} (hhead : ∃ c, text.head? = some c ∧ isBlank c = false ∧ c ∉ [']', '}'])
    (h : ∀ rest, Stops rest → Reads (valueHere (nestedReader depth)) (text ++ rest) v rest) :
    Written (value depth) text v := by
  refine ⟨hhead, fun rest hrest => ?_⟩
  obtain ⟨c, hc, hblank, -⟩ := hhead
  rw [value_eq]
  refine reads_behindBlanks_of_head (fun d hd => ?_) (h rest hrest)
  rw [List.head?_append, hc] at hd
  cases hd
  exact hblank

theorem reads_word {letters : List Char} (hne : letters ≠ []) (v : Value) (rest : List Char) :
    Reads (word letters v) (letters ++ rest) v rest := by
  have hshorter : rest.length < (letters ++ rest).length := by
    rw [List.length_append]
    have := List.length_pos_iff.2 hne
    omega
  refine ⟨⟨v, rest, hshorter⟩, ?_, rfl, rfl⟩
  unfold word
  rw [Text.after?_eq_some_iff.2 rfl]
  exact dif_pos hshorter

theorem written_null (depth : Nat) : Written (value depth) ['n', 'u', 'l', 'l'] .null :=
  written_of_valueHere ⟨'n', by decide⟩ fun rest _ => reads_word (by decide) .null rest

theorem written_true (depth : Nat) : Written (value depth) ['t', 'r', 'u', 'e'] (.bool true) :=
  written_of_valueHere ⟨'t', by decide⟩ fun rest _ => reads_word (by decide) (.bool true) rest

theorem written_false (depth : Nat) : Written (value depth) ['f', 'a', 'l', 's', 'e'] (.bool false) :=
  written_of_valueHere ⟨'f', by decide⟩ fun rest _ => reads_word (by decide) (.bool false) rest

theorem written_string (depth : Nat) (s : String) : Written (value depth) (quoted s.toList) (.string s) := by
  refine written_of_valueHere ⟨'"', rfl, by decide⟩ fun rest _ => ?_
  have hliteral := reads_stringLiteral s rest
  obtain ⟨behind, hbehind⟩ : ∃ behind, quoted s.toList ++ rest = '"' :: behind := ⟨_, rfl⟩
  rw [hbehind] at hliteral ⊢
  obtain ⟨a, hread, hvalue, hrest⟩ := hliteral
  refine ⟨a.map .string, ?_, congrArg Value.string hvalue, hrest⟩
  unfold valueHere
  simp [hread, Except.map]

theorem head?_text {n : Number} (h : n.IsWhole) : ∃ c, n.text.head? = some c ∧ (c = '-' ∨ c.isDigit = true) := by
  cases h with
  | @integer n _ _ =>
    cases n with
    | ofNat n =>
      have hhead := List.head?_eq_some_head (Nat.toDigits_ne_nil (n := n) (b := 10))
      rw [text_ofNat]
      exact ⟨_, hhead, .inr (Text.isDigit_of_mem_toDigits (List.head_mem _))⟩
    | negSucc n =>
      rw [text_negSucc]
      exact ⟨'-', rfl, .inl rfl⟩
  | negativeZero => exact ⟨'-', rfl, .inl rfl⟩

theorem isBlank_of_isDigit {c : Char} (h : c.isDigit = true) : isBlank c = false := by
  have hcode := Text.isDigit_iff.1 h
  simp only [isBlank, Bool.or_eq_false_iff, beq_eq_false_iff_ne]
  refine ⟨⟨⟨?_, ?_⟩, ?_⟩, ?_⟩ <;> rintro rfl <;> exact absurd hcode (by decide)

theorem written_number (depth : Nat) {n : Number} (h : n.IsWhole) : Written (value depth) n.text (.number n) := by
  obtain ⟨c, hhead, hc⟩ := head?_text h
  have hplain : c ≠ '"' ∧ isBlank c = false ∧ c ∉ [']', '}'] := by
    rcases hc with rfl | hc
    · decide
    · refine ⟨?_, isBlank_of_isDigit hc, ?_⟩
      · rintro rfl
        exact absurd hc (by decide)
      · intro hmem
        rcases List.mem_cons.1 hmem with rfl | hmem
        · exact absurd hc (by decide)
        · rw [List.mem_singleton.1 hmem] at hc
          exact absurd hc (by decide)
  refine written_of_valueHere ⟨c, hhead, hplain.2⟩ fun rest hrest => ?_
  have hliteral := reads_numberLiteral h hrest
  obtain ⟨tail, htail⟩ := List.head?_eq_some_iff.1 hhead
  rw [htail, List.cons_append] at hliteral ⊢
  obtain ⟨a, hread, hvalue, hends⟩ := hliteral
  refine ⟨a.map .number, ?_, congrArg Value.number hvalue, hends⟩
  unfold valueHere
  simp [hread, hplain.1, hc, Except.map]

theorem printElements_eq (indent : Nat) (vs : List Value) :
    printElements indent vs = vs.flatMap fun v => ',' :: (newLine indent ++ v.print indent) := by
  induction vs with
  | nil => rw [printElements, List.flatMap_nil]
  | cons v vs ih =>
    rw [printElements, List.flatMap_cons, ih]
    simp

theorem printMembers_eq (indent : Nat) (ms : Entries Value) :
    printMembers indent ms =
      ms.flatMap fun m => ',' :: (newLine indent ++ (quoted m.1.toList ++ [':', ' '] ++ m.2.print indent)) := by
  induction ms with
  | nil => rw [printMembers, List.flatMap_nil]
  | cons m ms ih =>
    obtain ⟨k, v⟩ := m
    rw [printMembers, List.flatMap_cons, ih]
    simp

theorem reads_valueHere_array {vs : List Value} (h : Reads (items (value depth) ']' true) text vs rest) :
    Reads (valueHere (nestedReader (depth + 1))) ('[' :: text) (.array vs) rest := by
  obtain ⟨a, hread, rfl, rfl⟩ := h
  refine ⟨(a.map Value.array).after '[', ?_, rfl, rfl⟩
  unfold valueHere nestedReader
  simp [hread, Except.map]

theorem reads_valueHere_object {ms : Entries Value} (h : Reads (items (member (value depth)) '}' true) text ms rest) :
    Reads (valueHere (nestedReader (depth + 1))) ('{' :: text) (ofMembers ms) rest := by
  obtain ⟨a, hread, rfl, rfl⟩ := h
  refine ⟨(a.map ofMembers).after '{', ?_, rfl, rfl⟩
  unfold valueHere nestedReader
  simp [hread, Except.map]

theorem written_array {vs : List Value} {indent : Nat}
    (h : ∀ v ∈ vs, Written (value depth) (v.print (indent + 1)) v) :
    Written (value (depth + 1)) ((Value.array vs).print indent) (.array vs) := by
  cases vs with
  | nil =>
    rw [Value.print]
    refine written_of_valueHere ⟨'[', rfl, by decide⟩ fun rest _ => reads_valueHere_array (reads_items_close ?_)
    simp [skipBlanks, isBlank]
  | cons v vs =>
    have hprint : (Value.array (v :: vs)).print indent =
        '[' :: (newLine (indent + 1) ++ v.print (indent + 1) ++ furtherLines (·.print (indent + 1)) ']' indent vs) := by
      rw [Value.print, printElements_eq]
      simp [furtherLines]
    rw [hprint]
    refine written_of_valueHere ⟨'[', rfl, by decide⟩ fun rest _ => ?_
    rw [List.cons_append, List.append_assoc]
    exact reads_valueHere_array (reads_items (by decide) h indent rest)

theorem written_member {k : String} {v : Value} (h : Written (value depth) text v) :
    Written (member (value depth)) (quoted k.toList ++ [':', ' '] ++ text) (k, v) := by
  refine ⟨⟨'"', rfl, by decide⟩, fun rest hrest => ?_⟩
  have hvalue : Reads (value depth) (' ' :: (text ++ rest)) v rest := by
    have hread := h.reads rest hrest
    rw [value_eq, reads_behindBlanks_iff] at hread ⊢
    exact hread
  have hcolon : Reads (behindBlanks (char ':')) (':' :: ' ' :: (text ++ rest)) () (' ' :: (text ++ rest)) :=
    reads_behindBlanks_of_head (Text.stop_cons (by decide)) (reads_char ':' _)
  have htext : quoted k.toList ++ [':', ' '] ++ text ++ rest = quoted k.toList ++ ':' :: ' ' :: (text ++ rest) := by
    simp
  obtain ⟨key, hkey, hk, hkeyrest⟩ := reads_stringLiteral k (':' :: ' ' :: (text ++ rest))
  rw [← hkeyrest] at hcolon
  obtain ⟨colon, hcolon, -, hcolonrest⟩ := hcolon
  rw [← hcolonrest] at hvalue
  obtain ⟨a, ha, hv, hends⟩ := hvalue
  rw [htext]
  unfold Reads member
  rw [hkey]
  simp only [bind, Except.bind, hcolon, ha]
  exact ⟨_, rfl, Prod.ext hk hv, hends⟩

theorem ofMembers_eq_foldl (ms : Entries Value) :
    ofMembers ms = .object (ms.foldl (fun es m => Entries.put es m.1 m.2) []) := rfl

/-- Members with different keys stay as they are. -/
theorem ofMembers_eq {ms : Entries Value} (h : ms.names.Nodup) : ofMembers ms = .object ms := by
  have hfold : ∀ front : Entries Value, (front ++ ms).names.Nodup →
      ms.foldl (fun es m => Entries.put es m.1 m.2) front = front ++ ms := by
    clear h
    induction ms with
    | nil => simp
    | cons m ms ih =>
      obtain ⟨k, v⟩ := m
      intro front hfront
      have hnew : k ∉ front.names := by
        intro hmem
        rw [Entries.names, List.map_append, List.nodup_append] at hfront
        exact hfront.2.2 _ hmem _ List.mem_cons_self rfl
      rw [← List.singleton_append, ← List.append_assoc] at hfront ⊢
      rw [List.foldl_append]
      dsimp only [List.foldl_cons, List.foldl_nil]
      rw [Entries.put_of_not_mem v hnew]
      exact ih _ hfront
  rw [ofMembers_eq_foldl, hfold [] h, List.nil_append]

theorem written_object {ms : Entries Value} {indent : Nat} (hnames : ms.names.Nodup)
    (h : ∀ m ∈ ms, Written (value depth) (m.2.print (indent + 1)) m.2) :
    Written (value (depth + 1)) ((Value.object ms).print indent) (.object ms) := by
  rw [← ofMembers_eq hnames]
  have hmembers : ∀ m ∈ ms, Written (member (value depth))
      (quoted m.1.toList ++ [':', ' '] ++ m.2.print (indent + 1)) m := fun m hm => written_member (h m hm)
  cases ms with
  | nil =>
    refine written_of_valueHere ⟨'{', rfl, by decide⟩ fun rest _ => reads_valueHere_object (reads_items_close ?_)
    simp [skipBlanks, isBlank]
  | cons m ms =>
    have hprint : (Value.object (m :: ms)).print indent =
        '{' :: (newLine (indent + 1) ++ (quoted m.1.toList ++ [':', ' '] ++ m.2.print (indent + 1)) ++
          furtherLines (fun m => quoted m.1.toList ++ [':', ' '] ++ m.2.print (indent + 1)) '}' indent ms) := by
      rw [Value.print, printMembers_eq]
      simp [furtherLines]
    rw [ofMembers_eq hnames, hprint, ← ofMembers_eq hnames]
    refine written_of_valueHere ⟨'{', rfl, by decide⟩ fun rest _ => ?_
    rw [List.cons_append, List.append_assoc]
    exact reads_valueHere_object (reads_items (by decide) hmembers indent rest)

/-- A value is read back from what is printed for it. -/
theorem written_value {v : Value} (h : v.WellFormed depth) (hwhole : v.IsWhole) (indent : Nat) :
    Written (value depth) (v.print indent) v := by
  induction h generalizing indent with
  | null depth =>
    rw [Value.print]
    exact written_null depth
  | bool depth b =>
    cases b with
    | true =>
      rw [Value.print]
      exact written_true depth
    | false =>
      rw [Value.print]
      exact written_false depth
  | number depth n =>
    cases hwhole with
    | number hn =>
      rw [Value.print]
      exact written_number depth hn
  | string depth s =>
    rw [Value.print]
    exact written_string depth s
  | array _ ih =>
    cases hwhole with
    | array helements => exact written_array fun v hv => ih v hv (helements v hv) (indent + 1)
  | object hnames _ ih =>
    cases hwhole with
    | object hmembers => exact written_object hnames fun m hm => ih m hm (hmembers m hm) (indent + 1)

/-- A value is read back from its text. -/
theorem parse_render {v : Value} (h : v.WellFormed maxDepth) (hwhole : v.IsWhole) : Value.parse v.render = .ok v := by
  have hread := (written_value h hwhole 0).reads [] (by rintro c hc; cases hc)
  have htext : v.print 0 ++ [] = v.render.toList := by
    rw [List.append_nil]
    exact String.toList_ofList.symm
  rw [htext] at hread
  obtain ⟨a, hread, hvalue, hrest⟩ := hread
  unfold Value.parse
  rw [hread]
  simp [hvalue, hrest, skipBlanks]

/-! ## What is read -/

theorem forall_of_behindBlanks {P : α → Prop} {read : Reader α} (hread : ∀ text a, read text = .ok a → P a.value)
    {a : Front α text} (h : behindBlanks read text = .ok a) : P a.value := by
  obtain ⟨b, hb, hvalue, -⟩ := reads_behindBlanks_iff.1 ⟨a, h, rfl, rfl⟩
  rw [← hvalue]
  exact hread _ b hb

theorem forall_of_items {P : α → Prop} {item : Reader α} {close : Char}
    (hitem : ∀ text a, item text = .ok a → P a.value) {first : Bool} {a : Front (List α) text}
    (h : items item close first text = .ok a) : ∀ x ∈ a.value, P x := by
  induction hlength : text.length using Nat.strong_induction_on generalizing text first with
  | _ n ih =>
    rw [items] at h
    split at h
    · cases h
    · rename_i c rest hcons
      split at h
      · cases h
        simp
      · dsimp only at h
        split at h
        · cases h
        · rename_i front hfront
          have hvalue : P front.value := by
            split at hfront
            · exact forall_of_behindBlanks hitem hfront
            · split at hfront
              · cases hread : behindBlanks item rest with
                | error fault =>
                  rw [hread] at hfront
                  cases hfront
                | ok b =>
                  rw [hread] at hfront
                  cases hfront
                  exact (forall_of_behindBlanks hitem hread :)
              · cases hfront
          cases hmore : items item close false front.rest with
          | error fault =>
            rw [hmore] at h
            cases h
          | ok more =>
            rw [hmore] at h
            cases h
            intro x hx
            rcases List.mem_cons.1 hx with rfl | hx
            · exact hvalue
            · exact ih _ (hlength ▸ front.shorter) hmore rfl x hx

theorem wellFormed_ofMembers {ms : Entries Value} (h : ∀ m ∈ ms, m.2.WellFormed depth) :
    (ofMembers ms).WellFormed (depth + 1) := by
  have hfold : ∀ front : Entries Value, front.names.Nodup → (∀ m ∈ front, m.2.WellFormed depth) →
      (Value.object (ms.foldl (fun es m => Entries.put es m.1 m.2) front)).WellFormed (depth + 1) := by
    induction ms with
    | nil => exact fun front hnames hmembers => .object hnames hmembers
    | cons m ms ih =>
      intro front hnames hmembers
      rw [List.forall_mem_cons] at h
      exact ih h.2 (front.put m.1 m.2) (Entries.nodup_names_put hnames m.1 m.2) (Entries.forall_mem_put hmembers h.1)
  exact hfold [] List.nodup_nil (by simp)

theorem value_of_word {letters : List Char} {v : Value} {a : Front Value text} (h : word letters v text = .ok a) :
    a.value = v := by
  unfold word at h
  split at h
  · split at h
    · cases h
      rfl
    · cases h
  · cases h

theorem exists_of_map {β γ : Type} {f : β → γ} {e : Except Fault β} {b : γ} (h : e.map f = .ok b) :
    ∃ a, e = .ok a ∧ f a = b := by
  cases e with
  | error fault => cases h
  | ok a => exact ⟨a, rfl, by cases h; rfl⟩

theorem exists_of_bind {β γ : Type} {e : Except Fault β} {f : β → Except Fault γ} {b : γ} (h : e >>= f = .ok b) :
    ∃ a, e = .ok a ∧ f a = .ok b := by
  cases e with
  | error fault => cases h
  | ok a => exact ⟨a, rfl, h⟩

theorem exists_value_of_member {read : Reader Value} {m : Front (String × Value) text} (h : member read text = .ok m) :
    ∃ behind v, read behind = .ok v ∧ v.value = m.value.2 := by
  unfold member at h
  obtain ⟨key, -, h⟩ := exists_of_bind h
  obtain ⟨colon, -, h⟩ := exists_of_bind h
  obtain ⟨v, hv, h⟩ := exists_of_bind h
  cases h
  exact ⟨colon.rest, v, hv, rfl⟩

theorem wellFormed_of_valueHere (depth : Nat)
    (hnested : ∀ d, depth = d + 1 → ∀ text a, value d text = .ok a → a.value.WellFormed d)
    (text : List Char) (a : Front Value text) (h : valueHere (nestedReader depth) text = .ok a) :
    a.value.WellFormed depth := by
  unfold valueHere at h
  split at h
  · cases h
  · split_ifs at h with hstring hnumber hnull htrue hfalse harray hobject
    · obtain ⟨s, -, rfl⟩ := exists_of_map h
      exact .string depth s.value
    · obtain ⟨n, -, rfl⟩ := exists_of_map h
      exact .number depth n.value
    · rw [value_of_word h]
      exact .null depth
    · rw [value_of_word h]
      exact .bool depth true
    · rw [value_of_word h]
      exact .bool depth false
    · cases depth with
      | zero => cases h
      | succ d =>
        obtain ⟨vs, hvs, rfl⟩ := exists_of_map h
        exact .array (forall_of_items (hnested d rfl) hvs)
    · cases depth with
      | zero => cases h
      | succ d =>
        obtain ⟨ms, hms, rfl⟩ := exists_of_map h
        refine wellFormed_ofMembers (forall_of_items (P := fun m => m.2.WellFormed d) (fun text m hm => ?_) hms)
        obtain ⟨behind, v, hv, hvalue⟩ := exists_value_of_member hm
        rw [← hvalue]
        exact hnested d rfl behind v hv
    · cases depth <;> cases h

/-- What is read nests no deeper than the reader goes, and has each key of an object once. -/
theorem wellFormed_of_value (depth : Nat) (text : List Char) (a : Front Value text) (h : value depth text = .ok a) :
    a.value.WellFormed depth := by
  induction depth generalizing text with
  | zero =>
    rw [value_eq] at h
    exact forall_of_behindBlanks (wellFormed_of_valueHere 0 (by simp)) h
  | succ d ih =>
    rw [value_eq] at h
    refine forall_of_behindBlanks (wellFormed_of_valueHere (d + 1) fun d' hd => ?_) h
    cases hd
    exact ih

theorem wellFormed_of_parse {s : String} {v : Value} (h : Value.parse s = .ok v) : v.WellFormed maxDepth := by
  unfold Value.parse at h
  split at h
  · cases h
  · rename_i a hread
    split at h
    · cases h
      exact wellFormed_of_value maxDepth _ a hread
    · cases h

end Json
end AnnotatedSql
