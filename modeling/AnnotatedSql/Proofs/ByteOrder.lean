import AnnotatedSql.Text
import Mathlib.Data.List.Perm.Basic
/-!
# The order of bytes

Texts that are compared character by character are ordered as their UTF-8 bytes are (`bytes_lt_of_precedes`), because the
encoding of a later character is the greater one and starts no other. Sorting things with different names by these bytes
therefore gives one result, in whatever order the things are given (`mergeSort_eq_of_perm`).
-/

namespace AnnotatedSql.Text

variable {s t u : List Char} {c d : Char}

/-- The bytes of the UTF-8 form of a text. -/
def bytes (s : String) : List UInt8 :=
  s.toUTF8.data.toList

theorem bytes_eq_flatMap (s : String) : bytes s = s.toList.flatMap String.utf8EncodeChar := by
  conv_lhs => rw [← String.ofList_toList (s := s)]
  exact congrArg Array.toList List.data_toByteArray

/-! ## Characters -/

section Digits

variable {m n : Nat} {x y : List UInt8}

/-- The first of two lists of bytes is decided by the numbers that they start with, or behind equal ones. -/
theorem ofNat_cons_lt {a b : Nat} (ha : a < 256) (hb : b < 256) (h : a < b ∨ a = b ∧ x < y) :
    UInt8.ofNat a :: x < UInt8.ofNat b :: y := by
  rw [List.cons_lt_cons_iff]
  rcases h with h | ⟨rfl, h⟩
  · exact .inl ((UInt8.ofNat_lt_iff_lt ha hb).2 h)
  · exact .inr ⟨rfl, h⟩

/-! The bytes behind the first hold six bits of the code point each, the highest ones first. -/

theorem lt_of_low_bits (h : m % 64 < n % 64) :
    UInt8.ofNat (m % 64 + 128) :: x < UInt8.ofNat (n % 64 + 128) :: y :=
  ofNat_cons_lt (by omega) (by omega) (.inl (by omega))

theorem lt_of_middle_bits (h : m % 4096 < n % 4096) :
    UInt8.ofNat (m / 64 % 64 + 128) :: UInt8.ofNat (m % 64 + 128) :: x <
      UInt8.ofNat (n / 64 % 64 + 128) :: UInt8.ofNat (n % 64 + 128) :: y := by
  have hdigits : m / 64 % 64 < n / 64 % 64 ∨ m / 64 % 64 = n / 64 % 64 ∧ m % 64 < n % 64 := by omega
  refine ofNat_cons_lt (by omega) (by omega) ?_
  exact hdigits.imp (fun hlt => by omega) fun ⟨heq, hlow⟩ => ⟨by omega, lt_of_low_bits hlow⟩

theorem lt_of_high_bits (h : m % 262144 < n % 262144) :
    UInt8.ofNat (m / 4096 % 64 + 128) :: UInt8.ofNat (m / 64 % 64 + 128) :: UInt8.ofNat (m % 64 + 128) :: x <
      UInt8.ofNat (n / 4096 % 64 + 128) :: UInt8.ofNat (n / 64 % 64 + 128) :: UInt8.ofNat (n % 64 + 128) :: y := by
  have hdigits : m / 4096 % 64 < n / 4096 % 64 ∨ m / 4096 % 64 = n / 4096 % 64 ∧ m % 4096 < n % 4096 := by omega
  refine ofNat_cons_lt (by omega) (by omega) ?_
  exact hdigits.imp (fun hlt => by omega) fun ⟨heq, hlow⟩ => ⟨by omega, lt_of_middle_bits hlow⟩

end Digits

/-- The encoding of a later character is the greater one, whatever comes behind. -/
theorem utf8EncodeChar_append_lt (h : c.toNat < d.toNat) (x y : List UInt8) :
    String.utf8EncodeChar c ++ x < String.utf8EncodeChar d ++ y := by
  have hmax : d.val.toNat < 1114112 := by
    rcases d.valid with h | h
    · exact Nat.lt_trans h (by decide)
    · exact h.2
  change c.val.toNat < d.val.toNat at h
  unfold String.utf8EncodeChar
  generalize c.val.toNat = m at h ⊢
  generalize d.val.toNat = n at h hmax ⊢
  dsimp only
  -- a longer form has the greater first byte, and of two forms of one length the bits decide
  split
  · split
    · exact ofNat_cons_lt (by omega) (by omega) (.inl h)
    · split
      · exact ofNat_cons_lt (by omega) (by omega) (.inl (by omega))
      · split <;> exact ofNat_cons_lt (by omega) (by omega) (.inl (by omega))
  · rw [if_neg (by omega : ¬ n ≤ 127)]
    split
    · split
      · refine ofNat_cons_lt (by omega) (by omega) ?_
        have hdigits : m / 64 % 32 < n / 64 % 32 ∨ m / 64 % 32 = n / 64 % 32 ∧ m % 64 < n % 64 := by omega
        exact hdigits.imp (fun hlt => by omega) fun ⟨heq, hlow⟩ => ⟨by omega, lt_of_low_bits hlow⟩
      · split <;> exact ofNat_cons_lt (by omega) (by omega) (.inl (by omega))
    · rw [if_neg (by omega : ¬ n ≤ 2047)]
      split
      · split
        · refine ofNat_cons_lt (by omega) (by omega) ?_
          have hdigits : m / 4096 % 16 < n / 4096 % 16 ∨ m / 4096 % 16 = n / 4096 % 16 ∧ m % 4096 < n % 4096 := by omega
          exact hdigits.imp (fun hlt => by omega) fun ⟨heq, hlow⟩ => ⟨by omega, lt_of_middle_bits hlow⟩
        · exact ofNat_cons_lt (by omega) (by omega) (.inl (by omega))
      · rw [if_neg (by omega : ¬ n ≤ 65535)]
        refine ofNat_cons_lt (by omega) (by omega) ?_
        have hdigits : m / 262144 % 8 < n / 262144 % 8 ∨
            m / 262144 % 8 = n / 262144 % 8 ∧ m % 262144 < n % 262144 := by omega
        exact hdigits.imp (fun hlt => by omega) fun ⟨heq, hlow⟩ => ⟨by omega, lt_of_high_bits hlow⟩

theorem utf8EncodeChar_ne_nil (c : Char) : String.utf8EncodeChar c ≠ [] := by
  unfold String.utf8EncodeChar
  dsimp only
  split
  · simp
  · split
    · simp
    · split <;> simp

/-! ## Texts -/

theorem precedes_trans (hst : precedes s t = true) (htu : precedes t u = true) : precedes s u = true := by
  induction s generalizing t u with
  | nil => rfl
  | cons c s ih =>
    cases t with
    | nil => cases hst
    | cons d t =>
      cases u with
      | nil => cases htu
      | cons e u =>
        simp only [precedes, Bool.or_eq_true, decide_eq_true_eq, Bool.and_eq_true, beq_iff_eq] at hst htu ⊢
        rcases hst with hlt | ⟨rfl, hst⟩
        · rcases htu with hlt' | ⟨rfl, -⟩
          · exact .inl (Nat.lt_trans hlt hlt')
          · exact .inl hlt
        · exact htu.imp_right fun ⟨heq, htu⟩ => ⟨heq, ih hst htu⟩

theorem precedes_total (s t : List Char) : precedes s t = true ∨ precedes t s = true := by
  induction s generalizing t with
  | nil => exact .inl rfl
  | cons c s ih =>
    cases t with
    | nil => exact .inr rfl
    | cons d t =>
      simp only [precedes, Bool.or_eq_true, decide_eq_true_eq, Bool.and_eq_true, beq_iff_eq]
      rcases Nat.lt_trichotomy c.toNat d.toNat with hlt | heq | hlt
      · exact .inl (.inl hlt)
      · have hcd : c = d := Char.toNat_inj.1 heq
        exact (ih t).imp (fun h => .inr ⟨hcd, h⟩) fun h => .inr ⟨hcd.symm, h⟩
      · exact .inr (.inl hlt)

theorem flatMap_lt_of_precedes (h : precedes s t = true) (hne : s ≠ t) :
    s.flatMap String.utf8EncodeChar < t.flatMap String.utf8EncodeChar := by
  induction s generalizing t with
  | nil =>
    cases t with
    | nil => exact absurd rfl hne
    | cons d t =>
      obtain ⟨b, bs, hd⟩ := List.exists_cons_of_ne_nil (utf8EncodeChar_ne_nil d)
      rw [List.flatMap_cons, hd]
      exact List.nil_lt_cons _ _
  | cons c s ih =>
    cases t with
    | nil => cases h
    | cons d t =>
      simp only [precedes, Bool.or_eq_true, decide_eq_true_eq, Bool.and_eq_true, beq_iff_eq] at h
      rw [List.flatMap_cons, List.flatMap_cons]
      rcases h with hlt | ⟨rfl, h⟩
      · exact utf8EncodeChar_append_lt hlt _ _
      · exact List.append_left_lt (ih h fun heq => hne (by rw [heq]))

/-- A text in front of another one has the smaller bytes. -/
theorem bytes_lt_of_precedes {a b : String} (h : precedes a.toList b.toList = true) (hne : a ≠ b) : bytes a < bytes b := by
  rw [bytes_eq_flatMap, bytes_eq_flatMap]
  exact flatMap_lt_of_precedes h fun heq => hne (String.toList_inj.1 heq)

/-! ## Sorting -/

section Sorting

variable {α : Type} (key : α → String) {as bs : List α}

theorem pairwise_mergeSort_precedes (as : List α) :
    (as.mergeSort fun a b => precedes (key a).toList (key b).toList).Pairwise fun a b =>
      precedes (key a).toList (key b).toList = true := by
  apply List.pairwise_mergeSort
  · intro a b c hab hbc
    exact precedes_trans hab hbc
  · intro a b
    rw [Bool.or_eq_true]
    exact precedes_total _ _

/-- Things with different names that are sorted by them have them in the strict order of their bytes. -/
theorem pairwise_mergeSort_bytes_lt (h : (as.map key).Nodup) :
    (as.mergeSort fun a b => precedes (key a).toList (key b).toList).Pairwise fun a b =>
      bytes (key a) < bytes (key b) := by
  have hne : (as.mergeSort fun a b => precedes (key a).toList (key b).toList).Pairwise fun a b => key a ≠ key b := by
    refine List.pairwise_map.1 (?_ : (List.map key _).Nodup)
    exact ((List.mergeSort_perm as _).map key).nodup_iff.2 h
  exact (pairwise_mergeSort_precedes key as).imp₂ (fun _ _ => bytes_lt_of_precedes) hne

theorem nodup_map_of_pairwise_bytes_lt (h : as.Pairwise fun a b => bytes (key a) < bytes (key b)) : (as.map key).Nodup := by
  refine List.pairwise_map.2 (h.imp fun hlt heq => ?_)
  rw [heq] at hlt
  exact List.lt_irrefl _ hlt

/-- There is one strict order of some things by the bytes of their names. -/
theorem eq_of_perm_of_pairwise_bytes_lt (h : as.Perm bs) (has : as.Pairwise fun a b => bytes (key a) < bytes (key b))
    (hbs : bs.Pairwise fun a b => bytes (key a) < bytes (key b)) : as = bs :=
  h.eq_of_pairwise (fun _ _ _ _ hab hba => absurd hba (List.lt_asymm hab)) has hbs

/-- Things with different names are sorted by them in one way, in whatever order they are given. -/
theorem mergeSort_eq_of_perm (h : as.Perm bs) (hnames : (as.map key).Nodup) :
    (as.mergeSort fun a b => precedes (key a).toList (key b).toList) =
      bs.mergeSort fun a b => precedes (key a).toList (key b).toList := by
  have hperm := (List.mergeSort_perm as fun a b => precedes (key a).toList (key b).toList).trans
    (h.trans (List.mergeSort_perm bs fun a b => precedes (key a).toList (key b).toList).symm)
  exact eq_of_perm_of_pairwise_bytes_lt key hperm (pairwise_mergeSort_bytes_lt key hnames)
    (pairwise_mergeSort_bytes_lt key ((h.map key).nodup_iff.1 hnames))

end Sorting

end AnnotatedSql.Text
