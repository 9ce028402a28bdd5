import Mathlib

/-!
# Strings of the C library

A C string is the list of its characters before the terminator, and a pointer into it is the suffix
it points to, so that `strlen` is the length of the list and the difference of two pointers is the
difference of the lengths of their suffixes. The search functions are over any type of characters;
`Bytes` is the type of the strings of a program, with the literals, the character classes and the
decimal conversion that `printf` and `scanf` need.
-/

namespace CLib

section Search

variable {α : Type} [DecidableEq α]

/-- `strchr`: the suffix from the first `c` on. -/
def strchr : List α → α → Option (List α)
  | [], _ => none
  | b :: s, c => if b = c then some (b :: s) else strchr s c

/-- `strrchr`: the suffix from the last `c` on. -/
def strrchr : List α → α → Option (List α)
  | [], _ => none
  | b :: s, c =>
    match strrchr s c with
    | some t => some t
    | none => if b = c then some (b :: s) else none

/-- `strstr`: the suffix from the first occurrence of `pat` on. -/
def strstr : List α → List α → Option (List α)
  | [], pat => if pat = [] then some [] else none
  | b :: s, pat => if pat <+: b :: s then some (b :: s) else strstr s pat

/-- `strncmp(a, b, n) == 0`. -/
def strncmp_eq (a b : List α) (n : ℕ) : Bool := a.take n = b.take n

/-- The tokens that repeated calls of `strtok` return: the non-empty pieces between delimiters. -/
def strtok_tokens (s : List α) (delim : α) : List (List α) :=
  (s.splitOn delim).filter (· ≠ [])

/-- `strchr` at the terminator. -/
theorem strchr_nil (c : α) : strchr [] c = none := rfl

/-- `strchr` at a character. -/
theorem strchr_cons (b : α) (s : List α) (c : α) :
    strchr (b :: s) c = if b = c then some (b :: s) else strchr s c := rfl

/-- `strrchr` at the terminator. -/
theorem strrchr_nil (c : α) : strrchr [] c = none := rfl

/-- `strrchr` prefers what it finds behind a character. -/
theorem strrchr_cons (b : α) (s : List α) (c : α) :
    strrchr (b :: s) c =
      (strrchr s c).or (if b = c then some (b :: s) else none) := by
  show (match strrchr s c with | some t => some t | none => _) = _
  cases strrchr s c <;> rfl

/-- Only the empty pattern stands at the terminator. -/
theorem strstr_nil (pat : List α) : strstr [] pat = if pat = [] then some [] else none := rfl

/-- `strstr` at a character. -/
theorem strstr_cons (b : α) (s pat : List α) :
    strstr (b :: s) pat = if pat <+: b :: s then some (b :: s) else strstr s pat := rfl

/-- `strchr` finds nothing exactly when the character does not occur. -/
theorem strchr_eq_none {s : List α} {c : α} : strchr s c = none ↔ c ∉ s := by
  induction s with
  | nil => simp [strchr_nil]
  | cons b s ih =>
    simp only [strchr_cons, List.mem_cons, not_or]
    split_ifs with h
    · simp [h]
    · simp [ih, Ne.symm h]

/-- The first `c` of a string that is given split there. -/
theorem strchr_append {p : List α} {c : α} (hp : c ∉ p) (r : List α) :
    strchr (p ++ c :: r) c = some (c :: r) := by
  induction p with
  | nil => simp [strchr_cons]
  | cons b p ih =>
    rw [List.mem_cons, not_or] at hp
    simp only [List.cons_append, strchr_cons, Ne.symm hp.1, if_false]
    exact ih hp.2

/-- `strchr` splits the string before its first `c`. -/
theorem strchr_eq_some {s t : List α} {c : α} :
    strchr s c = some t ↔ ∃ p r, s = p ++ t ∧ c ∉ p ∧ t = c :: r := by
  constructor
  · intro h
    induction s with
    | nil => simp [strchr_nil] at h
    | cons b s ih =>
      simp only [strchr_cons] at h
      split_ifs at h with hb
      · -- The first character is the one, and nothing stands before it.
        rw [Option.some.injEq] at h
        exact ⟨[], s, h, List.not_mem_nil, by rw [← h, hb]⟩
      · obtain ⟨p, r, rfl, hp, ht⟩ := ih h
        exact ⟨b :: p, r, rfl, by simp [hp, Ne.symm hb], ht⟩
  · rintro ⟨p, r, rfl, hp, rfl⟩
    exact strchr_append hp r

/-- Skipping to a character is a search that ends at the terminator. -/
theorem dropWhile_eq_strchr (s : List α) (c : α) : s.dropWhile (· ≠ c) = (strchr s c).getD [] := by
  induction s with
  | nil => rfl
  | cons b s ih =>
    by_cases hb : b = c
    · simp [strchr_cons, hb]
    · simpa [strchr_cons, hb] using ih

/-- The suffix that `strchr` finds is not empty and not longer than the string. -/
theorem strchr_length {s t : List α} {c : α} (h : strchr s c = some t) :
    0 < t.length ∧ t.length ≤ s.length := by
  obtain ⟨p, r, rfl, -, rfl⟩ := strchr_eq_some.mp h
  simp

/-- `strrchr` finds nothing exactly when the character does not occur. -/
theorem strrchr_eq_none {s : List α} {c : α} : strrchr s c = none ↔ c ∉ s := by
  induction s with
  | nil => simp [strrchr_nil]
  | cons b s ih =>
    cases hs : strrchr s c with
    | some t =>
      have : c ∈ s := by
        by_contra hc
        simp [ih.mpr hc] at hs
      simp [strrchr_cons, hs, this]
    | none =>
      have := ih.mp hs
      by_cases h : b = c
      · simp [strrchr_cons, hs, h]
      · simp [strrchr_cons, hs, h, this, Ne.symm h]

/-- The last `c` of a string that is given split there. -/
theorem strrchr_append {r : List α} {c : α} (hr : c ∉ r) (p : List α) :
    strrchr (p ++ c :: r) c = some (c :: r) := by
  induction p with
  | nil => simp [strrchr_cons, strrchr_eq_none.mpr hr]
  | cons b p ih => simp [strrchr_cons, ih]

/-- `strrchr` splits the string before its last `c`. -/
theorem strrchr_eq_some {s t : List α} {c : α} :
    strrchr s c = some t ↔ ∃ p r, s = p ++ t ∧ c ∉ r ∧ t = c :: r := by
  constructor
  · intro h
    induction s with
    | nil => simp [strrchr_nil] at h
    | cons b s ih =>
      cases hs : strrchr s c with
      | some t' =>
        simp only [strrchr_cons, hs, Option.some_or, Option.some.injEq] at h
        subst h
        obtain ⟨p, r, rfl, hr, ht⟩ := ih hs
        exact ⟨b :: p, r, by simp, hr, ht⟩
      | none =>
        by_cases hb : b = c
        · simp only [strrchr_cons, hs, hb, if_true, Option.none_or, Option.some.injEq] at h
          exact ⟨[], s, by simp [← h, hb], strrchr_eq_none.mp hs, h.symm⟩
        · simp [strrchr_cons, hs, hb] at h
  · rintro ⟨p, r, rfl, hr, rfl⟩
    exact strrchr_append hr p

/-- `strstr` finds something exactly when the pattern occurs. -/
theorem strstr_isSome {s pat : List α} : (strstr s pat).isSome ↔ pat <:+: s := by
  induction s with
  | nil =>
    simp only [strstr_nil]
    split_ifs with h <;> simp [h]
  | cons b s ih =>
    simp only [strstr_cons]
    split_ifs with h
    · simp [List.infix_cons_iff, h]
    · rw [ih, List.infix_cons_iff]
      simp [h]

/-- A pattern at the start of the string is found there. -/
theorem strstr_of_prefix {s pat : List α} (h : pat <+: s) : strstr s pat = some s := by
  cases s with
  | nil => simp [strstr_nil, List.prefix_nil.mp h]
  | cons b s => simp [strstr_cons, h]

/-- An occurrence is a suffix that begins with the pattern. -/
theorem strstr_split {s t pat : List α} (h : strstr s pat = some t) : t <:+ s ∧ pat <+: t := by
  induction s with
  | nil =>
    simp only [strstr_nil] at h
    split_ifs at h with hpat
    obtain rfl := Option.some.inj h
    exact ⟨List.suffix_rfl, hpat ▸ List.nil_prefix⟩
  | cons b s ih =>
    simp only [strstr_cons] at h
    split_ifs at h with hpre
    · obtain rfl := Option.some.inj h
      exact ⟨List.suffix_rfl, hpre⟩
    · obtain ⟨hsuffix, hpat⟩ := ih h
      exact ⟨hsuffix.trans (List.suffix_cons b s), hpat⟩

/-- An occurrence in the first part of a string is the first of the whole string. -/
theorem strstr_append_of_some {s t pat : List α} (h : strstr s pat = some t) (r : List α) :
    strstr (s ++ r) pat = some (t ++ r) := by
  induction s with
  | nil =>
    simp only [strstr_nil] at h
    split_ifs at h with hpat
    obtain rfl := Option.some.inj h
    rw [List.nil_append]
    exact strstr_of_prefix (hpat ▸ List.nil_prefix)
  | cons b s ih =>
    simp only [strstr_cons] at h
    split_ifs at h with hpre
    · obtain rfl := Option.some.inj h
      exact strstr_of_prefix (hpre.trans (List.prefix_append _ _))
    · -- The pattern fits into `s`, so that it does not begin with `b` either in the longer string.
      have hinfix : pat <:+: s := by
        rw [← strstr_isSome, h]
        rfl
      have hshort : pat.length ≤ (b :: s).length := hinfix.length_le.trans (Nat.le_succ _)
      have hlong : ¬pat <+: (b :: s) ++ r := fun hlong =>
        hpre (List.prefix_of_prefix_length_le hlong (List.prefix_append _ _) hshort)
      rw [List.cons_append] at hlong ⊢
      rw [strstr_cons, if_neg hlong]
      exact ih h

/-- Behind a delimiter that the pattern has not the search starts anew. -/
theorem strstr_append_of_none {s pat : List α} {d : α} (h : strstr (s ++ [d]) pat = none)
    (hd : d ∉ pat) (r : List α) : strstr (s ++ d :: r) pat = strstr r pat := by
  have hshorten (s : List α) (hpre : pat <+: s ++ d :: r) : pat <+: s ++ [d] := by
    rcases List.prefix_or_prefix_of_prefix hpre (List.prefix_append s _) with hpat | hs
    · exact hpat.trans (List.prefix_append _ _)
    · -- A pattern that is longer than `s` has the delimiter.
      obtain ⟨t, rfl⟩ := hs
      rw [List.prefix_append_right_inj] at hpre
      cases t with
      | nil => simp
      | cons c t =>
        obtain rfl : c = d := (List.cons_prefix_cons.mp hpre).1
        exact absurd (by simp) hd
  induction s with
  | nil =>
    simp only [List.nil_append, strstr_cons] at h ⊢
    split_ifs at h with hpre
    have hlong : ¬pat <+: d :: r := fun hlong => hpre (hshorten [] hlong)
    rw [if_neg hlong]
  | cons b s ih =>
    simp only [List.cons_append, strstr_cons] at h ⊢
    split_ifs at h with hpre
    have hlong : ¬pat <+: b :: (s ++ d :: r) := fun hlong => hpre (hshorten (b :: s) hlong)
    rw [if_neg hlong]
    exact ih h

/-- A piece between delimiters has none. -/
theorem notMem_of_mem_splitOn {s t : List α} {c : α} (h : t ∈ s.splitOn c) : c ∉ t := by
  induction s generalizing t with
  | nil => simp_all
  | cons b s ih =>
    rw [List.splitOn_cons_eq_if_modifyHead] at h
    obtain ⟨piece, pieces, hs⟩ := List.exists_cons_of_ne_nil (List.splitOn_ne_nil c s)
    rw [hs] at h ih
    split_ifs at h with hb
    · rcases List.mem_cons.mp h with rfl | h
      · exact List.not_mem_nil
      · exact ih h
    · -- The first piece begins with `b`, which is no delimiter.
      rcases List.mem_cons.mp h with rfl | h
      · have hpiece := ih (List.mem_cons_self ..)
        exact List.not_mem_cons_of_ne_of_not_mem (Ne.symm (by simpa using hb)) hpiece
      · exact ih (List.mem_cons_of_mem _ h)

/-- Two strings around a delimiter give their tokens one after the other. -/
theorem strtok_tokens_append (s t : List α) (delim : α) :
    strtok_tokens (s ++ delim :: t) delim = strtok_tokens s delim ++ strtok_tokens t delim := by
  unfold strtok_tokens
  rw [List.splitOn_append_cons_self, List.filter_append]

/-- Delimiters alone give no token. -/
theorem strtok_tokens_of_delims {s : List α} {delim : α} (h : ∀ c ∈ s, c = delim) :
    strtok_tokens s delim = [] := by
  induction s with
  | nil => simp [strtok_tokens]
  | cons c s ih =>
    obtain ⟨rfl, hs⟩ := List.forall_mem_cons.mp h
    have happend := strtok_tokens_append [] s c
    rw [List.nil_append, ih hs] at happend
    rw [happend]
    simp [strtok_tokens]

/-- Delimiters at the end do not matter. -/
theorem strtok_tokens_append_delims (s : List α) {t : List α} {delim : α}
    (h : ∀ c ∈ t, c = delim) : strtok_tokens (s ++ t) delim = strtok_tokens s delim := by
  cases t with
  | nil => rw [List.append_nil]
  | cons c t =>
    obtain ⟨rfl, ht⟩ := List.forall_mem_cons.mp h
    rw [strtok_tokens_append, strtok_tokens_of_delims ht, List.append_nil]

/-- The tokens hold all characters but the delimiters. -/
theorem flatten_strtok_tokens (s : List α) (delim : α) :
    (strtok_tokens s delim).flatten = s.filter (· ≠ delim) := by
  unfold strtok_tokens
  rw [List.flatten_filter_ne_nil]
  induction s with
  | nil => rfl
  | cons c s ih =>
    rw [List.splitOn_cons_eq_if_modifyHead]
    obtain ⟨piece, pieces, hs⟩ := List.exists_cons_of_ne_nil (List.splitOn_ne_nil delim s)
    rw [hs] at ih ⊢
    -- A delimiter opens a piece of its own, and any other character joins the first piece.
    by_cases hc : c = delim
    · simpa [hc] using ih
    · simpa [hc] using ih

/-- `strncmp` compares the first characters. -/
@[simp] theorem strncmp_eq_iff {a b : List α} {n : ℕ} :
    strncmp_eq a b n = true ↔ a.take n = b.take n := by
  simp [strncmp_eq]

/-- A piece between delimiters is no longer than the string. -/
theorem length_le_of_mem_splitOn {s t : List α} {c : α} (h : t ∈ s.splitOn c) :
    t.length ≤ s.length := by
  induction s generalizing t with
  | nil => simp_all
  | cons b s ih =>
    rw [List.splitOn_cons_eq_if_modifyHead] at h
    split_ifs at h
    · rcases List.mem_cons.mp h with rfl | h
      · simp
      · exact (ih h).trans (by simp)
    · -- The first piece is the longer by `b`, and the others are those of `s`.
      obtain ⟨hd, tl, hs⟩ := List.exists_cons_of_ne_nil (List.splitOn_ne_nil c s)
      rw [hs] at h ih
      rcases List.mem_cons.mp h with rfl | h
      · simpa using ih (List.mem_cons_self ..)
      · exact (ih (List.mem_cons_of_mem _ h)).trans (by simp)

/-- Comparing as many characters as a literal has is testing for a prefix. -/
theorem strncmp_eq_length {a b : List α} : strncmp_eq a b b.length = true ↔ b <+: a := by
  rw [strncmp_eq_iff, List.take_length, List.prefix_iff_eq_take]
  exact eq_comm

end Search

/-! ## Bytes -/

/-- Strings of bytes. -/
abbrev Bytes := List UInt8

/-- The bytes of an ASCII literal. -/
def bytes (s : String) : Bytes := s.toList.map fun c => UInt8.ofNat c.toNat

/-- A character constant. -/
def chr (c : Char) : UInt8 := UInt8.ofNat c.toNat

/-- `isspace` in the C locale: blank, tab, newline, vertical tab, form feed, carriage return. -/
def isspace (c : UInt8) : Bool := c = 0x20 || (0x09 ≤ c && c ≤ 0x0d)

/-- `isdigit`. -/
def isdigit (c : UInt8) : Bool := 0x30 ≤ c && c ≤ 0x39

/-- `isalnum` in the C locale: the ASCII letters and digits. -/
def isalnum (c : UInt8) : Bool :=
  isdigit c || (0x41 ≤ c && c ≤ 0x5a) || (0x61 ≤ c && c ≤ 0x7a)

/-- `isxdigit`. -/
def isxdigit (c : UInt8) : Bool :=
  isdigit c || (0x41 ≤ c && c ≤ 0x46) || (0x61 ≤ c && c ≤ 0x66)

/-- `tolower` in the C locale. -/
def tolower (c : UInt8) : UInt8 := if 0x41 ≤ c && c ≤ 0x5a then c + 0x20 else c

/-- `%d` of a natural number. -/
def dec (n : ℕ) : Bytes := (Nat.toDigits 10 n).map fun c => UInt8.ofNat c.toNat

/-- The C string held by a buffer: what stands before the first NUL. -/
def cstr (buf : Bytes) : Bytes := buf.takeWhile (· ≠ 0)

/-- A terminated string, whatever follows the terminator. -/
theorem cstr_append_zero {s : Bytes} (h : (0 : UInt8) ∉ s) (r : Bytes) :
    cstr (s ++ 0 :: r) = s := by
  have hs : ∀ c ∈ s, decide (c ≠ 0) = true := fun c hc =>
    decide_eq_true (ne_of_mem_of_not_mem hc h)
  rw [cstr, List.takeWhile_append_of_pos hs]
  simp

/-- A buffer without NUL holds all of itself. -/
theorem cstr_of_notMem {s : Bytes} (h : (0 : UInt8) ∉ s) : cstr s = s := by
  rw [cstr, List.takeWhile_eq_self_iff]
  exact fun c hc => decide_eq_true (ne_of_mem_of_not_mem hc h)

/-- A letter or a digit is none of the other characters. -/
theorem ne_of_isalnum {c d : UInt8} (h : isalnum c = true) (hd : isalnum d = false) : c ≠ d := by
  rintro rfl
  rw [h] at hd
  exact absurd hd (by decide)

/-- The decimal digits of a number are digits. -/
theorem isdigit_of_mem_dec {n : ℕ} {c : UInt8} (h : c ∈ dec n) : isdigit c = true := by
  unfold dec at h
  obtain ⟨d, hd, rfl⟩ := List.mem_map.mp h
  have hdig : d.isDigit = true := Nat.isDigit_of_mem_toDigits (by decide) (by decide) hd
  simp only [Char.isDigit, Bool.and_eq_true, decide_eq_true_eq, ge_iff_le,
    UInt32.le_iff_toNat_le] at hdig
  have h0 : ('0' : Char).val.toNat = 48 := rfl
  have h9 : ('9' : Char).val.toNat = 57 := rfl
  have hn : d.toNat = d.val.toNat := rfl
  have hs : UInt8.size = 256 := rfl
  have hv : (UInt8.ofNat d.toNat).toNat = d.toNat := UInt8.toNat_ofNat_of_lt' (by omega)
  -- A digit of Lean is a character from 48 to 57, and so is one of C.
  have h30 : (0x30 : UInt8).toNat = 48 := rfl
  have h39 : (0x39 : UInt8).toNat = 57 := rfl
  simp only [isdigit, Bool.and_eq_true, decide_eq_true_eq, UInt8.le_iff_toNat_le, hv]
  omega

/-- The decimal digits of a number below a power of ten. -/
theorem dec_length_le {n e : ℕ} (he : 0 < e) (h : n < 10 ^ e) : (dec n).length ≤ e := by
  unfold dec
  rw [List.length_map]
  exact (Nat.length_toDigits_le_iff (by decide) he).mpr h

/-- A read of a string at a place: its characters, and its terminator. -/
def char_at (s : Bytes) (i : ℕ) : Option UInt8 := (s ++ [0])[i]?

/-- What stands at a place in front of the terminator, and what follows it. -/
theorem char_at_drop {s rest : Bytes} {c : UInt8} {i : ℕ} (h : s.drop i = c :: rest) :
    char_at s i = some c ∧ s.drop (i + 1) = rest ∧ i + 1 ≤ s.length := by
  have hget : s[i]? = some c := by
    rw [← List.head?_drop, h]
    rfl
  obtain ⟨hi, -⟩ := List.getElem?_eq_some_iff.mp hget
  refine ⟨?_, ?_, hi⟩
  · rw [char_at, List.getElem?_append_left hi, hget]
  · rw [← List.drop_drop, h]
    rfl

/-- Behind the characters there is the terminator. -/
theorem char_at_end {s : Bytes} {i : ℕ} (hi : i ≤ s.length) (h : s.drop i = []) :
    char_at s i = some 0 := by
  obtain rfl : i = s.length := le_antisymm hi (List.drop_eq_nil_iff.mp h)
  rw [char_at, List.getElem?_append_right le_rfl, Nat.sub_self]
  rfl

end CLib
