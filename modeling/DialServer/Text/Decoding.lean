import DialServer.Source.UrlLib

/-!
# URL decoding

`url_decoded` is what a URL-encoded text stands for, when all its escapes are well formed. It does
not know about buffers: `urldecode_eq` says that `urldecode` computes it in a buffer as large as the
text.
-/

namespace DialServer

open CLib

/-! ## The loop -/

/-- One step of the loop of `urldecode`. -/
theorem urldecode_loop_cons (c : UInt8) (src : Bytes) (room : ℕ) :
    urldecode_loop (c :: src) (room + 1) =
      if c = chr '+' then
        (chr ' ' :: (urldecode_loop src room).1, (urldecode_loop src room).2)
      else if c = chr '%' then
        match src with
        | a :: b :: src =>
          match append_char_from_hex a b with
          | some d => (d :: (urldecode_loop src room).1, (urldecode_loop src room).2)
          | none => ([], false)
        | _ => ([], false)
      else (c :: (urldecode_loop src room).1, (urldecode_loop src room).2) := by
  rw [urldecode_loop.eq_def]
  rfl

/-- It writes a blank for a plus sign. -/
theorem urldecode_loop_plus (src : Bytes) (room : ℕ) :
    urldecode_loop (chr '+' :: src) (room + 1) =
      (chr ' ' :: (urldecode_loop src room).1, (urldecode_loop src room).2) := by
  rw [urldecode_loop_cons]
  simp

/-- It writes one character for an escape. -/
theorem urldecode_loop_escape {a b d : UInt8} (hd : append_char_from_hex a b = some d)
    (src : Bytes) (room : ℕ) :
    urldecode_loop (chr '%' :: a :: b :: src) (room + 1) =
      (d :: (urldecode_loop src room).1, (urldecode_loop src room).2) := by
  have hplus : chr '%' ≠ chr '+' := by decide
  rw [urldecode_loop_cons]
  simp [hplus, hd]

/-- It ends at an escape that is malformed. -/
theorem urldecode_loop_malformed {a b : UInt8} (hd : append_char_from_hex a b = none)
    (src : Bytes) (room : ℕ) :
    urldecode_loop (chr '%' :: a :: b :: src) (room + 1) = ([], false) := by
  have hplus : chr '%' ≠ chr '+' := by decide
  rw [urldecode_loop_cons]
  simp [hplus, hd]

/-- It ends at an escape that the source ends in. -/
theorem urldecode_loop_short {src : Bytes} (hshort : ∀ a b src', src ≠ a :: b :: src')
    (room : ℕ) : urldecode_loop (chr '%' :: src) (room + 1) = ([], false) := by
  have hplus : chr '%' ≠ chr '+' := by decide
  rw [urldecode_loop_cons]
  rcases src with _ | ⟨a, _ | ⟨b, src⟩⟩
  · simp [hplus]
  · simp [hplus]
  · exact absurd rfl (hshort a b src)

/-- It writes any other character as it is. -/
theorem urldecode_loop_char {c : UInt8} (hplus : c ≠ chr '+') (hpercent : c ≠ chr '%')
    (src : Bytes) (room : ℕ) :
    urldecode_loop (c :: src) (room + 1) =
      (c :: (urldecode_loop src room).1, (urldecode_loop src room).2) := by
  rw [urldecode_loop_cons]
  simp [hplus, hpercent]

/-! ## The decoded text -/

/-- The text without its escapes; `none` when one of them is malformed. -/
def url_decoded : Bytes → Option Bytes
  | [] => some []
  | c :: src =>
    if c = chr '+' then (url_decoded src).map (chr ' ' :: ·)
    else if c = chr '%' then
      match src with
      | a :: b :: src =>
        match append_char_from_hex a b with
        | some d => (url_decoded src).map (d :: ·)
        | none => none
      | _ => none
    else (url_decoded src).map (c :: ·)

/-- The text behind one character. -/
theorem url_decoded_cons (c : UInt8) (src : Bytes) :
    url_decoded (c :: src) =
      if c = chr '+' then (url_decoded src).map (chr ' ' :: ·)
      else if c = chr '%' then
        match src with
        | a :: b :: src =>
          match append_char_from_hex a b with
          | some d => (url_decoded src).map (d :: ·)
          | none => none
        | _ => none
      else (url_decoded src).map (c :: ·) := by
  rw [url_decoded.eq_def]
  rfl

/-- A plus sign stands for a blank. -/
theorem url_decoded_plus (src : Bytes) :
    url_decoded (chr '+' :: src) = (url_decoded src).map (chr ' ' :: ·) := by
  rw [url_decoded_cons]
  rfl

/-- A percent sign stands for the character that the two digits behind it give. -/
theorem url_decoded_escape (a b : UInt8) (src : Bytes) :
    url_decoded (chr '%' :: a :: b :: src) =
      (append_char_from_hex a b).bind fun d => (url_decoded src).map (d :: ·) := by
  have hplus : chr '%' ≠ chr '+' := by decide
  rw [url_decoded_cons]
  cases h : append_char_from_hex a b with
  | none => simp [hplus, h]
  | some d => simp [hplus, h]

/-- Any other character stands for itself. -/
theorem url_decoded_char {c : UInt8} (hplus : c ≠ chr '+') (hpercent : c ≠ chr '%') (src : Bytes) :
    url_decoded (c :: src) = (url_decoded src).map (c :: ·) := by
  rw [url_decoded_cons]
  simp only [if_neg hplus, if_neg hpercent]

/-- A text that decodes is empty or begins with a blank, an escape, or another character. -/
theorem url_decoded_cases {c : UInt8} {src dst : Bytes} (h : url_decoded (c :: src) = some dst) :
    ∃ d rest src', url_decoded src' = some rest ∧ dst = d :: rest ∧ src'.length ≤ src.length ∧
      ((c = chr '+' ∧ d = chr ' ' ∧ src' = src) ∨
        (c = chr '%' ∧ ∃ a b, src = a :: b :: src' ∧ append_char_from_hex a b = some d) ∨
        (c ≠ chr '+' ∧ c ≠ chr '%' ∧ d = c ∧ src' = src)) := by
  by_cases hplus : c = chr '+'
  · subst hplus
    rw [url_decoded_plus, Option.map_eq_some_iff] at h
    obtain ⟨rest, hrest, rfl⟩ := h
    exact ⟨_, rest, src, hrest, rfl, le_rfl, .inl ⟨rfl, rfl, rfl⟩⟩
  by_cases hpercent : c = chr '%'
  · -- An escape needs two more characters, and those have to be digits.
    subst hpercent
    match src, h with
    | [], h => exact absurd h (by rw [url_decoded_cons]; simp [hplus])
    | [_], h => exact absurd h (by rw [url_decoded_cons]; simp [hplus])
    | a :: b :: src, h =>
      rw [url_decoded_escape, Option.bind_eq_some_iff] at h
      obtain ⟨d, hd, h⟩ := h
      obtain ⟨rest, hrest, rfl⟩ := Option.map_eq_some_iff.mp h
      exact ⟨d, rest, src, hrest, rfl, by simp only [List.length_cons]; omega,
        .inr (.inl ⟨rfl, a, b, rfl, hd⟩)⟩
  · rw [url_decoded_char hplus hpercent, Option.map_eq_some_iff] at h
    obtain ⟨rest, hrest, rfl⟩ := h
    exact ⟨c, rest, src, hrest, rfl, le_rfl, .inr (.inr ⟨hplus, hpercent, rfl, rfl⟩)⟩

/-- The decoded text is not longer, and the loop of `urldecode` writes all of it when it has the
room. The induction is on the length, since an escape takes three characters at once. -/
theorem urldecode_loop_eq {src dst : Bytes} (h : url_decoded src = some dst) :
    dst.length ≤ src.length ∧
      ∀ room, dst.length ≤ room → urldecode_loop src room = (dst, true) := by
  induction hn : src.length using Nat.strong_induction_on generalizing src dst with
  | _ n ih =>
    cases src with
    | nil =>
      obtain rfl : [] = dst := Option.some.inj h
      refine ⟨Nat.zero_le _, fun room _ => ?_⟩
      cases room <;> rfl
    | cons c src =>
      obtain ⟨d, rest, src', hrest, rfl, hlt, hcase⟩ := url_decoded_cases h
      obtain ⟨hlen, hloop⟩ := ih src'.length (by simp at hn; omega) hrest rfl
      refine ⟨by simp at hn ⊢; omega, fun room hroom => ?_⟩
      -- The room is not used up, for one more character is to be written.
      obtain ⟨room, rfl⟩ : ∃ r, room = r + 1 := ⟨room - 1, by simp at hroom; omega⟩
      have hrec := hloop room (by simpa using hroom)
      rcases hcase with ⟨rfl, rfl, rfl⟩ | ⟨rfl, a, b, rfl, hd⟩ | ⟨hplus, hpercent, rfl, rfl⟩
      · rw [urldecode_loop_plus, hrec]
      · rw [urldecode_loop_escape hd, hrec]
      · rw [urldecode_loop_char hplus hpercent, hrec]

/-- `urldecode` in a buffer as large as the text. -/
theorem urldecode_eq {src dst : Bytes} (h : url_decoded src = some dst) :
    urldecode src src.length = (dst, dst.length) := by
  obtain ⟨hlen, hloop⟩ := urldecode_loop_eq h
  unfold urldecode
  rw [hloop _ hlen]
  rfl

/-- Texts one after another decode one after another. -/
theorem url_decoded_append {a x : Bytes} (h : url_decoded a = some x) (b : Bytes) :
    url_decoded (a ++ b) = (url_decoded b).map (x ++ ·) := by
  induction hn : a.length using Nat.strong_induction_on generalizing a x with
  | _ n ih =>
    cases a with
    | nil =>
      obtain rfl : [] = x := Option.some.inj h
      simp
    | cons c a =>
      obtain ⟨d, rest, a', hrest, rfl, hlt, hcase⟩ := url_decoded_cases h
      have hrec := ih a'.length (by simp at hn; omega) hrest rfl
      have hmap : (Option.map (rest ++ ·) (url_decoded b)).map (d :: ·) =
          (url_decoded b).map (d :: rest ++ ·) := by
        rw [Option.map_map]
        rfl
      rcases hcase with ⟨rfl, rfl, rfl⟩ | ⟨rfl, u, v, rfl, hd⟩ | ⟨hplus, hpercent, rfl, rfl⟩
      · rw [List.cons_append, url_decoded_plus, hrec, hmap]
      · rw [List.cons_append, List.cons_append, List.cons_append, url_decoded_escape, hd,
          Option.bind_some, hrec, hmap]
      · rw [List.cons_append, url_decoded_char hplus hpercent, hrec, hmap]

/-- A text without escapes stands for itself. -/
theorem url_decoded_plain {s : Bytes} (h : ∀ c ∈ s, c ≠ chr '+' ∧ c ≠ chr '%') :
    url_decoded s = some s := by
  induction s with
  | nil => rfl
  | cons c s ih =>
    obtain ⟨⟨hplus, hpercent⟩, hs⟩ := List.forall_mem_cons.mp h
    rw [url_decoded_char hplus hpercent, ih hs, Option.map_some]

end DialServer
