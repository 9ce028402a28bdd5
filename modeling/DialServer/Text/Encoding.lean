import DialServer.Text.Decoding

/-!
# URL encoding

What `url_encode` writes stands for the text it was given, as `url_decoded` reads it, and has
nothing in it at which a query is split. Each character becomes one or three, so that `urldecode`
with room for the text gives it back.
-/

set_option maxRecDepth 8000

namespace DialServer

open CLib Program

/-- The text that `url_encode` writes. -/
def url_encoded (str : Bytes) : Bytes := str.flatMap url_encode_char

/-- The two digits of an escape give the character back. -/
theorem append_char_from_hex_to_hex : ∀ c : UInt8,
    append_char_from_hex (to_hex (c >>> 4)) (to_hex (c &&& 15)) = some c := by
  decide

/-- The code shifts a signed character, which makes no difference to the digit. -/
theorem to_hex_signed_shift : ∀ c : UInt8,
    to_hex (Int8.toUInt8 (c.toInt8 >>> 4)) = to_hex (c >>> 4) := by
  decide

/-- A digit of an escape is a letter or a digit. -/
theorem isalnum_to_hex (c : UInt8) : isalnum (to_hex c) = true := by
  have hall : ∀ d ∈ bytes "0123456789abcdef", isalnum d = true :=
    List.all_eq_true.mp (by decide)
  have hlength : (bytes "0123456789abcdef").length = 16 := rfl
  have hindex : (c &&& 15).toNat < (bytes "0123456789abcdef").length := by
    have hle : c.toNat &&& 15 ≤ 15 := Nat.and_le_right
    have hand : (c &&& 15).toNat = c.toNat &&& 15 := UInt8.toNat_and c 15
    omega
  unfold to_hex
  rw [List.getD_eq_getElem _ _ hindex]
  exact hall _ (List.getElem_mem hindex)

/-- What a character is written as: itself, when it is none of those that stand for something else,
a plus sign for a blank, or an escape. -/
theorem url_encode_char_cases (c : UInt8) :
    (url_encode_char c = [c] ∧ c ≠ chr '+' ∧ c ≠ chr '%' ∧ c ≠ chr '&') ∨
      (c = chr ' ' ∧ url_encode_char c = [chr '+']) ∨
      url_encode_char c = [chr '%', to_hex (c >>> 4), to_hex (c &&& 15)] := by
  have hplain (h : isalnum c ∨ c = chr '-' ∨ c = chr '_' ∨ c = chr '.' ∨ c = chr '~') :
      c ≠ chr '+' ∧ c ≠ chr '%' ∧ c ≠ chr '&' := by
    rcases h with h | rfl | rfl | rfl | rfl
    · exact ⟨ne_of_isalnum h (by decide), ne_of_isalnum h (by decide), ne_of_isalnum h (by decide)⟩
    all_goals decide
  unfold url_encode_char
  split_ifs with h hblank
  · exact .inl ⟨rfl, hplain h⟩
  · exact .inr (.inl ⟨hblank, rfl⟩)
  · exact .inr (.inr rfl)

/-- What a character is written as decodes to it. -/
theorem url_decoded_encode_char (c : UInt8) : url_decoded (url_encode_char c) = some [c] := by
  rcases url_encode_char_cases c with ⟨h, hplus, hpercent, -⟩ | ⟨rfl, h⟩ | h
  · rw [h]
    exact url_decoded_plain (by simpa using ⟨hplus, hpercent⟩)
  · rw [h, url_decoded_plus]
    rfl
  · rw [h, url_decoded_escape, append_char_from_hex_to_hex]
    rfl

/-- So does the whole text. -/
theorem url_decoded_encoded (str : Bytes) : url_decoded (url_encoded str) = some str := by
  induction str with
  | nil => rfl
  | cons c str ih =>
    have hcons : url_encoded (c :: str) = url_encode_char c ++ url_encoded str := rfl
    rw [hcons, url_decoded_append (url_decoded_encode_char c), ih]
    rfl

/-- The encoded text is at most three times as long. -/
theorem url_encoded_length (str : Bytes) : (url_encoded str).length ≤ 3 * str.length := by
  induction str with
  | nil => simp [url_encoded]
  | cons c str ih =>
    have hchar : (url_encode_char c).length ≤ 3 := by
      rcases url_encode_char_cases c with ⟨h, -⟩ | ⟨-, h⟩ | h <;> simp [h]
    have hcons : url_encoded (c :: str) = url_encode_char c ++ url_encoded str := rfl
    rw [hcons, List.length_append, List.length_cons]
    omega

/-- The characters that an encoded text is made of. -/
def is_url_char (c : UInt8) : Prop := isalnum c = true ∨ c ∈ bytes "-_.~+%"

/-- Only these are written. -/
theorem is_url_char_of_mem (str : Bytes) : ∀ c ∈ url_encoded str, is_url_char c := by
  intro c hc
  obtain ⟨d, -, hd⟩ := List.mem_flatMap.mp hc
  unfold url_encode_char at hd
  split_ifs at hd with hplain hblank
  · obtain rfl := List.mem_singleton.mp hd
    rcases hplain with h | rfl | rfl | rfl | rfl
    · exact .inl h
    all_goals exact .inr (by decide)
  · obtain rfl := List.mem_singleton.mp hd
    exact .inr (by decide)
  · simp only [List.mem_cons, List.not_mem_nil, or_false] at hd
    rcases hd with rfl | rfl | rfl
    · exact .inr (by decide)
    · exact .inl (isalnum_to_hex _)
    · exact .inl (isalnum_to_hex _)

/-- It has no ampersand. -/
theorem ampersand_notMem_url_encoded (str : Bytes) : chr '&' ∉ url_encoded str := by
  have hdigit (c : UInt8) : chr '&' ≠ to_hex c :=
    (ne_of_isalnum (isalnum_to_hex c) (by decide)).symm
  have hpercent : chr '&' ≠ chr '%' := by decide
  intro hmem
  obtain ⟨c, -, hc⟩ := List.mem_flatMap.mp hmem
  rcases url_encode_char_cases c with ⟨h, -, -, hne⟩ | ⟨-, h⟩ | h
  · rw [h, List.mem_singleton] at hc
    exact hne hc.symm
  · rw [h] at hc
    exact absurd hc (by decide)
  · rw [h] at hc
    simp [hpercent, hdigit] at hc

/-- **Encoding and decoding are inverse.** With memory, `url_encode` returns a text of at most three
times the characters, all of them from the alphabet of URLs, from which `urldecode` writes exactly
the string when it is allowed at least as many characters. -/
theorem url_encode_urldecode {supply : Supply} (hmemory : supply 0 = true) (str : Bytes)
    {max_size : ℕ} (hsize : str.length ≤ max_size) :
    ∃ text, url_encode str supply = some (some text, [], supply.after 1) ∧
      text.length ≤ 3 * str.length ∧ (∀ c ∈ text, is_url_char c) ∧
      urldecode text max_size = (str, str.length) := by
  have hencode : url_encode str supply = some (some (url_encoded str), [], supply.after 1) := by
    unfold url_encode
    rw [bind_of_some (show request supply = some (true, [], supply.after 1) by
      rw [← hmemory]
      rfl)]
    rfl
  obtain ⟨-, hloop⟩ := urldecode_loop_eq (url_decoded_encoded str)
  refine ⟨url_encoded str, hencode, url_encoded_length str, is_url_char_of_mem str, ?_⟩
  unfold urldecode
  rw [hloop max_size hsize]
  rfl

/-- A text with characters of each kind. -/
theorem url_encode_urldecode_mixed : ∃ text, url_encode (bytes "a b+%é") plenty =
      some (some text, [], plenty) ∧
    text = bytes "a+b%2b%25%e9" ∧ urldecode text 6 = (bytes "a b+%é", 6) := by
  obtain ⟨text, hencode, -, -, hdecode⟩ :=
    @url_encode_urldecode plenty rfl (bytes "a b+%é") 6 (by decide)
  have htext : url_encode (bytes "a b+%é") plenty =
      some (some (bytes "a+b%2b%25%e9"), [], plenty) := by
    rfl
  obtain ⟨rfl, -⟩ : bytes "a+b%2b%25%e9" = text ∧ plenty = plenty.after 1 := by
    simpa using htext.symm.trans hencode
  exact ⟨_, hencode, rfl, hdecode⟩

end DialServer
