import DialServer.Text.Decoding

/-!
# What URL decoding reports

`urldecode` on every source and every size. `urldecode_at` follows the loop by the places in the
source that it reads, and `urldecode_at_eq` says that none of them is behind the terminator. What is
left in the destination is described by the pieces of the source, which are its escapes and its
other characters; whether the result is the length of it depends on where the escapes are that are
malformed or stand for the terminator.
-/

namespace DialServer

open CLib

/-! ## Reads -/

/-- The loop of `urldecode` from a place in the source on, with room for `room` more characters;
`none` when it reads behind the terminator. -/
def urldecode_at (src : Bytes) : ℕ → ℕ → Option (Bytes × Bool)
  | 0, _ => some ([], true)
  | room + 1, i =>
    (char_at src i).bind fun c =>
      if c = 0 then some ([], true)
      else if c = chr '+' then
        (urldecode_at src room (i + 1)).map fun r => (chr ' ' :: r.1, r.2)
      else if c = chr '%' then
        (char_at src (i + 1)).bind fun a =>
          -- The second digit is not read when the first is the terminator.
          if a = 0 then some ([], false)
          else (char_at src (i + 2)).bind fun b =>
            if b = 0 then some ([], false)
            else
              match append_char_from_hex a b with
              | some d => (urldecode_at src room (i + 3)).map fun r => (d :: r.1, r.2)
              | none => some ([], false)
      else (urldecode_at src room (i + 1)).map fun r => (c :: r.1, r.2)

/-- Nothing behind the terminator is read, and what is written is what `urldecode_loop` says. -/
theorem urldecode_at_eq {src : Bytes} (hsrc : 0 ∉ src) (room : ℕ) {i : ℕ} (hi : i ≤ src.length) :
    urldecode_at src room i = some (urldecode_loop (src.drop i) room) := by
  induction room generalizing i with
  | zero => simp [urldecode_at, urldecode_loop]
  | succ room ih =>
    have hne {rest : Bytes} {c : UInt8} {j : ℕ} (h : src.drop j = c :: rest) : c ≠ 0 := by
      have hmem : c ∈ src.drop j := by simp [h]
      exact ne_of_mem_of_not_mem (List.mem_of_mem_drop hmem) hsrc
    unfold urldecode_at
    cases hdrop : src.drop i with
    | nil =>
      rw [char_at_end hi hdrop]
      rfl
    | cons c rest =>
      obtain ⟨hc, hrest, hi₁⟩ := char_at_drop hdrop
      rw [hc, Option.bind_some, if_neg (hne hdrop), urldecode_loop_cons]
      split_ifs with hplus hpercent
      · rw [ih hi₁, hrest]
        rfl
      · -- An escape: its digits may be missing at the end of the source.
        cases rest with
        | nil =>
          rw [char_at_end hi₁ hrest]
          rfl
        | cons a rest =>
          obtain ⟨ha, hrest₁, hi₂⟩ := char_at_drop hrest
          rw [ha, Option.bind_some, if_neg (hne hrest)]
          cases rest with
          | nil =>
            rw [char_at_end hi₂ hrest₁]
            rfl
          | cons b rest =>
            obtain ⟨hb, hrest₂, hi₃⟩ := char_at_drop hrest₁
            rw [hb, Option.bind_some, if_neg (hne hrest₁)]
            cases hd : append_char_from_hex a b with
            | none => simp [hd]
            | some d => simp [hd, ih hi₃, hrest₂]
      · rw [ih hi₁, hrest]
        rfl

/-! ## Pieces -/

/-- A source in pieces that stand for a character each: escapes with the two characters behind the
percent sign, what is left of an escape at the end, and other characters. -/
def pieces : Bytes → List Bytes
  | [] => []
  | c :: src =>
    if c = chr '%' then
      match src with
      | a :: b :: src => [c, a, b] :: pieces src
      | _ => [c :: src]
    else [c] :: pieces src

/-- The pieces begin with a character or an escape. -/
theorem pieces_cons (c : UInt8) (src : Bytes) :
    pieces (c :: src) =
      if c = chr '%' then
        match src with
        | a :: b :: src => [c, a, b] :: pieces src
        | _ => [c :: src]
      else [c] :: pieces src := by
  rw [pieces.eq_def]
  rfl

/-- A character that begins no escape is a piece. -/
theorem pieces_char {c : UInt8} (h : c ≠ chr '%') (src : Bytes) :
    pieces (c :: src) = [c] :: pieces src := by
  rw [pieces_cons]
  rw [if_neg h]

/-- So is an escape. -/
theorem pieces_escape (a b : UInt8) (src : Bytes) :
    pieces (chr '%' :: a :: b :: src) = [chr '%', a, b] :: pieces src := by
  rw [pieces_cons]
  rw [if_pos rfl]

/-- The character that a piece stands for; a malformed escape stands for none. -/
def piece_char : Bytes → Option UInt8
  | [c] => if c = chr '+' then some (chr ' ') else if c = chr '%' then none else some c
  | [_, a, b] => append_char_from_hex a b
  | _ => none

/-- What pieces are decoded to: the characters up to the first malformed escape, and whether there
is none. -/
def decoded_pieces : List Bytes → Bytes × Bool
  | [] => ([], true)
  | p :: ps =>
    match piece_char p with
    | some d => (d :: (decoded_pieces ps).1, (decoded_pieces ps).2)
    | none => ([], false)

/-- The loop decodes the pieces for which it has room. -/
theorem urldecode_loop_pieces (src : Bytes) (room : ℕ) :
    urldecode_loop src room = decoded_pieces ((pieces src).take room) := by
  have hplus : chr '+' ≠ chr '%' := by decide
  induction src, room using urldecode_loop.induct with
  | case1 src => simp [urldecode_loop, decoded_pieces]
  | case2 room hroom =>
    cases room <;> rfl
  | case3 src room dst ok hloop ih =>
    have hchar : piece_char [chr '+'] = some (chr ' ') := rfl
    rw [pieces_char hplus, List.take_succ_cons, decoded_pieces, hchar, urldecode_loop_plus, ih]
  | case4 room a b src d hd dst ok hloop hne ih =>
    have hchar : piece_char [chr '%', a, b] = some d := hd
    rw [pieces_escape, List.take_succ_cons, decoded_pieces, hchar, urldecode_loop_escape hd, ih]
  | case5 room a b src hd hne =>
    have hchar : piece_char [chr '%', a, b] = none := hd
    rw [pieces_escape, List.take_succ_cons, decoded_pieces, hchar, urldecode_loop_malformed hd]
  | case6 src room hshort hne =>
    -- The source ends in the escape, which is a piece that stands for no character.
    have hpiece : pieces (chr '%' :: src) = [chr '%' :: src] ∧
        piece_char (chr '%' :: src) = none := by
      rcases src with _ | ⟨a, _ | ⟨b, src⟩⟩
      · exact ⟨rfl, rfl⟩
      · exact ⟨rfl, rfl⟩
      · exact absurd rfl (hshort a b src)
    rw [hpiece.1, List.take_succ_cons, decoded_pieces, hpiece.2, urldecode_loop_short hshort]
  | case7 c src room hne hne' dst ok hloop ih =>
    have hchar : piece_char [c] = some c := by
      rw [piece_char, if_neg hne, if_neg hne']
    rw [pieces_char hne', List.take_succ_cons, decoded_pieces, hchar,
      urldecode_loop_char hne hne', ih]

/-- Not more characters are written than there are pieces. -/
theorem decoded_pieces_length (ps : List Bytes) : (decoded_pieces ps).1.length ≤ ps.length := by
  induction ps with
  | nil => exact Nat.zero_le _
  | cons p ps ih =>
    rw [decoded_pieces]
    cases piece_char p with
    | none => exact Nat.zero_le _
    | some d => exact Nat.succ_le_succ ih

/-- The decoding ends well when no piece is malformed. -/
theorem decoded_pieces_ok (ps : List Bytes) :
    (decoded_pieces ps).2 = true ↔ ∀ p ∈ ps, piece_char p ≠ none := by
  induction ps with
  | nil => simp [decoded_pieces]
  | cons p ps ih =>
    rw [decoded_pieces, List.forall_mem_cons, ← ih]
    cases piece_char p <;> simp

/-- Then its characters are those of the pieces. -/
theorem mem_decoded_pieces {ps : List Bytes} (h : ∀ p ∈ ps, piece_char p ≠ none) (c : UInt8) :
    c ∈ (decoded_pieces ps).1 ↔ ∃ p ∈ ps, piece_char p = some c := by
  induction ps with
  | nil => simp [decoded_pieces]
  | cons p ps ih =>
    obtain ⟨hp, hps⟩ := List.forall_mem_cons.mp h
    obtain ⟨d, hd⟩ := Option.ne_none_iff_exists'.mp hp
    simp [decoded_pieces, hd, ih hps, eq_comm]

/-- A digit has a value below 16, and only `0` has the value 0. -/
theorem hex_value_digit {a x : UInt8} (h : hex_value a = some x) :
    x.toNat < 16 ∧ (x.toNat = 0 → a = chr '0') := by
  have ha : (chr 'a').toNat = 97 ∧ (chr 'f').toNat = 102 := by decide
  have hA : (chr 'A').toNat = 65 ∧ (chr 'F').toNat = 70 := by decide
  have h0 : (chr '0').toNat = 48 ∧ (chr '9').toNat = 57 := by decide
  have hten : (10 : UInt8).toNat = 10 := rfl
  unfold hex_value at h
  simp only [UInt8.le_iff_toNat_le] at h
  -- One case for each of the three ranges of digits.
  split_ifs at h
  · obtain rfl := Option.some.inj h
    rw [UInt8.toNat_sub, UInt8.toNat_add]
    omega
  · obtain rfl := Option.some.inj h
    rw [UInt8.toNat_sub, UInt8.toNat_add]
    omega
  · obtain rfl := Option.some.inj h
    rw [UInt8.toNat_sub, ← UInt8.toNat_inj]
    omega

/-- The value of two digits is 0 only if both are. -/
theorem append_char_from_hex_zero {a b : UInt8} (h : append_char_from_hex a b = some 0) :
    a = chr '0' ∧ b = chr '0' := by
  unfold append_char_from_hex at h
  cases ha : hex_value a with
  | none => simp [ha] at h
  | some x =>
    cases hb : hex_value b with
    | none => simp [ha, hb] at h
    | some y =>
      simp only [ha, hb, Option.some.injEq] at h
      obtain ⟨hx, hx₀⟩ := hex_value_digit ha
      obtain ⟨hy, hy₀⟩ := hex_value_digit hb
      -- There is no carry, so that both summands are 0.
      have hsum : (16 * x.toNat + y.toNat) % 256 = 0 := by
        have := congrArg UInt8.toNat h
        simpa [UInt8.toNat_add, UInt8.toNat_mul] using this
      exact ⟨hx₀ (by omega), hy₀ (by omega)⟩

/-- The escape of the terminator is the only piece of a string that stands for it. -/
theorem piece_char_zero {src p : Bytes} (hsrc : 0 ∉ src) (hp : p ∈ pieces src) :
    piece_char p = some 0 ↔ p = bytes "%00" := by
  constructor
  · intro h
    have hplus : chr '%' ≠ chr '+' := by decide
    induction src using pieces.induct with
    | case1 => exact absurd hp (by simp [pieces])
    | case2 a b src ih =>
      rw [pieces_escape, List.mem_cons] at hp
      rcases hp with rfl | hp
      · obtain ⟨rfl, rfl⟩ := append_char_from_hex_zero h
        rfl
      · exact ih (fun hmem => hsrc (by simp [hmem])) hp
    | case3 src hshort =>
      match src, hshort with
      | [], _ => simp_all [pieces_cons, piece_char]
      | [a], _ => simp_all [pieces_cons, piece_char]
      | a :: b :: src, hshort => exact absurd rfl (hshort a b src)
    | case4 c src hne ih =>
      rw [List.mem_cons, not_or] at hsrc
      rw [pieces_char hne, List.mem_cons] at hp
      rcases hp with rfl | hp
      · simp only [piece_char] at h
        split_ifs at h
        · exact absurd h (by decide)
        · exact absurd (Option.some.inj h).symm hsrc.1
      · exact ih hsrc.2 hp
  · rintro rfl
    decide

/-! ## Reports -/

/-- Of the pieces that are looked at none is malformed. -/
def EscapesWellFormed (src : Bytes) (max_size : ℕ) : Prop :=
  ∀ p ∈ (pieces src).take max_size, piece_char p ≠ none

/-- `urldecode` in terms of pieces. -/
theorem urldecode_pieces (src : Bytes) (max_size : ℕ) :
    urldecode src max_size = ((decoded_pieces ((pieces src).take max_size)).1,
      if (decoded_pieces ((pieces src).take max_size)).2 then
        (decoded_pieces ((pieces src).take max_size)).1.length else 0) := by
  rw [← urldecode_loop_pieces]
  rfl

/-- A buffer is all string when there is no terminator in it. -/
theorem cstr_length_eq {buf : Bytes} : (cstr buf).length = buf.length ↔ 0 ∉ buf := by
  refine ⟨fun h hmem => ?_, fun h => by rw [cstr_of_notMem h]⟩
  have hall : cstr buf = buf := (List.takeWhile_prefix _).eq_of_length h
  rw [← hall] at hmem
  exact absurd (List.mem_takeWhile_imp hmem) (by simp)

/-- What a caller may expect: the result is the length of the string that is left in the
destination, and after a malformed escape that is the empty string. -/
def Reports (src : Bytes) (max_size : ℕ) : Prop :=
  let (dst, result) := urldecode src max_size
  result = (cstr dst).length ∧ (¬EscapesWellFormed src max_size → result = 0 ∧ cstr dst = [])

/-- **What `urldecode` reports.** On every source and with every size it reads nothing behind the
terminator and writes at most `max_size` characters and a terminator. It reports what it wrote if
and only if no well-formed escape of the terminator is among the pieces that it looks at, when all
of those are well formed, and the first piece is malformed or is such an escape, when one of them
is not. -/
theorem urldecode_reports_iff {src : Bytes} (hsrc : 0 ∉ src) (max_size : ℕ) :
    urldecode_at src max_size 0 = some (urldecode_loop src max_size) ∧
      (urldecode src max_size).1.length ≤ max_size ∧
      (Reports src max_size ↔
        (EscapesWellFormed src max_size → bytes "%00" ∉ (pieces src).take max_size) ∧
        (¬EscapesWellFormed src max_size →
          ∀ p ∈ (pieces src).head?, piece_char p = none ∨ p = bytes "%00")) := by
  refine ⟨urldecode_at_eq hsrc max_size (Nat.zero_le _), ?_, ?_⟩
  · have hlength := decoded_pieces_length ((pieces src).take max_size)
    rw [urldecode_pieces]
    exact hlength.trans (List.length_take_le _ _)
  by_cases hwell : EscapesWellFormed src max_size
  · -- All that is read is decoded, and the result is the number of its characters.
    have hok := (decoded_pieces_ok _).mpr hwell
    have hzero : 0 ∈ (decoded_pieces ((pieces src).take max_size)).1 ↔
        bytes "%00" ∈ (pieces src).take max_size := by
      rw [mem_decoded_pieces hwell]
      constructor
      · rintro ⟨p, hp, hchar⟩
        exact (piece_char_zero hsrc (List.mem_of_mem_take hp)).mp hchar ▸ hp
      · exact fun hp => ⟨_, hp, by decide⟩
    unfold Reports
    rw [urldecode_pieces]
    simp only [hok, if_true, hwell, not_true_eq_false, false_imp_iff, and_true, true_imp_iff]
    rw [eq_comm, cstr_length_eq, hzero]
  · -- The result is 0, and the terminator is behind what stands before the malformed escape.
    have hok : (decoded_pieces ((pieces src).take max_size)).2 = false :=
      Bool.not_eq_true _ ▸ fun h => hwell ((decoded_pieces_ok _).mp h)
    unfold Reports
    rw [urldecode_pieces]
    simp only [hok, hwell, not_false_eq_true, true_imp_iff, false_imp_iff, true_and]
    unfold EscapesWellFormed at hwell
    cases hps : (pieces src).take max_size with
    | nil => exact absurd (by simp [hps]) hwell
    | cons p ps =>
      have hhead : (pieces src).head? = some p := by
        cases hpieces : pieces src with
        | nil => simp [hpieces] at hps
        | cons p' ps' =>
          cases max_size with
          | zero => simp at hps
          | succ n =>
            rw [hpieces, List.take_succ_cons, List.cons.injEq] at hps
            exact congrArg some hps.1
      have hmem : p ∈ pieces src := List.mem_of_head? hhead
      rw [hhead, decoded_pieces]
      cases hchar : piece_char p with
      | none => simp [hchar, cstr]
      | some d =>
        have hzero : p = bytes "%00" ↔ d = 0 := by
          rw [← piece_char_zero hsrc hmem, hchar, Option.some.injEq]
        by_cases hd : d = 0 <;> simp [hchar, cstr, hzero, hd]

/-- A value with well-formed escapes is reported. -/
theorem well_formed_reported :
    Reports (bytes "a%20b+c") 7 ∧ urldecode (bytes "a%20b+c") 7 = (bytes "a b c", 5) := by
  have hpieces : pieces (bytes "a%20b+c") =
      [bytes "a", bytes "%20", bytes "b", bytes "+", bytes "c"] := by
    decide_cbv
  have hwell : EscapesWellFormed (bytes "a%20b+c") 7 := by
    unfold EscapesWellFormed
    rw [hpieces]
    decide
  have hiff := (@urldecode_reports_iff (bytes "a%20b+c") (by decide) 7).2.2
  refine ⟨?_, by rw [urldecode_pieces, hpieces]; decide⟩
  rw [hiff]
  exact ⟨fun _ => by rw [hpieces]; decide, fun h => absurd hwell h⟩

/-- Before a malformed escape what was decoded stays, and behind a terminator the result counts
on. -/
theorem half_decoded :
    urldecode (bytes "ab%zz") 5 = (bytes "ab", 0) ∧ ¬Reports (bytes "ab%zz") 5 ∧
      (urldecode (bytes "a%00b") 5).2 = 3 ∧ ¬Reports (bytes "a%00b") 5 := by
  refine ⟨by decide, ?_, by decide, ?_⟩
  · rintro ⟨hlength, -⟩
    exact absurd hlength (by decide)
  · rintro ⟨hlength, -⟩
    exact absurd hlength (by decide)

end DialServer
