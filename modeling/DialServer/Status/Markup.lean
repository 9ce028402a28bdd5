import DialServer.Base.Buffer
import DialServer.Status.Bounds
import DialServer.Text.Pieces

/-!
# The markup of the status answer

`xmlencode` counts the characters it has written in one variable and moves its pointer in another.
Here the functions of `url_lib.c` are told by what they store in their buffers, and what they store
is shown to be the text of the model, with its terminator and nothing behind it. The text is the
escaped form of a part of the source, whole entities and all.
-/

namespace DialServer

open CLib Program

/-! ## The stores -/

/-- `smartstrncpy`: what it stores, and the pointer that it returns. -/
def smartstrncpy_stores : ℕ → Bytes → ℕ → List (ℕ × UInt8) × ℕ
  | dest, _, 0 => ([(dest, 0)], dest)
  | dest, [], _ + 1 => ([(dest, 0), (dest, 0)], dest)
  | dest, c :: src, max_chars + 1 =>
    let (stores, end_dest) := smartstrncpy_stores (dest + 1) src max_chars
    ((dest, c) :: stores, end_dest)

/-- What `urldecode` stores from `dst` on, with room for `room` more characters. -/
def urldecode_stores : ℕ → Bytes → ℕ → List (ℕ × UInt8)
  | dst, _, 0 => [(dst, 0)]
  | dst, [], _ => [(dst, 0)]
  | dst, c :: src, room + 1 =>
    if c = chr '+' then (dst, chr ' ') :: urldecode_stores (dst + 1) src room
    else if c = chr '%' then
      match src with
      | a :: b :: src =>
        match append_char_from_hex a b with
        | some d => (dst, d) :: urldecode_stores (dst + 1) src room
        | none => [(dst, 0)]
      | _ => [(dst, 0)]
    else (dst, c) :: urldecode_stores (dst + 1) src room

/-- What `xmlencode` stores from `dst` on, after `current_size` characters. -/
def xmlencode_stores (max_size : ℕ) : ℕ → ℕ → Bytes → List (ℕ × UInt8)
  | dst, _, [] => [(dst, 0)]
  | dst, current_size, c :: src =>
    if current_size < max_size then
      match xml_entity c with
      | some entity =>
        if current_size + entity.length ≥ max_size then
          xmlencode_stores max_size dst current_size src
        else
          let (stores, end_dst) := smartstrncpy_stores dst entity (max_size - current_size)
          stores ++ xmlencode_stores max_size end_dst (current_size + entity.length) src
      | none => (dst, c) :: xmlencode_stores max_size (dst + 1) (current_size + 1) src
    else [(dst, 0)]

/-- `url_decode_xml_encode` with memory: what it stores in `url_decoded_key`, a buffer with whatever
`malloc` leaves in it, and what it stores in `dst`. -/
def url_decode_xml_encode_stores (malloced src : Bytes) (src_size : ℕ) :
    List (ℕ × UInt8) × List (ℕ × UInt8) :=
  let stores := urldecode_stores 0 src src_size
  let url_decoded_key := store_all malloced stores
  (stores, xmlencode_stores (2 * src_size) 0 0 (cstr url_decoded_key))

/-- The places of the stores are those that the report was looked at for. -/
theorem smartstrncpy_stores_places (dest : ℕ) (src : Bytes) (max_chars : ℕ) :
    (smartstrncpy_stores dest src max_chars).1.map Prod.fst =
      smartstrncpy_writes dest src max_chars := by
  induction max_chars generalizing dest src with
  | zero => rfl
  | succ max_chars ih =>
    cases src with
    | nil => rfl
    | cons c src =>
      rw [smartstrncpy_writes, ← ih]
      rfl

/-- `smartstrncpy` prints what it takes of the source, and returns the place of the terminator. -/
theorem smartstrncpy_prints (dest : ℕ) (src : Bytes) (max_chars : ℕ) :
    Prints (smartstrncpy_stores dest src max_chars).1 dest (src.take max_chars) ∧
      (smartstrncpy_stores dest src max_chars).2 = dest + (src.take max_chars).length := by
  induction max_chars generalizing dest src with
  | zero => exact ⟨prints_terminator dest, rfl⟩
  | succ max_chars ih =>
    cases src with
    | nil =>
      -- The terminator is stored twice.
      have hnul : Prints [(dest, (0 : UInt8))] dest [] := prints_terminator dest
      exact ⟨hnul.append hnul, rfl⟩
    | cons c src =>
      obtain ⟨hprints, hend⟩ := ih (dest + 1) src
      refine ⟨hprints.cons c, ?_⟩
      show (smartstrncpy_stores (dest + 1) src max_chars).2 = _
      rw [hend, List.take_succ_cons, List.length_cons]
      omega

/-- `urldecode` prints what it decodes. -/
theorem urldecode_prints (dst : ℕ) (src : Bytes) (room : ℕ) :
    Prints (urldecode_stores dst src room) dst (urldecode_loop src room).1 := by
  induction src, room using urldecode_loop.induct generalizing dst with
  | case1 src =>
    rw [urldecode_stores, urldecode_loop]
    exact prints_terminator dst
  | case2 room hroom =>
    cases room with
    | zero => exact absurd rfl hroom
    | succ room =>
      exact prints_terminator dst
  | case3 src room text ok hloop ih =>
    have hstores : urldecode_stores dst (chr '+' :: src) (room + 1) =
        (dst, chr ' ') :: urldecode_stores (dst + 1) src room := by
      rw [urldecode_stores.eq_def]
      simp
    rw [hstores, urldecode_loop_plus]
    exact (ih (dst + 1)).cons _
  | case4 room a b src d hd text ok hloop hne ih =>
    have hstores : urldecode_stores dst (chr '%' :: a :: b :: src) (room + 1) =
        (dst, d) :: urldecode_stores (dst + 1) src room := by
      rw [urldecode_stores.eq_def]
      simp [hne, hd]
    rw [hstores, urldecode_loop_escape hd]
    exact (ih (dst + 1)).cons _
  | case5 room a b src hd hne =>
    -- A malformed escape ends the copy.
    have hstores : urldecode_stores dst (chr '%' :: a :: b :: src) (room + 1) = [(dst, 0)] := by
      rw [urldecode_stores.eq_def]
      simp [hne, hd]
    rw [hstores, urldecode_loop_malformed hd]
    exact prints_terminator dst
  | case6 src room hshort hne =>
    -- So does one that the source ends in.
    have hstores : urldecode_stores dst (chr '%' :: src) (room + 1) = [(dst, 0)] := by
      rw [urldecode_stores.eq_def]
      rcases src with _ | ⟨a, _ | ⟨b, src⟩⟩
      · simp [hne]
      · simp [hne]
      · exact absurd rfl (hshort a b src)
    rw [hstores, urldecode_loop_short hshort]
    exact prints_terminator dst
  | case7 c src room hne hne' text ok hloop ih =>
    have hstores : urldecode_stores dst (c :: src) (room + 1) =
        (dst, c) :: urldecode_stores (dst + 1) src room := by
      rw [urldecode_stores.eq_def]
      simp [hne, hne']
    rw [hstores, urldecode_loop_char hne hne']
    exact (ih (dst + 1)).cons c

/-- `xmlencode` prints its text: the pointer and the count are in step. -/
theorem xmlencode_prints (max_size dst current_size : ℕ) (src : Bytes) :
    Prints (xmlencode_stores max_size dst current_size src) dst
      (xmlencode_loop max_size current_size src) := by
  induction src generalizing dst current_size with
  | nil => exact prints_terminator dst
  | cons c src ih =>
    rw [xmlencode_stores, xmlencode_loop]
    split_ifs with hroom
    · cases xml_entity c with
      | none => exact (ih (dst + 1) (current_size + 1)).cons c
      | some entity =>
        simp only
        split_ifs with hlong
        · exact ih dst current_size
        · obtain ⟨hprints, hend⟩ := smartstrncpy_prints dst entity (max_size - current_size)
          rw [hend]
          exact hprints.append (ih _ _)
    · exact prints_terminator dst

/-- The count never exceeds the bound. -/
theorem xmlencode_loop_length {max_size current_size : ℕ} (h : current_size ≤ max_size)
    (src : Bytes) :
    current_size + (xmlencode_loop max_size current_size src).length ≤ max_size := by
  induction src generalizing current_size with
  | nil => exact h
  | cons c src ih =>
    rw [xmlencode_loop]
    split_ifs with hroom
    · cases xml_entity c with
      | none =>
        have := ih (show current_size + 1 ≤ max_size from hroom)
        rw [List.length_cons]
        omega
      | some entity =>
        simp only
        split_ifs with hlong
        · exact ih h
        · have := ih (show current_size + entity.length ≤ max_size by omega)
          rw [smartstrncpy, List.nil_append, List.take_of_length_le (by omega), List.length_append]
          omega
    · exact h

/-! ## The markup -/

/-- Markup without a character that would have to be escaped: `&` is there only as the start of an
entity. -/
structure Escaped (s : Bytes) : Prop where
  raw : chr '<' ∉ s ∧ chr '>' ∉ s ∧ chr '"' ∉ s ∧ chr '\'' ∉ s
  ampersand : ∀ before rest, s = before ++ chr '&' :: rest →
    ∃ c entity, xml_entity c = some entity ∧ entity <+: chr '&' :: rest

/-- An entity begins with its only `&`, and has none of the other characters. -/
theorem xml_entity_eq_some {c : UInt8} {entity : Bytes} (h : xml_entity c = some entity) :
    (∃ name, entity = chr '&' :: name ∧ chr '&' ∉ name) ∧
      chr '<' ∉ entity ∧ chr '>' ∉ entity ∧ chr '"' ∉ entity ∧ chr '\'' ∉ entity := by
  unfold xml_entity at h
  split_ifs at h
  all_goals
    obtain rfl := Option.some.inj h
    exact ⟨⟨_, rfl, by decide⟩, by decide, by decide, by decide, by decide⟩

/-- A character without an entity is none of those that have one. -/
theorem xml_entity_eq_none {c : UInt8} (h : xml_entity c = none) :
    c ≠ chr '&' ∧ c ≠ chr '<' ∧ c ≠ chr '>' ∧ c ≠ chr '"' ∧ c ≠ chr '\'' := by
  refine ⟨?_, ?_, ?_, ?_, ?_⟩
  all_goals
    rintro rfl
    exact absurd h (by decide)

/-- The escaped form of a character is none of the other characters. -/
theorem xml_char_raw (c : UInt8) :
    chr '<' ∉ xml_char c ∧ chr '>' ∉ xml_char c ∧ chr '"' ∉ xml_char c ∧ chr '\'' ∉ xml_char c := by
  cases hc : xml_entity c with
  | none =>
    obtain ⟨-, hlt, hgt, hquot, hapos⟩ := xml_entity_eq_none hc
    simp only [xml_char_of_none hc, List.mem_singleton]
    exact ⟨hlt.symm, hgt.symm, hquot.symm, hapos.symm⟩
  | some entity =>
    rw [xml_char_of_some hc]
    exact (xml_entity_eq_some hc).2

/-- In the escaped form of a character, a `&` is the start of the entity. -/
theorem xml_char_ampersand {c : UInt8} {before rest : Bytes}
    (h : xml_char c = before ++ chr '&' :: rest) :
    before = [] ∧ xml_entity c = some (chr '&' :: rest) := by
  cases hc : xml_entity c with
  | none =>
    rw [xml_char_of_none hc] at h
    have hmem : chr '&' ∈ [c] := h ▸ List.mem_append_right _ (List.mem_cons_self ..)
    exact absurd (List.mem_singleton.mp hmem).symm (xml_entity_eq_none hc).1
  | some entity =>
    obtain ⟨⟨name, hname, hnone⟩, -⟩ := xml_entity_eq_some hc
    rw [xml_char_of_some hc, hname] at h
    cases before with
    | nil =>
      rw [List.nil_append] at h
      rw [hname, h]
      exact ⟨rfl, rfl⟩
    | cons b before =>
      rw [List.cons_append] at h
      rw [(List.cons.inj h).2] at hnone
      exact absurd (List.mem_append_right _ (List.mem_cons_self ..)) hnone

/-- The escaped form of a text is markup. -/
theorem escaped_xml_escape (s : Bytes) : Escaped (xml_escape s) where
  raw := by
    refine ⟨fun h => ?_, fun h => ?_, fun h => ?_, fun h => ?_⟩
    all_goals obtain ⟨c, -, hc⟩ := List.mem_flatMap.mp h
    · exact (xml_char_raw c).1 hc
    · exact (xml_char_raw c).2.1 hc
    · exact (xml_char_raw c).2.2.1 hc
    · exact (xml_char_raw c).2.2.2 hc
  ampersand := by
    induction s with
    | nil => exact fun before rest h => absurd h.symm (by simp [xml_escape])
    | cons c s ih =>
      intro before rest h
      rw [xml_escape_cons] at h
      rcases List.append_eq_append_iff.mp h with ⟨before', -, hrest⟩ | ⟨start, hchar, hrest⟩
      · exact ih before' rest hrest
      · cases start with
        | nil => exact ih [] rest hrest.symm
        | cons d start =>
          -- The `&` is in what the first character is escaped to.
          rw [List.cons_append] at hrest
          obtain ⟨rfl, rfl⟩ := List.cons.inj hrest
          obtain ⟨-, hentity⟩ := xml_char_ampersand hchar
          exact ⟨c, _, hentity, xml_escape s, rfl⟩

/-! ## The bounds -/

/-- What `xmlencode` leaves for a source and a bound. -/
structure EncodesWhole (src : Bytes) (max_size : ℕ) : Prop where
  places : ∀ store ∈ xmlencode_stores max_size 0 0 src, store.1 ≤ max_size
  left : ∀ buf : Bytes, max_size < buf.length →
    xmlencode src max_size ++ [0] <+: store_all buf (xmlencode_stores max_size 0 0 src)
  length : (xmlencode src max_size).length ≤ max_size
  kept : ∃ kept, kept.Sublist src ∧ xmlencode src max_size = xml_escape kept
  escaped : Escaped (xmlencode src max_size)
  complete : (xml_escape src).length < max_size → xmlencode src max_size = xml_escape src

/-- It does for all of them. -/
theorem encodesWhole (src : Bytes) (max_size : ℕ) : EncodesWhole src max_size := by
  have hprints : Prints (xmlencode_stores max_size 0 0 src) 0 (xmlencode src max_size) :=
    xmlencode_prints max_size 0 0 src
  have hlength : (xmlencode src max_size).length ≤ max_size := by
    have hloop := xmlencode_loop_length (Nat.zero_le max_size) src
    rwa [Nat.zero_add] at hloop
  obtain ⟨kept, hkept, heq⟩ : ∃ kept, kept.Sublist src ∧ xmlencode src max_size = xml_escape kept :=
    xmlencode_loop_kept max_size 0 src
  refine ⟨fun store hstore => ?_, fun buf hbuf => ?_, hlength, ⟨kept, hkept, heq⟩, ?_, ?_⟩
  · have hplace := (hprints.places store hstore).2
    omega
  · exact hprints.text buf (by omega)
  · rw [heq]
    exact escaped_xml_escape kept
  · intro hshort
    exact (xmlencode_eq_iff src max_size).mpr fun c _ => .inl hshort

/-- A buffer that a text has been printed in holds it, up to its first terminator. -/
theorem cstr_of_prints {stores : List (ℕ × UInt8)} {s buf : Bytes} (h : Prints stores 0 s)
    (hbuf : s.length < buf.length) : cstr (store_all buf stores) = cstr s := by
  obtain ⟨rest, hrest⟩ := h.text buf (by omega)
  have hcut (s rest : Bytes) : cstr (s ++ 0 :: rest) = cstr s := by
    unfold cstr
    induction s with
    | nil => simp
    | cons c s ih =>
      by_cases hc : c = 0
      · simp [hc]
      · simpa [hc] using ih
  rw [List.drop_zero, List.append_assoc] at hrest
  rw [← hrest]
  exact hcut s rest

/-- What `url_decode_xml_encode` does with a string whose length it is told: it writes no more than
the string has characters, and a terminator, in its own buffer, and no more than twice as many in
`dst`. -/
structure StaysInBuffers (malloced src : Bytes) : Prop where
  decoded : ∀ store ∈ (url_decode_xml_encode_stores malloced src src.length).1,
    store.1 ≤ src.length
  places : ∀ store ∈ (url_decode_xml_encode_stores malloced src src.length).2,
    store.1 ≤ 2 * src.length
  left : malloced.length = src.length + 1 → ∀ dst : Bytes, dst.length = 2 * src.length + 1 →
    encoded src ++ [0] <+: store_all dst (url_decode_xml_encode_stores malloced src src.length).2

/-- It does for every string, whatever was in its buffer. -/
theorem staysInBuffers (malloced src : Bytes) : StaysInBuffers malloced src := by
  have hprints := urldecode_prints 0 src src.length
  have hlength : (urldecode_loop src src.length).1.length ≤ src.length := by
    rw [urldecode_loop_pieces]
    exact (decoded_pieces_length _).trans (List.length_take_le ..)
  refine ⟨fun store hstore => ?_, fun store hstore => ?_, fun hmalloced dst hdst => ?_⟩
  · have hplace := (hprints.places store hstore).2
    omega
  · exact (encodesWhole _ _).places store hstore
  · -- The text that is escaped is the one that was decoded.
    have htext : cstr (store_all malloced (urldecode_stores 0 src src.length)) =
        cstr (urldecode_loop src src.length).1 :=
      cstr_of_prints hprints (by omega)
    show encoded src ++ [0] <+: store_all dst (xmlencode_stores (2 * src.length) 0 0
      (cstr (store_all malloced (urldecode_stores 0 src src.length))))
    rw [htext]
    exact (encodesWhole _ _).left dst (by omega)

/-- **`xmlencode` emits whole markup and stays in bounds**, for every source and every bound, and so
does `url_decode_xml_encode` in both of its buffers. -/
theorem xmlencode_in_bounds (src malloced : Bytes) (max_size : ℕ) :
    EncodesWhole src max_size ∧ StaysInBuffers malloced src :=
  ⟨encodesWhole src max_size, staysInBuffers malloced src⟩

/-- An entity that does not fit is left out, and what follows it is not. -/
example : xmlencode (bytes "a<b&c") 9 = bytes "a&lt;bc" := by decide

end DialServer
