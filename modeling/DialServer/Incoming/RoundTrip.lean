import DialServer.Incoming.Arrival

/-!
# Printed requests

A request as a client prints it, and that the server reads back what the client has printed: the
method, the URI, the headers with their values, and the length of the body, however the bytes are
cut into segments.
-/

set_option maxRecDepth 8000

namespace DialServer

open CLib

variable {W : Type}

/-! ## Requests that can be printed -/

/-- A character that may stand in a line of a request. -/
def Plain (c : UInt8) : Prop := is_control c = false ∧ c ≠ chr '\r' ∧ c ≠ chr '\n'

instance : DecidablePred Plain := fun _ => inferInstanceAs (Decidable (_ ∧ _))

/-- A request whose parts can be told apart again: the URI is a word, the names have no colons, the
values do not begin with a blank, and there is room for all headers. -/
structure Message where
  request_method : Bytes
  uri : Bytes
  version : Bytes
  http_headers : List mg_header
  method : is_valid_http_method request_method = true
  uri_ne_nil : uri ≠ []
  uri_plain : ∀ c ∈ uri, Plain c ∧ c ≠ chr ' '
  version_known : version = bytes "1.0" ∨ version = bytes "1.1"
  names : ∀ h ∈ http_headers, h.name ≠ [] ∧ ∀ c ∈ h.name, Plain c ∧ c ≠ chr ':'
  values : ∀ h ∈ http_headers, (∀ c ∈ h.value, Plain c) ∧ h.value.head? ≠ some (chr ' ')
  few : http_headers.length ≤ MAX_HEADERS

namespace Message

/-- The first line. -/
def request_line (m : Message) : Bytes :=
  m.request_method ++ chr ' ' :: m.uri ++ chr ' ' :: bytes "HTTP/" ++ m.version

/-- The line of a header. -/
def header_line (h : mg_header) : Bytes := h.name ++ chr ':' :: chr ' ' :: h.value

/-- The lines. -/
def lines (m : Message) : List Bytes := m.request_line :: m.http_headers.map header_line

/-- What the client prints. -/
def print (m : Message) : Bytes := m.lines.flatMap (· ++ crlf) ++ crlf

/-- What the server has read when it has read the request. -/
def info (m : Message) (local_addr remote_addr : InAddr) : mg_request_info where
  request_method := m.request_method
  uri := m.uri
  query_string := none
  local_addr := local_addr
  remote_addr := remote_addr
  http_headers := m.http_headers

end Message

/-! ## Words -/

/-- The delimiter behind the method and behind the URI. -/
theorem mem_blank {c : UInt8} : c ∈ bytes " " ↔ c = chr ' ' := List.mem_singleton

/-- The delimiter behind a name. -/
theorem mem_colon {c : UInt8} : c ∈ bytes ":" ↔ c = chr ':' := List.mem_singleton

/-- The delimiters behind a line. -/
theorem mem_line_end {c : UInt8} : c ∈ bytes "\r\n" ↔ c = chr '\r' ∨ c = chr '\n' := List.mem_pair

/-- A line does not end within a line. -/
theorem Plain.notMem {c : UInt8} (h : Plain c) : c ∉ bytes "\r\n" := by
  rw [mem_line_end]
  exact not_or.mpr h.2

/-- A word, and the text behind the delimiter and white space that follow it. -/
theorem skip_quoted_append {w delimiters : Bytes} {d : UInt8} (hw : ∀ c ∈ w, c ∉ delimiters)
    (hd : d ∈ delimiters) (whitespace rest : Bytes) :
    skip_quoted (w ++ d :: rest) delimiters whitespace =
      (w, rest.dropWhile (· ∈ whitespace)) := by
  have hword : ∀ c ∈ w, decide (c ∉ delimiters) = true := fun c hc => decide_eq_true (hw c hc)
  unfold skip_quoted
  rw [List.takeWhile_append_of_pos hword, List.dropWhile_append_of_pos hword,
    List.takeWhile_cons_of_neg (by simp [hd]), List.dropWhile_cons_of_neg (by simp [hd]),
    List.append_nil]

/-- Nothing is dropped in front of another character. -/
theorem dropWhile_of_head {p : UInt8 → Bool} {s : Bytes} (h : ∀ c ∈ s.head?, p c = false) :
    s.dropWhile p = s := by
  cases s with
  | nil => rfl
  | cons c s => rw [List.dropWhile_cons_of_neg (by simp [h c rfl])]

/-- The first character of a word that is not empty is one of its characters. -/
theorem mem_of_head {s t : Bytes} (hs : s ≠ []) {c : UInt8} (hc : c ∈ (s ++ t).head?) : c ∈ s := by
  rw [List.head?_append_of_ne_nil _ hs] at hc
  exact List.mem_of_mem_head? hc

/-! ## Headers -/

/-- The text of the headers, up to the last character of the empty line, which is overwritten. -/
def header_text (hs : List mg_header) : Bytes :=
  (hs.map Message.header_line).flatMap (· ++ crlf) ++ [chr '\r']

/-- The text of the headers, behind the line end before it, is read back. -/
theorem parse_http_headers_loop_printed {hs : List mg_header} {room : ℕ}
    (hroom : hs.length ≤ room)
    (hnames : ∀ h ∈ hs, h.name ≠ [] ∧ ∀ c ∈ h.name, Plain c ∧ c ≠ chr ':')
    (hvalues : ∀ h ∈ hs, (∀ c ∈ h.value, Plain c) ∧ h.value.head? ≠ some (chr ' ')) :
    parse_http_headers_loop room ((header_text hs).dropWhile (· ∈ bytes "\r\n")) = hs := by
  induction hs generalizing room with
  | nil =>
    have hnone : (header_text []).dropWhile (· ∈ bytes "\r\n") = [] := by decide
    rw [hnone]
    cases room with
    | zero => rfl
    | succ room => rfl
  | cons h hs ih =>
    obtain ⟨room, rfl⟩ : ∃ n, room = n + 1 := ⟨room - 1, by rw [List.length_cons] at hroom; omega⟩
    obtain ⟨⟨hname, hname_plain⟩, hnames⟩ := List.forall_mem_cons.mp hnames
    obtain ⟨⟨hvalue_plain, hvalue⟩, hvalues⟩ := List.forall_mem_cons.mp hvalues
    have htext : header_text (h :: hs) = h.name ++ chr ':' :: chr ' ' ::
        (h.value ++ chr '\r' :: chr '\n' :: header_text hs) := by
      simp [header_text, Message.header_line, crlf, bytes, chr]
    have hstart : (header_text (h :: hs)).dropWhile (· ∈ bytes "\r\n") = header_text (h :: hs) := by
      rw [htext]
      exact dropWhile_of_head fun c hc =>
        decide_eq_false (hname_plain c (mem_of_head hname hc)).1.notMem
    have hskip_name := skip_quoted_append
      (fun c hc => mem_colon.not.mpr (hname_plain c hc).2) (mem_colon.mpr rfl) (bytes " ")
      (chr ' ' :: (h.value ++ chr '\r' :: chr '\n' :: header_text hs))
    -- The blank behind the colon is skipped, and the value does not begin with one.
    have hblank : (chr ' ' :: (h.value ++ chr '\r' :: chr '\n' :: header_text hs)).dropWhile
        (· ∈ bytes " ") = h.value ++ chr '\r' :: chr '\n' :: header_text hs := by
      rw [List.dropWhile_cons_of_pos (by simp [mem_blank])]
      refine dropWhile_of_head fun c hc => decide_eq_false (mem_blank.not.mpr ?_)
      rintro rfl
      rw [List.head?_append, Option.mem_def, Option.or_eq_some_iff] at hc
      rcases hc with hc | ⟨-, hc⟩
      · exact hvalue hc
      · exact absurd (Option.some.inj hc) (by decide)
    have hskip_value : skip (h.value ++ chr '\r' :: chr '\n' :: header_text hs) (bytes "\r\n") =
        (h.value, (header_text hs).dropWhile (· ∈ bytes "\r\n")) := by
      refine (skip_quoted_append (fun c hc => (hvalue_plain c hc).notMem)
        (mem_line_end.mpr (.inl rfl)) _ _).trans ?_
      rw [List.dropWhile_cons_of_pos (by simp [mem_line_end])]
    rw [hblank] at hskip_name
    rw [hstart, htext, parse_http_headers_loop, hskip_name]
    simp only
    rw [hskip_value]
    simp only
    rw [if_neg hname, ih (by simpa using hroom) hnames hvalues]

/-! ## The request -/

namespace Message

variable (m : Message)

/-- What is printed, without its last character. -/
def text : Bytes := m.request_line ++ crlf ++ header_text m.http_headers

/-- The last character is the one that the server overwrites. -/
theorem print_eq : m.print = m.text ++ [chr '\n'] := by
  simp [print, text, lines, header_text, crlf, bytes, chr]

/-- The methods are words. -/
theorem method_plain : m.request_method ≠ [] ∧
    ∀ c ∈ m.request_method, Plain c ∧ c ≠ chr ' ' ∧ isspace c = false := by
  have hmethod := m.method
  unfold is_valid_http_method at hmethod
  rw [decide_eq_true_iff] at hmethod
  rcases hmethod with h | h | h | h <;> rw [h] <;> decide

/-- The version is a word too. -/
theorem version_plain : ∀ c ∈ bytes "HTTP/" ++ m.version, Plain c := by
  rcases m.version_known with h | h <;> rw [h] <;> decide

/-- Every line has a character, and only plain ones. -/
theorem line_plain : ∀ line ∈ m.lines, line ≠ [] ∧ ∀ c ∈ line, Plain c := by
  have hblank : Plain (chr ' ') := by decide
  have hcolon : Plain (chr ':') := by decide
  intro line h
  rcases List.mem_cons.mp h with rfl | h
  · obtain ⟨hmethod, hplain⟩ := m.method_plain
    refine ⟨by simp [request_line], fun c hc => ?_⟩
    simp only [request_line, List.append_assoc, List.cons_append, List.mem_append,
      List.mem_cons] at hc
    rcases hc with hc | rfl | hc | rfl | hc
    · exact (hplain c hc).1
    · exact hblank
    · exact (m.uri_plain c hc).1
    · exact hblank
    · exact m.version_plain c (List.mem_append.mpr hc)
  · obtain ⟨header, hmem, rfl⟩ := List.mem_map.mp h
    refine ⟨by simp [header_line], fun c hc => ?_⟩
    simp only [header_line, List.mem_append, List.mem_cons] at hc
    rcases hc with hc | rfl | rfl | hc
    · exact ((m.names header hmem).2 c hc).1
    · exact hcolon
    · exact hblank
    · exact (m.values header hmem).1 c hc

/-- The characters of what is printed. -/
theorem print_plain {c : UInt8} (hc : c ∈ m.print) : is_control c = false := by
  have hcrlf : ∀ c ∈ crlf, is_control c = false := by decide
  rcases List.mem_append.mp hc with hc | hc
  · obtain ⟨line, hline, hc⟩ := List.mem_flatMap.mp hc
    rcases List.mem_append.mp hc with hc | hc
    · exact ((m.line_plain line hline).2 c hc).1
    · exact hcrlf c hc
  · exact hcrlf c hc

/-- The parser reads what was printed. -/
theorem parse_printed (local_addr remote_addr : InAddr) :
    parse_http_request m.text local_addr remote_addr = some (m.info local_addr remote_addr) ∧
      http_version m.text = m.version := by
  obtain ⟨hmethod, hmethod_plain⟩ := m.method_plain
  set version := bytes "HTTP/" ++ m.version with hversion
  set headers := chr '\n' :: header_text m.http_headers with hheaders
  have htext : m.text = m.request_method ++ chr ' ' :: (m.uri ++ chr ' ' ::
      (version ++ chr '\r' :: headers)) := by
    simp [text, request_line, hversion, hheaders, crlf, bytes, chr]
  -- No word begins with a blank, so that nothing else is skipped.
  have hstart : m.text.dropWhile isspace = m.text := by
    rw [htext]
    exact dropWhile_of_head fun c hc => (hmethod_plain c (mem_of_head hmethod hc)).2.2
  have hskip_method : skip m.text (bytes " ") =
      (m.request_method, m.uri ++ chr ' ' :: (version ++ chr '\r' :: headers)) := by
    rw [htext]
    refine (skip_quoted_append (fun c hc => mem_blank.not.mpr (hmethod_plain c hc).2.1)
      (mem_blank.mpr rfl) _ _).trans ?_
    rw [dropWhile_of_head fun c hc => decide_eq_false (mem_blank.not.mpr
      (m.uri_plain c (mem_of_head m.uri_ne_nil hc)).2)]
  have hskip_uri : skip (m.uri ++ chr ' ' :: (version ++ chr '\r' :: headers)) (bytes " ") =
      (m.uri, version ++ chr '\r' :: headers) := by
    refine (skip_quoted_append (fun c hc => mem_blank.not.mpr (m.uri_plain c hc).2)
      (mem_blank.mpr rfl) _ _).trans ?_
    rw [dropWhile_of_head]
    intro c hc
    cases hc
    decide
  have hskip_version : skip (version ++ chr '\r' :: headers) (bytes "\r\n") =
      (version, (header_text m.http_headers).dropWhile (· ∈ bytes "\r\n")) := by
    refine (skip_quoted_append (fun c hc => (m.version_plain c hc).notMem)
      (mem_line_end.mpr (.inl rfl)) _ _).trans ?_
    rw [hheaders, List.dropWhile_cons_of_pos (by simp [mem_line_end])]
  have hvalid : strncmp_eq version (bytes "HTTP/") 5 = true := by
    rcases m.version_known with h | h <;> rw [hversion, h] <;> decide
  constructor
  · unfold parse_http_request
    simp only [hstart, hskip_method, hskip_uri, hskip_version]
    rw [if_pos ⟨m.method, hvalid⟩, parse_http_headers,
      parse_http_headers_loop_printed m.few m.names m.values]
    rfl
  · unfold http_version
    simp only [hstart, hskip_method, hskip_uri, hskip_version]
    rcases m.version_known with h | h <;> rw [hversion, h] <;> rfl

end Message

/-! ## The end of the head -/

/-- The head does not end within a line. -/
theorem head_length_line {w : Bytes} (hw : chr '\n' ∉ w) (s : Bytes) :
    head_length (w ++ s) = (head_length s).map (· + w.length) := by
  induction w with
  | nil => simp
  | cons c w ih =>
    obtain ⟨hc, hw⟩ := not_or.mp (List.mem_cons.not.mp hw)
    rw [List.cons_append, head_length_cons (Ne.symm hc), ih hw, Option.map_map]
    rfl

/-- The head does not end in front of a line. -/
theorem head_length_lf {c : UInt8} (hc : Plain c) (s : Bytes) :
    head_length (chr '\n' :: c :: s) = (head_length (c :: s)).map (· + 1) := by
  have h₂ : ¬bytes "\n\n" <+: chr '\n' :: c :: s := fun h =>
    hc.2.2 (Option.some.inj (begins_lf_lf.mp h).2)
  have h₃ : ¬bytes "\n\r\n" <+: chr '\n' :: c :: s := fun h =>
    hc.2.1 (begins_lf_cr_lf.mp h).2.1
  rw [head_length, if_neg h₂, if_neg h₃]

/-- It does not end in a line, up to the line feed. -/
theorem head_length_plain_line {line : Bytes} (hplain : ∀ c ∈ line, Plain c) (s : Bytes) :
    head_length (line ++ crlf ++ s) =
      (head_length (chr '\n' :: s)).map (· + (line.length + 1)) := by
  have hlf : chr '\n' ∉ line ++ [chr '\r'] := by
    intro hmem
    rcases List.mem_append.mp hmem with hmem | hmem
    · exact (hplain _ hmem).2.2 rfl
    · exact absurd (List.mem_singleton.mp hmem) (by decide)
  have htext : line ++ crlf ++ s = (line ++ [chr '\r']) ++ chr '\n' :: s := by
    simp [crlf, bytes, chr]
  rw [htext, head_length_line hlf, List.length_append, List.length_singleton]

/-- The head ends behind the lines, at the empty one. -/
theorem head_length_lines {lines : List Bytes}
    (h : ∀ line ∈ lines, line ≠ [] ∧ ∀ c ∈ line, Plain c) (s : Bytes) :
    head_length (chr '\n' :: (lines.flatMap (· ++ crlf) ++ crlf ++ s)) =
      some ((lines.flatMap (· ++ crlf) ++ crlf).length + 1) := by
  induction lines with
  | nil =>
    have hcr : ¬bytes "\n\n" <+: chr '\n' :: (crlf ++ s) := fun h =>
      absurd (Option.some.inj (begins_lf_lf.mp h).2) (by decide)
    have hend : bytes "\n\r\n" <+: chr '\n' :: (crlf ++ s) :=
      List.prefix_append (bytes "\n\r\n") s
    show head_length (chr '\n' :: (crlf ++ s)) = _
    rw [head_length, if_neg hcr, if_pos hend]
    rfl
  | cons line lines ih =>
    obtain ⟨⟨hne, hplain⟩, hlines⟩ := List.forall_mem_cons.mp h
    have htext : (line :: lines).flatMap (· ++ crlf) ++ crlf ++ s =
        line ++ crlf ++ (lines.flatMap (· ++ crlf) ++ crlf ++ s) := by
      simp only [List.flatMap_cons, List.append_assoc]
    have hfirst : head_length (chr '\n' :: (line ++ crlf ++
        (lines.flatMap (· ++ crlf) ++ crlf ++ s))) =
        (head_length (line ++ crlf ++ (lines.flatMap (· ++ crlf) ++ crlf ++ s))).map (· + 1) := by
      obtain ⟨c, rest, rfl⟩ := List.exists_cons_of_ne_nil hne
      exact head_length_lf (hplain c (List.mem_cons_self ..)) _
    have hcrlf : crlf.length = 2 := rfl
    rw [htext, hfirst, head_length_plain_line hplain, ih hlines]
    simp only [Option.map_some, Option.some.injEq, List.flatMap_cons, List.length_append, hcrlf]
    omega

/-- The head of a printed request is all that was printed. -/
theorem Message.head_length_print (m : Message) (body : Bytes) :
    head_length (m.print ++ body) = some m.print.length := by
  obtain ⟨hfirst, hlines⟩ := List.forall_mem_cons.mp m.line_plain
  have htext : m.print ++ body = m.request_line ++ crlf ++
      ((m.http_headers.map header_line).flatMap (· ++ crlf) ++ crlf ++ body) := by
    simp only [print, lines, List.flatMap_cons, List.append_assoc]
  have hcrlf : crlf.length = 2 := rfl
  rw [htext, head_length_plain_line hfirst.2, head_length_lines hlines]
  simp only [print, lines, Option.map_some, Option.some.injEq, List.flatMap_cons,
    List.length_append, hcrlf]
  omega

/-! ## The round trip -/

/-- The value of a digit. -/
theorem digit_value {d : Char} (hd : d.isDigit = true) :
    (UInt8.ofNat d.toNat - chr '0').toNat = d.toNat - '0'.toNat := by
  simp only [Char.isDigit, Bool.and_eq_true, decide_eq_true_eq, ge_iff_le,
    UInt32.le_iff_toNat_le] at hd
  have h0 : ('0' : Char).val.toNat = 48 := rfl
  have h9 : ('9' : Char).val.toNat = 57 := rfl
  have hn : d.toNat = d.val.toNat := rfl
  have hs : UInt8.size = 256 := rfl
  have hzero : (chr '0').toNat = 48 := rfl
  have hv : (UInt8.ofNat d.toNat).toNat = d.toNat := UInt8.toNat_ofNat_of_lt' (by omega)
  rw [UInt8.toNat_sub_of_le, hv, hzero]
  · rfl
  · rw [UInt8.le_iff_toNat_le, hv, hzero]
    omega

/-- A digit is no white space. -/
theorem isspace_of_isdigit {c : UInt8} (hc : isdigit c = true) : isspace c = false := by
  simp only [isdigit, Bool.and_eq_true, decide_eq_true_eq, UInt8.le_iff_toNat_le] at hc
  have h30 : (0x30 : UInt8).toNat = 48 := rfl
  have h0d : (0x0d : UInt8).toNat = 13 := rfl
  unfold isspace
  rw [Bool.or_eq_false_iff, Bool.and_eq_false_iff]
  refine ⟨decide_eq_false fun heq => ?_, .inr (decide_eq_false fun hle => ?_)⟩
  · rw [heq] at hc
    exact absurd hc.1 (by decide)
  · rw [UInt8.le_iff_toNat_le] at hle
    omega

/-- The decimal digits of a number are read back. -/
theorem strtoll_dec {n : ℕ} (hn : (n : ℤ) ≤ LLONG_MAX) : strtoll (dec n) = n := by
  have hdigits : (dec n).takeWhile isdigit = dec n :=
    List.takeWhile_eq_self_iff.mpr fun c hc => isdigit_of_mem_dec hc
  have hvalue : (dec n).foldl (fun n c => 10 * n + (c - chr '0').toNat) 0 = n := by
    rw [dec, List.foldl_map]
    refine Eq.trans ?_ Nat.ofDigitChars_ten_toDigits
    refine List.foldl_ext _ _ _ fun m d hd => ?_
    rw [digit_value (Nat.isDigit_of_mem_toDigits (by decide) (by decide) hd)]
  -- The number has a first digit, which is no white space and no sign.
  have hne : dec n ≠ [] := by simp [dec, Nat.toDigits_ne_nil]
  obtain ⟨c, rest, hdec⟩ := List.exists_cons_of_ne_nil hne
  have hc : isdigit c = true := isdigit_of_mem_dec (n := n) (hdec ▸ List.mem_cons_self ..)
  have hspace : (dec n).dropWhile isspace = dec n := by
    refine dropWhile_of_head fun d hd => ?_
    rw [hdec] at hd
    cases hd
    exact isspace_of_isdigit hc
  have hminus : c ≠ chr '-' := by
    rintro rfl
    exact absurd hc (by decide)
  have hplus : c ≠ chr '+' := by
    rintro rfl
    exact absurd hc (by decide)
  unfold strtoll
  simp only [hspace]
  rw [hdec]
  simp only
  rw [if_neg hminus, if_neg hplus, ← hdec, hdigits, hvalue, min_eq_left hn]

/-- The head of a printed request arrives, however the bytes are cut. -/
theorem Message.head_arrives {m : Message} (hfits : m.print.length ≤ MAX_REQUEST_SIZE)
    {pending : List Bytes} {body : Bytes} (harrives : pending.flatten = m.print ++ body) :
    HeadArrives MAX_REQUEST_SIZE pending m.print.length := by
  refine ⟨?_, fun k hlt => ?_⟩
  · exact head_length_take_of_le (harrives ▸ m.head_length_print body) hfits
  · -- Nothing that was printed is a control character.
    intro c hc
    refine m.print_plain ?_
    have hpart : (pending.take k).flatten <+: m.print := by
      refine List.prefix_of_prefix_length_le ?_ (List.prefix_append m.print body) hlt.le
      rw [← harrives, ← take_flatten k]
      exact List.take_prefix ..
    exact hpart.subset (List.dropLast_subset _ hc)

/-- A printed request that has arrived is handled, with the length of its body and the body. -/
theorem Message.process_request_eq (m : Message) (body : Bytes) (local_addr remote_addr : InAddr)
    {content : Option ℕ} (hsmall : ∀ n ∈ content, (n : ℤ) ≤ LLONG_MAX)
    (hcontent : get_header (m.info local_addr remote_addr) (bytes "Content-Length") =
      content.map dec) :
    (process_request local_addr remote_addr m.print.length (m.print ++ body) [] : Server W Unit) =
      handle_request
        { content_len := (content.map fun n => (n : ℤ)).getD (-1), consumed_content := 0,
          buffered := body, pending := [] } (m.info local_addr remote_addr) := by
  have hzero : (0 : UInt8) ∉ m.text := fun hmem => by
    have hplain : is_control 0 = false :=
      m.print_plain (m.print_eq ▸ List.mem_append_left _ hmem)
    exact absurd hplain (by decide)
  have htext : cstr ((m.print ++ body).take (m.print.length - 1)) = m.text := by
    have hlength : m.print.length - 1 = m.text.length := by
      rw [m.print_eq, List.length_append, List.length_singleton, Nat.add_sub_cancel]
    rw [hlength, m.print_eq, List.append_assoc, List.take_left, cstr_of_notMem hzero]
  obtain ⟨hparse, hversion⟩ := m.parse_printed local_addr remote_addr
  have hknown : ¬(http_version m.text ≠ bytes "1.0" ∧ http_version m.text ≠ bytes "1.1") := by
    rw [hversion]
    rintro ⟨h₀, h₁⟩
    exact m.version_known.elim h₀ h₁
  unfold process_request
  simp only [htext, hparse]
  rw [if_neg hknown, List.drop_left]
  unfold process_valid_request
  simp only [hcontent]
  cases content with
  | none => rfl
  | some n =>
    have hread := strtoll_dec (hsmall n rfl)
    simp only [Option.map_some, Option.getD_some, hread]
    exact if_neg fun h => absurd h.2 (by omega)

/-- **What a client prints the server reads.** A printed request that fits into the buffer is
handled, with the method, the URI and the headers that were printed and with the body behind it,
however the bytes are cut into segments. `content` is the length that its `Content-Length` header
announces, if it has one. -/
theorem message_round_trip {m : Message} (hfits : m.print.length ≤ MAX_REQUEST_SIZE)
    {pending : List Bytes} (hlive : Live pending) {body : Bytes}
    (harrives : pending.flatten = m.print ++ body) (local_addr remote_addr : InAddr)
    {content : Option ℕ} (hsmall : ∀ n ∈ content, (n : ℤ) ≤ LLONG_MAX)
    (hcontent : get_header (m.info local_addr remote_addr) (bytes "Content-Length") =
      content.map dec) :
    (process_new_connection local_addr remote_addr pending : Server W Unit) =
      handle_request
        { content_len := (content.map fun n => (n : ℤ)).getD (-1), consumed_content := 0,
          buffered := body, pending := [] } (m.info local_addr remote_addr) := by
  rw [process_new_connection_arrives hlive (m.head_arrives hfits harrives), harrives,
    m.process_request_eq body local_addr remote_addr hsmall hcontent]

/-- A client that starts YouTube with a parameter. -/
def start_message : Message where
  request_method := bytes "POST"
  uri := bytes "/apps/YouTube"
  version := bytes "1.1"
  http_headers := [⟨bytes "Content-Length", bytes "3"⟩]
  method := by decide
  uri_ne_nil := by decide
  uri_plain := by decide
  version_known := by decide
  names := by decide
  values := by decide
  few := by decide

/-- Its request, cut in the middle of a header. -/
theorem message_round_trip_start :
    (process_new_connection ⟨10, 0, 0, 1⟩ ⟨10, 0, 0, 2⟩
      [bytes "POST /apps/YouTube HTTP/1.1\r\nContent-Le", bytes "ngth: 3\r\n\r\nv=1"] :
      Server Unit Unit) =
    handle_request
      { content_len := 3, consumed_content := 0, buffered := bytes "v=1", pending := [] }
      (start_message.info ⟨10, 0, 0, 1⟩ ⟨10, 0, 0, 2⟩) := by
  refine @message_round_trip _ start_message (by decide) _ ?_ (bytes "v=1") rfl _ _
    (some 3) (by decide) rfl
  simp [Live, bytes]

end DialServer
