import DialServer.Source.Mongoose

/-!
# Parsed requests

What the web server's parser promises of the requests that it hands on. The words of a request are
pieces of a buffer of `MAX_REQUEST_SIZE` bytes, so that the URI and the value of any header together
are shorter than that; and a value is the rest of one line, without the blanks behind the colon.
-/

namespace DialServer

open CLib

/-- The value of a header as the parser leaves it: one line that does not begin with a blank. -/
structure HeaderValue (value : Bytes) : Prop where
  no_cr : chr '\r' ∉ value
  no_lf : chr '\n' ∉ value
  no_blank : value.head? ≠ some (chr ' ')

/-- What the parser promises of a request. -/
structure Parsed (ri : mg_request_info) : Prop where
  value : ∀ h ∈ ri.http_headers, HeaderValue h.value
  size : ∀ h ∈ ri.http_headers, ri.uri.length + h.value.length < MAX_REQUEST_SIZE
  uri_size : ri.uri.length < MAX_REQUEST_SIZE

/-- The word and what is left are pieces of the buffer. -/
theorem skip_quoted_length (buf delimiters whitespace : Bytes) :
    (skip_quoted buf delimiters whitespace).1.length +
      (skip_quoted buf delimiters whitespace).2.length ≤ buf.length := by
  have hsplit : (buf.takeWhile (· ∉ delimiters)).length +
      (buf.dropWhile (· ∉ delimiters)).length = buf.length := by
    rw [← List.length_append, List.takeWhile_append_dropWhile]
  unfold skip_quoted
  cases h : buf.dropWhile (· ∉ delimiters) with
  | nil =>
    rw [h] at hsplit
    simpa using hsplit.le
  | cons c rest =>
    rw [h, List.length_cons] at hsplit
    have hrest := (List.dropWhile_sublist (· ∈ whitespace) (l := rest)).length_le
    simp only
    omega

/-- The word is what stands before the first delimiter. -/
theorem skip_quoted_fst (buf delimiters whitespace : Bytes) :
    (skip_quoted buf delimiters whitespace).1 = buf.takeWhile (· ∉ delimiters) := by
  unfold skip_quoted
  cases buf.dropWhile (· ∉ delimiters) <;> rfl

/-- The word has none of the delimiters. -/
theorem skip_quoted_word {buf delimiters whitespace : Bytes} {c : UInt8}
    (hc : c ∈ (skip_quoted buf delimiters whitespace).1) : c ∉ delimiters := by
  rw [skip_quoted_fst] at hc
  simpa using List.mem_takeWhile_imp hc

/-- The word begins as the buffer does. -/
theorem skip_quoted_head {buf delimiters whitespace : Bytes} {c : UInt8}
    (hc : (skip_quoted buf delimiters whitespace).1.head? = some c) : buf.head? = some c := by
  rw [skip_quoted_fst] at hc
  obtain ⟨rest, hrest⟩ := List.takeWhile_prefix (· ∉ delimiters) (l := buf)
  rw [← hrest, List.head?_append, hc]
  rfl

/-- What is left does not begin with white space. -/
theorem skip_quoted_rest {buf delimiters whitespace : Bytes} {c : UInt8}
    (hc : c ∈ whitespace) : (skip_quoted buf delimiters whitespace).2.head? ≠ some c := by
  unfold skip_quoted
  cases buf.dropWhile (· ∉ delimiters) with
  | nil => simp
  | cons _ rest =>
    intro h
    have := List.head?_dropWhile_not (· ∈ whitespace) rest
    rw [h] at this
    simp [hc] at this

/-- A header's value is a line of the buffer. -/
theorem mem_parse_http_headers_loop {room : ℕ} {buf : Bytes} {h : mg_header}
    (hmem : h ∈ parse_http_headers_loop room buf) :
    HeaderValue h.value ∧ h.value.length ≤ buf.length := by
  induction room generalizing buf with
  | zero => simp [parse_http_headers_loop] at hmem
  | succ room ih =>
    unfold parse_http_headers_loop at hmem
    simp only at hmem
    split_ifs at hmem with hname
    · simp at hmem
    · have hname := skip_quoted_length buf (bytes ":") (bytes " ")
      have hvalue := skip_quoted_length (skip_quoted buf (bytes ":") (bytes " ")).2
        (bytes "\r\n") (bytes "\r\n")
      rcases List.mem_cons.mp hmem with rfl | hmem
      · refine ⟨⟨fun hc => ?_, fun hc => ?_, fun hc => ?_⟩, ?_⟩
        · exact skip_quoted_word hc (by decide)
        · exact skip_quoted_word hc (by decide)
        · exact skip_quoted_rest (by decide) (skip_quoted_head hc)
        · simp only [skip]
          omega
      · obtain ⟨hline, hlength⟩ := ih hmem
        refine ⟨hline, ?_⟩
        simp only [skip] at hlength
        omega

/-- The parser keeps its promise for a request that fits into the buffer. -/
theorem parsed_of_parse_http_request {buf : Bytes} (hbuf : buf.length < MAX_REQUEST_SIZE)
    {local_addr remote_addr : InAddr} {ri : mg_request_info}
    (h : parse_http_request buf local_addr remote_addr = some ri) : Parsed ri := by
  unfold parse_http_request at h
  simp only at h
  split_ifs at h with hvalid
  obtain rfl := Option.some.inj h
  -- The three words of the first line, and then the headers.
  set start := buf.dropWhile isspace with hstart
  set line := (skip start (bytes " ")).2 with hline
  set version := (skip line (bytes " ")).2 with hversion
  have hsize : (skip line (bytes " ")).1.length +
      (skip version (bytes "\r\n")).2.length < MAX_REQUEST_SIZE := by
    have h₁ : start.length ≤ buf.length := (List.dropWhile_sublist isspace).length_le
    have h₂ : (skip start (bytes " ")).1.length + line.length ≤ start.length :=
      skip_quoted_length start (bytes " ") (bytes " ")
    have h₃ : (skip line (bytes " ")).1.length + version.length ≤ line.length :=
      skip_quoted_length line (bytes " ") (bytes " ")
    have h₄ : (skip version (bytes "\r\n")).1.length + (skip version (bytes "\r\n")).2.length ≤
      version.length := skip_quoted_length version (bytes "\r\n") (bytes "\r\n")
    omega
  refine ⟨fun h hmem => (mem_parse_http_headers_loop hmem).1, fun h hmem => ?_, ?_⟩
  · have := (mem_parse_http_headers_loop hmem).2
    simp only
    omega
  · simp only
    omega

/-- The walk over the URI only removes characters. -/
theorem remove_double_dots_length (s : Bytes) :
    (remove_double_dots_and_double_slashes s).length ≤ s.length := by
  induction s using remove_double_dots_and_double_slashes.induct with
  | case1 => simp [remove_double_dots_nil]
  | case2 c s hslash ih =>
    have h₁ := skip_double_dots_length (s.dropWhile is_slash)
    have h₂ := (List.dropWhile_sublist is_slash (l := s)).length_le
    rw [remove_double_dots_cons, if_pos hslash]
    simp only [List.length_cons]
    omega
  | case3 c s hslash ih =>
    rw [remove_double_dots_cons, if_neg hslash]
    simpa using ih

/-- Decoding does not make the URI longer. -/
theorem url_decode_length (s : Bytes) : (url_decode s).length ≤ s.length := by
  induction s using url_decode.induct with
  | case1 c a b src h ih =>
    rw [url_decode, if_pos h]
    simp only [List.length_cons]
    omega
  | case2 c a b src h ih =>
    rw [url_decode, if_neg h]
    simpa using ih
  | case3 c src h ih =>
    rw [url_decode]
    · simpa using ih
    · exact h
  | case4 => simp [url_decode]

/-- The rewritings of the URI that precede the call of the handler keep the promise. -/
theorem Parsed.normalise {ri : mg_request_info} (h : Parsed ri) : Parsed (normalise ri) := by
  have hlength : (DialServer.normalise ri).uri.length ≤ ri.uri.length := by
    have hquery : (split_query ri.uri).1.length ≤ ri.uri.length := by
      unfold split_query
      cases strchr ri.uri (chr '?') with
      | none => exact le_rfl
      | some query => exact List.length_take_le' ..
    have hdecode := url_decode_length (split_query ri.uri).1
    have hcstr := (List.takeWhile_sublist (· ≠ 0)
      (l := url_decode (split_query ri.uri).1)).length_le
    have hdots := remove_double_dots_length (cstr (url_decode (split_query ri.uri).1))
    exact (hdots.trans hcstr).trans (hdecode.trans hquery)
  refine ⟨h.value, fun header hmem => ?_, ?_⟩
  · have := h.size header hmem
    omega
  · have := h.uri_size
    omega

end DialServer
