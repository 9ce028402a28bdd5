import DialServer.Incoming.Arrival
import DialServer.Router.Answers

/-!
# What becomes of a connection

Whatever arrives on a connection, in whatever segments and with whatever failures, the connection is
closed without an answer, or it is refused by the web server with one complete response, or a
request that the parser has understood is handed to the DIAL server.
-/

namespace DialServer

open CLib Program

variable {W : Type}

/-- The errors of the web server. -/
def connection_errors : List (ℕ × String) :=
  [(413, "Request Too Large"), (400, "Bad Request"), (505, "HTTP version not supported"),
    (500, "Internal Server Error")]

/-- They have a body, their reason is one line, and there is room for it. -/
theorem connection_errors_fit : ∀ error ∈ connection_errors,
    (error.1 > 199 ∧ error.1 ≠ 204 ∧ error.1 ≠ 304) ∧ chr '\r' ∉ bytes error.2 ∧
      (http_error_head error.1 (bytes error.2) 0).length < BUFSIZ - 4 := by
  decide

/-- The body of an error fits into the buffer of `mg_printf`, and begins with an `E`. -/
theorem http_error_body_fits {status : ℕ} (hstatus : status > 199 ∧ status ≠ 204 ∧ status ≠ 304)
    (reason fmt : Bytes) : (http_error_body status reason fmt).length < BUFSIZ ∧
      (http_error_body status reason fmt).head? = some (chr 'E') := by
  unfold http_error_body
  rw [if_pos hstatus]
  set line := mg_vsnprintf REASON_SIZ (bytes "Error " ++ dec status ++ bytes ": " ++ reason)
    with hline
  have hlength : line.length ≤ REASON_SIZ - 1 := List.length_take_le ..
  have hreason : REASON_SIZ = 2048 := rfl
  have hbuf : BUFSIZ = 8192 := rfl
  constructor
  · simp only [List.length_append, List.length_singleton]
    have hrest : (mg_vsnprintf (BUFSIZ - (line.length + 1)) fmt).length ≤ _ :=
      List.length_take_le ..
    omega
  · rfl

/-- A number has no line end. -/
theorem cr_notMem_dec (n : ℕ) : chr '\r' ∉ dec n := fun hmem =>
  absurd (isdigit_of_mem_dec hmem) (by decide)

/-- The head of an error and a body that does not look like another response. -/
theorem answered_head_body {reason : Bytes} (hreason : chr '\r' ∉ reason) {body : Bytes}
    (hbody : body.head? ≠ some (chr 'H')) (status : ℕ) (origin : Option Bytes) :
    Answered origin [http_error_head status reason body.length, body] := by
  set status_line := bytes "HTTP/1.1 " ++ dec status ++ bytes " " ++ reason with hline
  set headers := [bytes "Content-Type: text/plain", bytes "Content-Length: " ++ dec body.length,
    bytes "Connection: close"] with hheaders
  have hhead : http_error_head status reason body.length = message status_line headers [] := by
    simp [http_error_head, message, hline, hheaders]
  have hstatus : IsStatusLine status_line := by
    simp only [hline, List.append_assoc]
    exact List.prefix_append ..
  have hcr : chr '\r' ∉ status_line := by
    have hversion : chr '\r' ∉ bytes "HTTP/1.1 " := by decide
    have hblank : chr '\r' ∉ bytes " " := by decide
    simp only [hline, List.mem_append, not_or]
    exact ⟨⟨⟨hversion, cr_notMem_dec _⟩, hblank⟩, hreason⟩
  -- Each header is one line.
  have hlength : chr '\r' ∉ bytes "Content-Length: " ++ dec body.length := by
    have hname : chr '\r' ∉ bytes "Content-Length: " := by decide
    rw [List.mem_append, not_or]
    exact ⟨hname, cr_notMem_dec _⟩
  have hlines : headers.flatMap http_lines = headers := by
    have htype : http_lines (bytes "Content-Type: text/plain") =
        [bytes "Content-Type: text/plain"] := lines_of_notMem (by decide)
    have hclose : http_lines (bytes "Connection: close") = [bytes "Connection: close"] :=
      lines_of_notMem (by decide)
    simp only [hheaders, List.flatMap_cons, List.flatMap_nil, htype, hclose]
    rw [http_lines, lines_of_notMem hlength]
    rfl
  refine ⟨⟨_, _, rfl, ?_, ?_⟩, ?_⟩
  · rw [hhead]
    exact isStatusLine_message hstatus _ _
  · simpa using not_isStatusLine hbody
  · have hflatten : [http_error_head status reason body.length, body].flatten =
        message status_line headers body := by
      rw [hhead]
      simp [message]
    rw [hflatten, complete_message_iff hcr hstatus, hlines]
    intro line hmem
    have hmem := List.takeWhile_subset _ hmem
    simp only [hheaders, List.mem_cons, List.not_mem_nil, or_false] at hmem
    rcases hmem with rfl | rfl | rfl
    · exact @allowedLine_header (bytes "Content-Type") (by decide) (by decide) (by decide)
        (bytes "text/plain") origin
    · exact @allowedLine_header (bytes "Content-Length") (by decide) (by decide) (by decide)
        (dec body.length) origin
    · exact @allowedLine_header (bytes "Connection") (by decide) (by decide) (by decide)
        (bytes "close") origin

/-- What `mg_send_http_error` writes is one complete response to any request, and the length that it
announces is the length of the body that it sends, whatever the text of the body is. -/
theorem answered_connection_error {status : ℕ} {reason : String}
    (h : (status, reason) ∈ connection_errors) (fmt : Bytes) (origin : Option Bytes)
    (s : System W) :
    ∃ e body, mg_send_http_error status (bytes reason) fmt s = some ((), e, s) ∧
      texts e = [http_error_head status (bytes reason) body.length, body] ∧
      Answered origin (texts e) := by
  obtain ⟨hstatus, hreason, hroom⟩ := connection_errors_fit _ h
  simp only at hstatus hreason hroom
  obtain ⟨hbody, hfirst⟩ := http_error_body_fits hstatus (bytes reason) fmt
  set body := http_error_body status (bytes reason) fmt with hbody_eq
  have hhead : (http_error_head status (bytes reason) body.length).length < BUFSIZ := by
    -- Only the digits of the length differ from the head of an empty body.
    have hdigits : (dec body.length).length ≤ 4 :=
      dec_length_le (by decide) (hbody.trans (by decide))
    have hempty : (dec 0).length = 1 := rfl
    simp only [http_error_head, List.length_append, hempty] at hroom ⊢
    omega
  have htexts : texts [.write (mg_printf (http_error_head status (bytes reason) body.length)),
      .write (mg_printf body)] = [http_error_head status (bytes reason) body.length, body] := by
    have huncut {text : Bytes} (hfits : text.length < BUFSIZ) : mg_printf text = text :=
      List.take_of_length_le (by omega)
    rw [huncut hhead, huncut hbody]
    rfl
  refine ⟨_, body, rfl, htexts, htexts ▸ ?_⟩
  exact answered_head_body hreason (by rw [hfirst]; decide) status origin

/-- What `read_request` asserts of its result, even when a `recv` fails. -/
theorem read_request_bounds {size : ℕ} {buf : Bytes} {pending : List Bytes}
    (hbuf : buf.length ≤ size) : (read_request size buf pending).1 ≤
      (read_request size buf pending).2.1.length ∧
      (read_request size buf pending).2.1.length ≤ size := by
  fun_induction read_request size buf pending with
  | case1 buf pending hroom rest hread => exact ⟨Int.natCast_nonneg _, hbuf⟩
  | case2 buf pending hroom c read rest hread len hlen ih =>
    refine ih ?_
    have hlength := length_recv_le pending (size - buf.length)
    unfold pull at hread
    rw [hread] at hlength
    simp only [List.length_append] at hlength ⊢
    omega
  | case3 buf pending hroom c read rest hread len hlen =>
    refine ⟨get_request_len_le _, ?_⟩
    have hlength := length_recv_le pending (size - buf.length)
    unfold pull at hread
    rw [hread] at hlength
    simp only [List.length_append] at hlength ⊢
    omega
  | case4 buf pending hfull => exact ⟨Int.natCast_nonneg _, hbuf⟩

/-- The connection is refused with `error`: what is written is one complete response to any request,
its length is announced, and the DIAL server does not come to know of the connection. -/
def RefusedWith (error : ℕ × String) (p : Server W Unit) : Prop :=
  ∀ (origin : Option Bytes) (s : System W), ∃ e body, p s = some ((), e, s) ∧
    texts e = [http_error_head error.1 (bytes error.2) body.length, body] ∧
    Answered origin (texts e)

/-- What the code comes to with a connection: the end of the function, one of the errors, or the
handler. -/
theorem serve_connection_cases (local_addr : Option InAddr) (remote_addr : InAddr)
    (pending : List Bytes) :
    (serve_connection local_addr remote_addr pending : Server W Unit) = pure () ∨
    (∃ error ∈ connection_errors, ∃ fmt,
      (serve_connection local_addr remote_addr pending : Server W Unit) =
        mg_send_http_error error.1 (bytes error.2) fmt) ∨
    ∃ conn ri, Parsed ri ∧ conn.Readable ∧
      (serve_connection local_addr remote_addr pending : Server W Unit) =
        handle_request conn ri := by
  have hbounds := @read_request_bounds MAX_REQUEST_SIZE [] pending (Nat.zero_le _)
  cases local_addr with
  | none => exact .inr (.inl ⟨(500, "Internal Server Error"), by decide, _, rfl⟩)
  | some local_addr =>
  simp only [serve_connection]
  unfold process_new_connection
  generalize read_request MAX_REQUEST_SIZE [] pending = r at hbounds
  obtain ⟨request_len, buf, rest⟩ := r
  simp only at hbounds ⊢
  split_ifs with hlarge hclosed
  · exact .inr (.inl ⟨(413, "Request Too Large"), by decide, _, rfl⟩)
  · exact .inl rfl
  unfold process_request
  simp only
  have htext : (cstr (buf.take (request_len.toNat - 1))).length < MAX_REQUEST_SIZE := by
    have hcstr := (List.takeWhile_sublist (· ≠ 0) (l := buf.take (request_len.toNat - 1))).length_le
    rw [List.length_take] at hcstr
    unfold cstr
    omega
  cases hparse : parse_http_request (cstr (buf.take (request_len.toNat - 1))) local_addr
    remote_addr with
  | none => exact .inr (.inl ⟨(400, "Bad Request"), by decide, _, rfl⟩)
  | some ri =>
    simp only
    have hparsed := parsed_of_parse_http_request htext hparse
    split_ifs with hversion
    · exact .inr (.inl ⟨(505, "HTTP version not supported"), by decide, _, rfl⟩)
    unfold process_valid_request
    simp only
    split_ifs with hlength
    · exact .inr (.inl ⟨(400, "Bad Request"), by decide, _, rfl⟩)
    -- What is handed on has no length, or one that is not negative.
    refine .inr (.inr ⟨_, ri, hparsed, ?_, rfl⟩)
    unfold mg_connection.Readable
    simp only
    cases hcl : get_header ri (bytes "Content-Length") with
    | none => exact .inl ⟨rfl, trivial⟩
    | some cl =>
      rw [hcl] at hlength
      refine .inr ?_
      simp only [ne_eq, reduceCtorEq, not_false_eq_true, true_and, not_lt] at hlength
      exact hlength

/-- **Every connection is closed, refused or handed on.** Whatever arrives on it, the connection is
closed without an answer, or it is refused with one of the errors of the web server in one complete
response, or the request that it brings has been parsed and is handed to the DIAL server with a body
that `mg_read` can read. -/
theorem connection_outcomes (local_addr : Option InAddr) (remote_addr : InAddr)
    (pending : List Bytes) :
    (serve_connection local_addr remote_addr pending : Server W Unit) = pure () ∨
    (∃ error ∈ connection_errors,
      RefusedWith error (serve_connection local_addr remote_addr pending : Server W Unit)) ∨
    ∃ conn ri, Parsed ri ∧ conn.Readable ∧
      (serve_connection local_addr remote_addr pending : Server W Unit) =
        handle_request conn ri := by
  rcases serve_connection_cases (W := W) local_addr remote_addr pending with
    hclosed | ⟨error, herror, fmt, hrefused⟩ | hhanded
  · exact .inl hclosed
  · refine .inr (.inl ⟨error, herror, fun origin s => ?_⟩)
    rw [hrefused]
    exact answered_connection_error herror fmt origin s
  · exact .inr (.inr hhanded)

end DialServer
