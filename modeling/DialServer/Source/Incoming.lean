import DialServer.Base.Segments
import DialServer.Source.Router

/-!
# Incoming connections

What `mongoose.c` does with a connection that a worker has taken out of the queue: it reads until
the buffer has a whole request, parses it, looks at the version and the length of the body, hands
the request to the server, and reads what the server has left of the body. What the socket delivers
is a list of segments, one for a `recv`; an empty segment is a `recv` that fails or finds the end.
-/

namespace DialServer

open CLib

/-- A character that `get_request_len` does not allow: `isprint`, in the C locale, is false of it,
and it is no line end and below 128. -/
def is_control (c : UInt8) : Bool :=
  !(0x20 ≤ c && c ≤ 0x7e) && c ≠ chr '\r' && c ≠ chr '\n' && c < 128

/-- The loop of `get_request_len` from the character at `pos`, as long as `len` is not positive. -/
def get_request_len_loop (len : ℤ) (pos : ℕ) : Bytes → ℤ
  | c :: d :: buf =>
    if is_control c then get_request_len_loop (-1) (pos + 1) (d :: buf)
    else if c = chr '\n' ∧ d = chr '\n' then pos + 2
    else if c = chr '\n' ∧ d = chr '\r' ∧ buf.head? = some (chr '\n') then pos + 3
    else get_request_len_loop len (pos + 1) (d :: buf)
  | _ => len                                            -- the last character is not looked at

/-- `get_request_len`. -/
def get_request_len (buf : Bytes) : ℤ := get_request_len_loop 0 0 buf

/-- `pull`. -/
def pull (pending : List Bytes) (len : ℕ) : Bytes × List Bytes := recv pending len

/-- `read_request`, when no request has been found in the buffer: its result, the buffer, and what
the socket will still deliver. -/
def read_request (bufsiz : ℕ) (buf : Bytes) (pending : List Bytes) : ℤ × Bytes × List Bytes :=
  if buf.length < bufsiz then
    match pull pending (bufsiz - buf.length) with
    | ([], pending) => (0, buf, pending)                -- n <= 0
    | (c :: read, pending) =>
      let request_len := get_request_len (buf ++ c :: read)
      if request_len = 0 then read_request bufsiz (buf ++ c :: read) pending
      else (request_len, buf ++ c :: read, pending)
  else (0, buf, pending)
termination_by bufsiz - buf.length
decreasing_by
  simp only [List.length_append, List.length_cons]
  omega

/-- `LLONG_MAX`. -/
def LLONG_MAX : ℤ := 2 ^ 63 - 1

/-- `strtoll` to the base 10. -/
def strtoll (s : Bytes) : ℤ :=
  let s := s.dropWhile isspace
  let number (s : Bytes) : ℤ :=
    ((s.takeWhile isdigit).foldl (fun n c => 10 * n + (c - chr '0').toNat) 0 : ℕ)
  match s with
  | [] => 0
  | c :: rest =>
    if c = chr '-' then max (-number rest) (-LLONG_MAX - 1)
    else if c = chr '+' then min (number rest) LLONG_MAX
    else min (number s) LLONG_MAX

/-- `ri->http_version` behind `HTTP/`, as `parse_http_request` leaves it. -/
def http_version (buf : Bytes) : Bytes :=
  let buf := buf.dropWhile isspace
  let (_, buf) := skip buf (bytes " ")
  let (_, buf) := skip buf (bytes " ")
  (skip buf (bytes "\r\n")).1.drop 5

/-- The text in the buffer after `parse_http_request`, which has put a terminator behind the
method. -/
def parsed_text (buf : Bytes) : Bytes :=
  buf.takeWhile isspace ++ (skip (buf.dropWhile isspace) (bytes " ")).1

variable {W : Type}

/-- The end of `process_new_connection`, for a request that has been parsed, with what has arrived
behind it and what will still arrive. -/
def process_valid_request (ri : mg_request_info) (buffered : Bytes) (pending : List Bytes) :
    Server W Unit :=
  let cl := get_header ri (bytes "Content-Length")
  let content_len := (cl.map strtoll).getD (-1)
  if cl ≠ none ∧ content_len < 0 then
    mg_send_http_error 400 (bytes "Bad Request")
      (bytes "Invalid Content-Length header value: [" ++ cl.getD [] ++ bytes "]")
  else handle_request { content_len, consumed_content := 0, buffered, pending } ri

/-- What `process_new_connection` does with the `request_len` characters of a request in front of
`buf`, the last of which it overwrites with a terminator. -/
def process_request (local_addr remote_addr : InAddr) (request_len : ℕ) (buf : Bytes)
    (pending : List Bytes) : Server W Unit :=
  let text := cstr (buf.take (request_len - 1))
  match parse_http_request text local_addr remote_addr with
  | none =>
    mg_send_http_error 400 (bytes "Bad Request")
      (bytes "Cannot parse HTTP request: [" ++ (parsed_text text).take buf.length ++ bytes "]")
  | some ri =>
    if http_version text ≠ bytes "1.0" ∧ http_version text ≠ bytes "1.1" then
      mg_send_http_error 505 (bytes "HTTP version not supported") []
    else process_valid_request ri (buf.drop request_len) pending

/-- `process_new_connection`. The buffer is empty at first, so that the request is always read. -/
def process_new_connection (local_addr remote_addr : InAddr) (pending : List Bytes) :
    Server W Unit :=
  let (request_len, buf, pending) := read_request MAX_REQUEST_SIZE [] pending
  if request_len = 0 ∧ buf.length = MAX_REQUEST_SIZE then
    mg_send_http_error 413 (bytes "Request Too Large") []
  else if request_len ≤ 0 then return ()                -- Remote end closed the connection
  else process_request local_addr remote_addr request_len.toNat buf pending

/-- The body of the loop in `worker_thread`, with the local address that `getsockname` finds. -/
def serve_connection (local_addr : Option InAddr) (remote_addr : InAddr) (pending : List Bytes) :
    Server W Unit :=
  match local_addr with
  | none => mg_send_http_error 500 (bytes "Internal Server Error") []
  | some local_addr => process_new_connection local_addr remote_addr pending

/-- The loop of `discard_current_request_from_buffer`, with `remaining` to be read. -/
def discard_loop (remaining : ℕ) (conn : mg_connection) : mg_connection :=
  if 0 < remaining then
    match mg_read conn (min remaining 16384) with
    | ([], conn) => conn                                -- count <= 0
    | (c :: read, conn) => discard_loop (remaining - (read.length + 1)) conn
  else conn
termination_by remaining

/-- `discard_current_request_from_buffer`. -/
def discard_current_request_from_buffer (conn : mg_connection) : mg_connection :=
  if conn.content_len ≠ -1 ∧ conn.consumed_content < conn.content_len then
    discard_loop (conn.content_len - conn.consumed_content).toNat conn
  else conn

end DialServer
