import DialServer.Source.UrlLib

/-!
# `mongoose.c`

The parts of the web server that a request passes through: the request and its connection, reading
the body, the bounded `printf`, the error responses, and the two rewritings of the URI that precede
the call of the user's handler. What a function writes to the socket is returned as text; the
socket's own failures are not modelled.
-/

namespace DialServer

open CLib

/-- `BUFSIZ` of the C library. -/
def BUFSIZ : ℕ := 8192

/-- `REASON_SIZ`. -/
def REASON_SIZ : ℕ := 2048

/-- An IPv4 address, `sin_addr`. -/
structure InAddr where
  a : UInt8
  b : UInt8
  c : UInt8
  d : UInt8
  deriving DecidableEq, Repr

/-- `inet_ntop` for `AF_INET`. -/
def inet_ntop (addr : InAddr) : Bytes :=
  dec addr.a.toNat ++ chr '.' :: dec addr.b.toNat ++ chr '.' :: dec addr.c.toNat ++
    chr '.' :: dec addr.d.toNat

/-- `struct mg_header`. -/
structure mg_header where
  name : Bytes
  value : Bytes
  deriving DecidableEq, Repr

/-- `struct mg_request_info`, of a parsed request. -/
structure mg_request_info where
  request_method : Bytes
  uri : Bytes
  query_string : Option Bytes
  local_addr : InAddr
  remote_addr : InAddr
  http_headers : List mg_header
  deriving DecidableEq, Repr

/-- The part of `struct mg_connection` that `mg_read` uses: the `Content-Length`, how much of the
body has been read, the bytes of the body that came with the headers, and what the socket will
deliver, one segment a `recv`. An empty segment is a `recv` that fails or finds the end. -/
structure mg_connection where
  content_len : ℤ
  consumed_content : ℕ
  buffered : Bytes
  pending : List Bytes
  deriving DecidableEq, Repr

/-- `MAX_REQUEST_SIZE`. -/
def MAX_REQUEST_SIZE : ℕ := 4096

/-- The size of the array `http_headers`. -/
def MAX_HEADERS : ℕ := 16

/-- `skip_quoted`: the word up to the first of the delimiters, and the text behind that delimiter
and the white space that follows it. -/
def skip_quoted (buf delimiters whitespace : Bytes) : Bytes × Bytes :=
  let begin_word := buf.takeWhile (· ∉ delimiters)
  match buf.dropWhile (· ∉ delimiters) with
  | [] => (begin_word, [])
  | _ :: rest => (begin_word, rest.dropWhile (· ∈ whitespace))

/-- `skip`. -/
def skip (buf delimiters : Bytes) : Bytes × Bytes := skip_quoted buf delimiters delimiters

/-- The loop of `parse_http_headers`, with room for `room` more headers. -/
def parse_http_headers_loop : ℕ → Bytes → List mg_header
  | 0, _ => []
  | room + 1, buf =>
    let (name, buf) := skip_quoted buf (bytes ":") (bytes " ")
    let (value, buf) := skip buf (bytes "\r\n")
    if name = [] then [] else ⟨name, value⟩ :: parse_http_headers_loop room buf

/-- `parse_http_headers`. -/
def parse_http_headers (buf : Bytes) : List mg_header := parse_http_headers_loop MAX_HEADERS buf

/-- `is_valid_http_method`. -/
def is_valid_http_method (method : Bytes) : Bool :=
  method = bytes "GET" ∨ method = bytes "POST" ∨ method = bytes "DELETE" ∨ method = bytes "OPTIONS"

/-- `parse_http_request`, on the text of a request without its last character, and with the
addresses of the connection. -/
def parse_http_request (buf : Bytes) (local_addr remote_addr : InAddr) : Option mg_request_info :=
  let buf := buf.dropWhile isspace
  let (request_method, buf) := skip buf (bytes " ")
  let (uri, buf) := skip buf (bytes " ")
  let (http_version, buf) := skip buf (bytes "\r\n")
  if is_valid_http_method request_method ∧ strncmp_eq http_version (bytes "HTTP/") 5 then
    some { request_method, uri, query_string := none, local_addr, remote_addr,
           http_headers := parse_http_headers buf }
  else none

/-- `mg_strcasecmp(s1, s2) == 0`. -/
def mg_strcasecmp_eq (s1 s2 : Bytes) : Bool := s1.map tolower = s2.map tolower

/-- `get_header`: the value of the first header of that name, without regard to case. -/
def get_header (ri : mg_request_info) (name : Bytes) : Option Bytes :=
  (ri.http_headers.find? fun h => mg_strcasecmp_eq name h.name).map mg_header.value

/-- The loop of `mg_read` that reads up to `len` bytes from the socket. -/
def pull_loop : List Bytes → ℕ → Bytes × List Bytes
  | [], _ => ([], [])
  | segment :: pending, len =>
    if len = 0 then ([], segment :: pending)
    else if segment = [] then ([], pending)             -- n <= 0
    else if segment.length ≤ len then
      let (buf, rest) := pull_loop pending (len - segment.length)
      (segment ++ buf, rest)
    else (segment.take len, segment.drop len :: pending)

/-- `mg_read`: the bytes read, at most `len`, and the connection behind them. -/
def mg_read (conn : mg_connection) (len : ℕ) : Bytes × mg_connection :=
  if (conn.consumed_content : ℤ) < conn.content_len then
    let to_read := (conn.content_len - conn.consumed_content).toNat
    let len := if to_read < len then to_read else len
    -- What is left of the bytes that came with the headers goes first.
    let buf := (conn.buffered.drop conn.consumed_content).take len
    let (more, pending) := pull_loop conn.pending (len - buf.length)
    (buf ++ more,
      { conn with
        consumed_content := conn.consumed_content + buf.length + more.length
        pending := pending })
  else ([], conn)

/-- `%s` of a pointer that may be null, as the C library prints it. -/
def print_ptr : Option Bytes → Bytes
  | some s => s
  | none => bytes "(null)"

/-- `mg_vsnprintf` into a buffer of `buflen` bytes. -/
def mg_vsnprintf (buflen : ℕ) (text : Bytes) : Bytes := text.take (buflen - 1)

/-- What `mg_printf` writes. -/
def mg_printf (text : Bytes) : Bytes := mg_vsnprintf BUFSIZ text

/-- The end of a line of an HTTP header. -/
def crlf : Bytes := bytes "\r\n"

/-- The body that `mg_send_http_error` sends, with `len` bytes of it before the terminator. -/
def http_error_body (status : ℕ) (reason fmt : Bytes) : Bytes :=
  if status > 199 ∧ status ≠ 204 ∧ status ≠ 304 then
    let buf := mg_vsnprintf REASON_SIZ (bytes "Error " ++ dec status ++ bytes ": " ++ reason) ++
      [chr '\n']
    buf ++ mg_vsnprintf (BUFSIZ - buf.length) fmt
  else []

/-- The header block that `mg_send_http_error` sends. -/
def http_error_head (status : ℕ) (reason : Bytes) (len : ℕ) : Bytes :=
  bytes "HTTP/1.1 " ++ dec status ++ bytes " " ++ reason ++ crlf ++
    bytes "Content-Type: text/plain" ++ crlf ++
    bytes "Content-Length: " ++ dec len ++ crlf ++
    bytes "Connection: close" ++ crlf ++ crlf

/-- The value of a hexadecimal digit, `HEXTOI` of its lower case. -/
def HEXTOI (x : UInt8) : UInt8 := if isdigit x then x - chr '0' else x - chr 'W'

/-- `url_decode` into a buffer that has room for all of the source, with `is_form_url_encoded` 0. -/
def url_decode : Bytes → Bytes
  | c :: a :: b :: src =>
    if c = chr '%' ∧ isxdigit a ∧ isxdigit b then
      (HEXTOI (tolower a) <<< 4 ||| HEXTOI (tolower b)) :: url_decode src
    else c :: url_decode (a :: b :: src)
  | c :: src => c :: url_decode src
  | [] => []

/-- A slash or a backslash. -/
def is_slash (c : UInt8) : Bool := c = chr '/' ∨ c = chr '\\'

/-- The loop `while (*s == '.' && s[1] == '.') s += 2`. -/
def skip_double_dots : Bytes → Bytes
  | c :: d :: s => if c = chr '.' ∧ d = chr '.' then skip_double_dots s else c :: d :: s
  | s => s

/-- The loop only removes characters. -/
theorem skip_double_dots_length : ∀ s : Bytes, (skip_double_dots s).length ≤ s.length
  | c :: d :: s => by
    unfold skip_double_dots
    split_ifs
    · have := skip_double_dots_length s
      simp only [List.length_cons]
      omega
    · exact le_rfl
  | [] => le_rfl
  | [_] => le_rfl

/-- `remove_double_dots_and_double_slashes`. -/
def remove_double_dots_and_double_slashes : Bytes → Bytes
  | [] => []
  | c :: s =>
    if is_slash c then
      -- Skip all following slashes and backslashes, and then pairs of dots.
      c :: remove_double_dots_and_double_slashes (skip_double_dots (s.dropWhile is_slash))
    else c :: remove_double_dots_and_double_slashes s
termination_by s => s.length
decreasing_by
  · have h₁ := skip_double_dots_length (s.dropWhile is_slash)
    have h₂ := (List.dropWhile_sublist is_slash (l := s)).length_le
    simp only [List.length_cons]
    omega
  · simp

/-- Nothing is removed from the empty text. -/
theorem remove_double_dots_nil : remove_double_dots_and_double_slashes [] = [] := by
  rw [remove_double_dots_and_double_slashes]

/-- The first character is copied, and more is skipped behind a slash. -/
theorem remove_double_dots_cons (c : UInt8) (s : Bytes) :
    remove_double_dots_and_double_slashes (c :: s) =
      if is_slash c then
        c :: remove_double_dots_and_double_slashes (skip_double_dots (s.dropWhile is_slash))
      else c :: remove_double_dots_and_double_slashes s := by
  rw [remove_double_dots_and_double_slashes]

/-- The query that `handle_request` cuts off at the first `?`, and the URI without it. -/
def split_query (uri : Bytes) : Bytes × Option Bytes :=
  match strchr uri (chr '?') with
  | some query => (uri.take (uri.length - query.length), some (query.drop 1))
  | none => (uri, none)

/-- What `handle_request` does to the request before it calls the user's handler. -/
def normalise (ri : mg_request_info) : mg_request_info :=
  let (uri, query_string) := split_query ri.uri
  { ri with
    uri := remove_double_dots_and_double_slashes (cstr (url_decode uri))
    query_string := query_string }

end DialServer
