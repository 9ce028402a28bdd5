import DialServer.Origin.Matching
import DialServer.Router.Requests
import DialServer.Server.Connection
import DialServer.Server.Parsed

/-!
# The names of the headers

All that a request handler takes from the headers is the value that the loop of `request_handler`
keeps, so that two lists of headers are treated alike when this value is the same
(`request_handler_headers`). The converse is shown with two servers that give the value away: one
prints it in the answer, and one knows the difference between no value and any other. The loop knows
three spellings of the name, while `get_header` takes any.
-/

set_option maxRecDepth 8000

namespace DialServer

open CLib Program

variable {W : Type}

/-- The value of the last header whose name is one of the three spellings. -/
def last_origin (headers : List mg_header) : Option Bytes :=
  ((headers.filter fun h => is_origin_name h.name).map mg_header.value).getLast?

/-- The loop over the headers keeps that value. -/
theorem origin_of_eq (request_info : mg_request_info) :
    origin_of request_info = last_origin request_info.http_headers := by
  unfold origin_of last_origin
  induction request_info.http_headers using List.reverseRecOn with
  | nil => rfl
  | append_singleton headers h ih =>
    rw [List.foldl_append, ih, List.filter_append, List.map_append]
    by_cases hname : is_origin_name h.name
    · simp [hname]
    · simp [hname]

/-- The same headers with the letters of their names in other cases. -/
def Respelled (headers headers' : List mg_header) : Prop :=
  List.Forall₂ (fun h h' => mg_strcasecmp_eq h.name h'.name ∧ h'.value = h.value) headers headers'

/-- Only the names are spelled differently. -/
theorem Respelled.values {headers headers' : List mg_header} (h : Respelled headers headers') :
    headers'.map mg_header.value = headers.map mg_header.value := by
  induction h with
  | nil => rfl
  | cons hhead _ ih => simp only [List.map_cons, hhead.2, ih]

/-- No request is answered differently for the one list of headers and the other: the answers, the
callbacks and the state that is left are the same. -/
def TreatedAlike (headers headers' : List mg_header) : Prop :=
  ∀ (W : Type) (s : System W) (conn : mg_connection) (ri : mg_request_info),
    request_handler conn { ri with http_headers := headers } s =
      request_handler conn { ri with http_headers := headers' } s

/-- A request handler takes nothing from the headers but the origin. -/
theorem request_handler_headers (conn : mg_connection) (ri : mg_request_info)
    {headers headers' : List mg_header} (h : last_origin headers = last_origin headers') :
    (request_handler conn { ri with http_headers := headers } : Server W Unit) =
      request_handler conn { ri with http_headers := headers' } := by
  have horigin : origin_of { ri with http_headers := headers } =
      origin_of { ri with http_headers := headers' } := by
    rw [origin_of_eq, origin_of_eq]
    exact h
  have hroute : (route { ri with http_headers := headers } : Server W Decision) =
      route { ri with http_headers := headers' } := by
    unfold route
    rw [horigin]
    rfl
  have hperform : ∀ d, (perform conn { ri with http_headers := headers } d : Server W Unit) =
      perform conn { ri with http_headers := headers' } d := by
    intro d
    cases d <;> simp only [perform, horigin] <;> rfl
  unfold request_handler
  rw [hroute]
  exact congrArg _ (funext hperform)

/-! ## Servers that give the origin away -/

/-- Headers from which the loop keeps a given value. -/
def origin_headers (origin_header : Option Bytes) : List mg_header :=
  origin_header.toList.map fun value => ⟨bytes "Origin", value⟩

/-- The loop keeps it. -/
theorem last_origin_headers (origin_header : Option Bytes) :
    last_origin (origin_headers origin_header) = origin_header := by
  cases origin_header with
  | none => rfl
  | some value => rfl

/-- A server with an application that allows every origin. -/
def open_server : System Bool :=
  { youtube_server with apps := [{ youtube_app with corsAllowedOrigin := ⟨[], by decide⟩ }] }

/-- A request for the options of the application. -/
def options_request (headers : List mg_header) : mg_request_info :=
  { status_request with request_method := bytes "OPTIONS", http_headers := headers }

/-- The open server prints the origin. -/
theorem open_server_prints (origin_header : Option Bytes) :
    ∃ e t, request_handler no_body (options_request (origin_headers origin_header)) open_server =
      some ((), e ++ [.write (mg_printf (options_response origin_header "GET, POST, OPTIONS"))],
        t) := by
  cases origin_header with
  | none => exact ⟨[], _, rfl⟩
  | some value =>
    cases value with
    | nil => exact ⟨[], _, rfl⟩
    | cons c value => exact ⟨[.lock, .unlock], _, rfl⟩

/-- The text of the options tells which value was printed, when it fits into the buffer. -/
theorem print_ptr_of_options {o o' : Option Bytes} {methods : String}
    (ho : (options_response o methods).length < BUFSIZ)
    (ho' : (options_response o' methods).length < BUFSIZ)
    (h : mg_printf (options_response o methods) = mg_printf (options_response o' methods)) :
    print_ptr o = print_ptr o' := by
  have htake : ∀ {text : Bytes}, text.length < BUFSIZ → mg_printf text = text :=
    fun htext => List.take_of_length_le (by omega)
  rw [htake ho, htake ho'] at h
  unfold options_response allow_origin_line at h
  simp only [List.append_assoc] at h
  simpa using h

/-- A value that prints like another is the same, or one of the two is missing. -/
theorem eq_of_print_ptr {o o' : Option Bytes} (h : print_ptr o = print_ptr o') :
    o = o' ∨ (o = none ∧ o' = some (bytes "(null)")) ∨ (o = some (bytes "(null)") ∧ o' = none) := by
  cases o with
  | none =>
    cases o' with
    | none => exact .inl rfl
    | some value => exact .inr (.inl ⟨rfl, congrArg some h.symm⟩)
  | some value =>
    cases o' with
    | none => exact .inr (.inr ⟨congrArg some h, rfl⟩)
    | some value' => exact .inl (congrArg some h)

/-- The origin that is kept is the value of a header. -/
theorem mem_of_last_origin {headers : List mg_header} {value : Bytes}
    (h : last_origin headers = some value) : ∃ header ∈ headers, header.value = value := by
  have hmem := List.mem_of_getLast? h
  obtain ⟨header, hheader, rfl⟩ := List.mem_map.mp hmem
  exact ⟨header, (List.mem_filter.mp hheader).1, rfl⟩

/-- The answer to `OPTIONS` fits into the buffer with any origin that fits into a request. -/
theorem options_response_fits {origin_header : Option Bytes} {methods : String}
    (h : ∀ value, origin_header = some value → value.length < MAX_REQUEST_SIZE)
    (hmethods : (bytes methods).length ≤ 100) :
    (options_response origin_header methods).length < BUFSIZ := by
  have hprint : (print_ptr origin_header).length < MAX_REQUEST_SIZE := by
    cases origin_header with
    | none => decide
    | some value => exact h value rfl
  have hlength : (options_response origin_header methods).length =
      (options_response (some []) "").length + (bytes methods).length +
        (print_ptr origin_header).length := by
    have hempty : (bytes "").length = 0 := rfl
    simp only [options_response, allow_origin_line, List.length_append, print_ptr,
      List.length_nil, hempty]
    omega
  have hrest : (options_response (some []) "").length ≤ 200 := by decide
  have hmax : MAX_REQUEST_SIZE = 4096 := rfl
  have hbuf : BUFSIZ = 8192 := rfl
  omega

/-- No value is told from the value `(null)` by a server without applications, which refuses the
one and does not look at the other. -/
theorem new_server_tells_null :
    request_handler no_body (options_request (origin_headers none)) new_server ≠
      request_handler no_body (options_request (origin_headers (some (bytes "(null)"))))
        new_server := by
  have hnone : request_handler no_body (options_request (origin_headers none)) new_server =
      some ((), [.write (mg_printf (options_response none "GET, POST, OPTIONS"))], new_server) :=
    rfl
  intro h
  rw [hnone] at h
  -- The answer to the other request is an error, which is written in two parts.
  exact absurd (congrArg (fun r => r.map fun r => r.2.1.length) h) (by decide)

/-- Headers that are treated alike have the same origin. -/
theorem last_origin_of_treatedAlike {headers headers' : List mg_header}
    (hsize : ∀ h ∈ headers, h.value.length < MAX_REQUEST_SIZE)
    (hsize' : ∀ h ∈ headers', h.value.length < MAX_REQUEST_SIZE)
    (h : TreatedAlike headers headers') : last_origin headers = last_origin headers' := by
  have hvalue : ∀ {headers : List mg_header}, (∀ h ∈ headers, h.value.length < MAX_REQUEST_SIZE) →
      ∀ value, last_origin headers = some value → value.length < MAX_REQUEST_SIZE := by
    intro headers hsize value hlast
    obtain ⟨header, hmem, rfl⟩ := mem_of_last_origin hlast
    exact hsize header hmem
  -- Any request is handled as with nothing but the origin in its headers.
  have hsame : ∀ s : System Bool,
      request_handler no_body (options_request (origin_headers (last_origin headers))) s =
        request_handler no_body (options_request (origin_headers (last_origin headers'))) s := by
    intro s
    have horigin : ∀ headers, (request_handler no_body (options_request headers) : Server Bool Unit)
        = request_handler no_body (options_request (origin_headers (last_origin headers))) :=
      fun headers => request_handler_headers no_body (options_request [])
        (last_origin_headers _).symm
    rw [← horigin, ← horigin]
    exact h Bool s no_body (options_request [])
  have hprint : print_ptr (last_origin headers) = print_ptr (last_origin headers') := by
    obtain ⟨e, t, he⟩ := open_server_prints (last_origin headers)
    obtain ⟨e', t', he'⟩ := open_server_prints (last_origin headers')
    have heq := hsame open_server
    rw [he, he', Option.some.injEq, Prod.mk.injEq, Prod.mk.injEq] at heq
    have hwrite := (List.append_inj' heq.2.1 rfl).2
    rw [List.cons.injEq, Event.write.injEq] at hwrite
    exact print_ptr_of_options (options_response_fits (hvalue hsize) (by decide))
      (options_response_fits (hvalue hsize') (by decide)) hwrite.1
  rcases eq_of_print_ptr hprint with heq | ⟨hnone, hnull⟩ | ⟨hnull, hnone⟩
  · exact heq
  · exact absurd (by rw [← hnone, ← hnull]; exact hsame new_server) new_server_tells_null
  · exact absurd (by rw [← hnone, ← hnull]; exact (hsame new_server).symm) new_server_tells_null

/-- **The case of header names.** The headers of a parsed request and the same headers in other
letter cases are treated alike by every server and for every request if and only if the last header
whose name is spelled `Origin`, `origin` or `ORIGIN` has the same value in both, or neither has
one. -/
theorem header_names_iff {buf : Bytes} (hbuf : buf.length < MAX_REQUEST_SIZE)
    {local_addr remote_addr : InAddr} {ri : mg_request_info}
    (hri : parse_http_request buf local_addr remote_addr = some ri) {headers' : List mg_header}
    (h : Respelled ri.http_headers headers') :
    TreatedAlike ri.http_headers headers' ↔
      last_origin ri.http_headers = last_origin headers' := by
  have hparsed := parsed_of_parse_http_request hbuf hri
  have hsize : ∀ h ∈ ri.http_headers, h.value.length < MAX_REQUEST_SIZE := by
    intro header hmem
    have := hparsed.size header hmem
    omega
  constructor
  · refine last_origin_of_treatedAlike hsize fun header hmem => ?_
    have hvalue := List.mem_map_of_mem (f := mg_header.value) hmem
    rw [h.values] at hvalue
    obtain ⟨header', hmem', heq⟩ := List.mem_map.mp hvalue
    exact heq ▸ hsize header' hmem'
  · exact fun heq W s conn ri => congrFun (request_handler_headers conn ri heq) s

/-- The text of a status request with a foreign origin in a header of a given name. -/
def status_text (name : String) : Bytes :=
  bytes "GET /apps/YouTube HTTP/1.1\r\n" ++ bytes name ++ bytes ": https://evil.com\r\n\r"

/-- What the parser makes of it. -/
def foreign_request (name : String) : mg_request_info :=
  { status_request with http_headers := [⟨bytes name, bytes "https://evil.com"⟩] }

/-- The three known spellings are treated alike. -/
theorem header_names_known :
    TreatedAlike (foreign_request "Origin").http_headers
      (foreign_request "ORIGIN").http_headers := by
  have hparse : parse_http_request (status_text "Origin") ⟨192, 168, 0, 2⟩ ⟨192, 168, 0, 3⟩ =
      some (foreign_request "Origin") := by
    decide
  have hsize : (status_text "Origin").length < MAX_REQUEST_SIZE := by decide
  have hrespelled : Respelled (foreign_request "Origin").http_headers
      (foreign_request "ORIGIN").http_headers := by
    refine .cons ⟨?_, rfl⟩ .nil
    decide
  rw [header_names_iff hsize hparse hrespelled]
  decide

/-- The origin check of the application `YouTube` is the test of its entries. -/
theorem youtube_origin_refused {origin : Bytes} (h : origin.length ≠ 0) :
    origin_refused (some origin) (bytes "YouTube") youtube_server =
      some (!(entries youtube_list).any (entry_matches origin), [.lock, .unlock],
        youtube_server) := by
  set result := (entries youtube_list).any (entry_matches origin)
  have hlist : is_uri_in_list origin youtube_list plenty = some (result, [], plenty) :=
    is_uri_in_list_plenty origin youtube_list
  have hloop : is_allowed_origin_loop origin (bytes "YouTube") youtube_server.apps plenty =
      some (result, [], plenty) := by
    show (do
      if ← is_uri_in_list origin youtube_list then return true
      else return false : Alloc Bool) plenty = _
    rw [bind_of_some hlist]
    cases result <;> rfl
  have hcheck : (do
      let result ← alloc (is_allowed_origin_loop origin (bytes "YouTube") youtube_server.apps)
      ds_unlock
      return result : Server Bool Bool) { youtube_server with mux := true } =
        some (result, [.unlock], youtube_server) := by
    have halloc : (alloc (is_allowed_origin_loop origin (bytes "YouTube") youtube_server.apps) :
        Server Bool Bool) { youtube_server with mux := true } =
          some (result, [], { youtube_server with mux := true }) :=
      within_eq_some.mpr ⟨[], plenty, hloop, rfl, rfl⟩
    exact bind_of_some halloc
  have hallowed : is_allowed_origin (some origin) (bytes "YouTube") youtube_server =
      some (result, [.lock, .unlock], youtube_server) := by
    have hlock : ds_lock youtube_server =
        some (true, [.lock], { youtube_server with mux := true }) := rfl
    show (do
      if origin.length = 0 then return true
      else if !(← ds_lock) then return false
      else
        let apps ← read System.apps
        let result ← alloc (is_allowed_origin_loop origin (bytes "YouTube") apps)
        ds_unlock
        return result : Server Bool Bool) youtube_server = _
    rw [if_neg h, bind_of_some hlock]
    simp only [Bool.not_true, Bool.false_eq_true, if_false]
    rw [read_bind_apply]
    exact congrArg (Option.map _) hcheck
  show (do return !(← is_allowed_origin (some origin) (bytes "YouTube")) : Server Bool Bool)
    youtube_server = _
  rw [bind_of_some hallowed]
  rfl

/-- It refuses the foreign origin. -/
theorem foreign_origin_refused :
    origin_refused (some (bytes "https://evil.com")) (bytes "YouTube") youtube_server =
      some (true, [.lock, .unlock], youtube_server) := by
  have hany : (entries youtube_list).any (entry_matches (bytes "https://evil.com")) = false := by
    decide
  rw [youtube_origin_refused (by decide), hany]
  rfl

/-- The foreign origin is refused when its header is spelled `Origin`, and gets the status when it
is spelled `ORigin`. -/
theorem mixed_case_skips_check :
    parse_http_request (status_text "ORigin") ⟨192, 168, 0, 2⟩ ⟨192, 168, 0, 3⟩ =
        some (foreign_request "ORigin") ∧
      Respelled (foreign_request "Origin").http_headers (foreign_request "ORigin").http_headers ∧
      (∃ e t, request_handler no_body (foreign_request "Origin") youtube_server = some ((), e, t) ∧
        answer e = some (bytes "403")) ∧
      (∃ e t, request_handler no_body (foreign_request "ORigin") youtube_server = some ((), e, t) ∧
        answer e = some (bytes "200")) ∧
      ¬TreatedAlike (foreign_request "Origin").http_headers
        (foreign_request "ORigin").http_headers := by
  have h403 : ∃ e t, request_handler no_body (foreign_request "Origin") youtube_server =
      some ((), e, t) ∧ answer e = some (bytes "403") := by
    have hroute : route (foreign_request "Origin") youtube_server =
        some (.error 403 "Forbidden", [.lock, .unlock], youtube_server) := by
      show (do
        if ← origin_refused (some (bytes "https://evil.com")) (bytes "YouTube") then
          return .error 403 "Forbidden"
        else return .status (bytes "YouTube") : Server Bool Decision) youtube_server = _
      rw [bind_of_some foreign_origin_refused]
      rfl
    unfold request_handler
    rw [bind_of_some hroute]
    exact ⟨_, _, rfl, by decide⟩
  have h200 : ∃ e t, request_handler no_body (foreign_request "ORigin") youtube_server =
      some ((), e, t) ∧ answer e = some (bytes "200") := ⟨_, _, rfl, by decide⟩
  refine ⟨by decide, .cons ⟨by decide, rfl⟩ .nil, h403, h200, fun h => ?_⟩
  obtain ⟨e, t, he, hcode⟩ := h403
  obtain ⟨e', t', he', hcode'⟩ := h200
  have heq := he.symm.trans ((h Bool youtube_server no_body status_request).trans he')
  simp only [Option.some.injEq, Prod.mk.injEq, true_and] at heq
  rw [heq.1, hcode'] at hcode
  exact absurd hcode (by decide)

end DialServer
