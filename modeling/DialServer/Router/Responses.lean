import DialServer.Base.Lines
import DialServer.Router.Links
import DialServer.Server.Parsed

/-!
# Complete answers

What a complete answer to a request is: one text that begins with a status line and whose header
block is closed by an empty line, in which each `Access-Control-Allow-Origin` header carries the
origin of the request. Nearly all answers of the server have one shape (`message`), for which this
is a property of the header lines alone; the answer to `OPTIONS` has another.
-/

set_option maxRecDepth 8000

namespace DialServer

open CLib Program

/-- The lines of an HTTP text. -/
def http_lines (text : Bytes) : List Bytes := lines (chr '\r') (chr '\n') text

/-- A line that begins a response. -/
def IsStatusLine (line : Bytes) : Prop := bytes "HTTP/1.1 " <+: line

instance : DecidablePred IsStatusLine := fun line =>
  inferInstanceAs (Decidable (bytes "HTTP/1.1 " <+: line))

/-- The header lines: those between the first line and the first empty one. -/
def header_lines (text : Bytes) : List Bytes := (http_lines text).tail.takeWhile (· ≠ [])

/-- The line is an `Access-Control-Allow-Origin` header. -/
def IsAllowOrigin (line : Bytes) : Prop :=
  chr ':' ∈ line ∧
    mg_strcasecmp_eq (line.takeWhile (· ≠ chr ':')) (bytes "Access-Control-Allow-Origin")

/-- The value of a header line. -/
def header_value (line : Bytes) : Bytes :=
  ((line.dropWhile (· ≠ chr ':')).drop 1).dropWhile (· = chr ' ')

/-- A header line that the answer to a request with this origin may have. -/
def AllowedLine (origin : Option Bytes) (line : Bytes) : Prop :=
  ¬IsStatusLine line ∧ (IsAllowOrigin line → origin = some (header_value line))

/-- A complete response to a request with this origin. -/
structure Complete (origin : Option Bytes) (text : Bytes) : Prop where
  status_line : ∃ line ∈ (http_lines text).head?, IsStatusLine line
  closed : [] ∈ (http_lines text).dropLast
  headers : ∀ line ∈ header_lines text, AllowedLine origin line

/-- The texts that a call writes are exactly one response, and it is complete. -/
structure Answered (origin : Option Bytes) (texts : List Bytes) : Prop where
  one : ∃ first rest, texts = first :: rest ∧ IsStatusLine first ∧
    ∀ text ∈ rest, ¬IsStatusLine text
  complete : Complete origin texts.flatten

/-- A response with a status line, headers and a body. -/
def message (status_line : Bytes) (headers : List Bytes) (body : Bytes) : Bytes :=
  status_line ++ crlf ++ headers.flatMap (· ++ crlf) ++ crlf ++ body

/-- A line end separates lines. -/
theorem http_lines_sep (s t : Bytes) :
    http_lines (s ++ crlf ++ t) = http_lines s ++ http_lines t := by
  rw [List.append_assoc]
  exact lines_sep (by decide) s t

/-- The lines of a message are those of its parts. -/
theorem http_lines_message (status_line : Bytes) (headers : List Bytes) (body : Bytes) :
    http_lines (message status_line headers body) =
      http_lines status_line ++ headers.flatMap http_lines ++ [] :: http_lines body := by
  have hheaders : ∀ headers : List Bytes, ∀ rest : Bytes,
      http_lines (headers.flatMap (· ++ crlf) ++ rest) =
        headers.flatMap http_lines ++ http_lines rest := by
    intro headers rest
    induction headers with
    | nil => rfl
    | cons header headers ih =>
      rw [List.flatMap_cons, List.append_assoc, http_lines_sep, ih, List.flatMap_cons,
        List.append_assoc]
  have hempty : http_lines (crlf ++ body) = [] :: http_lines body := http_lines_sep [] body
  have hsplit : message status_line headers body =
      status_line ++ crlf ++ (headers.flatMap (· ++ crlf) ++ (crlf ++ body)) := by
    simp only [message, List.append_assoc]
  rw [hsplit, http_lines_sep, hheaders, hempty, List.append_assoc]

/-- The lines before the first empty one do not depend on what follows that. -/
theorem takeWhile_ne_nil_append (l r : List Bytes) :
    (l ++ [] :: r).takeWhile (· ≠ []) = l.takeWhile (· ≠ []) := by
  induction l with
  | nil => simp
  | cons line l ih =>
    simp only [List.cons_append, List.takeWhile_cons]
    rw [ih]

/-- A line that is not empty is one of them. -/
theorem takeWhile_ne_nil_cons {line : Bytes} (h : line ≠ []) (l : List Bytes) :
    (line :: l).takeWhile (· ≠ []) = line :: l.takeWhile (· ≠ []) := by
  simp [h]

/-- A message is complete exactly when its header lines are allowed. -/
theorem complete_message_iff {origin : Option Bytes} {status_line : Bytes}
    (hcr : chr '\r' ∉ status_line) (hstatus : IsStatusLine status_line) (headers : List Bytes)
    (body : Bytes) :
    Complete origin (message status_line headers body) ↔
      ∀ line ∈ (headers.flatMap http_lines).takeWhile (· ≠ []), AllowedLine origin line := by
  have hfirst : http_lines status_line = [status_line] := lines_of_notMem hcr
  have hlines := http_lines_message status_line headers body
  rw [hfirst] at hlines
  have hheader : header_lines (message status_line headers body) =
      (headers.flatMap http_lines).takeWhile (· ≠ []) := by
    unfold header_lines
    rw [hlines]
    simp only [List.cons_append, List.nil_append, List.tail_cons]
    exact takeWhile_ne_nil_append _ _
  constructor
  · intro h
    exact hheader ▸ h.headers
  · intro h
    refine ⟨⟨status_line, by rw [hlines]; rfl, hstatus⟩, ?_, hheader ▸ h⟩
    have hbody : http_lines body ≠ [] := lines_ne_nil body
    rw [hlines, List.dropLast_append_of_ne_nil (by simp), List.dropLast_cons_of_ne_nil hbody]
    simp

/-! ## The answers of the server -/

/-- The header with the origin. -/
def allow_origin_header (origin_header : Option Bytes) : Bytes :=
  bytes "Access-Control-Allow-Origin: " ++ print_ptr origin_header

/-- What the origin is printed as is the value of a header, if the origin is. -/
theorem headerValue_print_ptr {origin_header : Option Bytes}
    (h : ∀ value, origin_header = some value → HeaderValue value) :
    HeaderValue (print_ptr origin_header) := by
  cases origin_header with
  | none => exact ⟨by decide, by decide, by decide⟩
  | some value => exact h value rfl

/-- A line that does not begin as a status line does. -/
theorem not_isStatusLine {line : Bytes} (h : line.head? ≠ some (chr 'H')) : ¬IsStatusLine line := by
  rintro ⟨rest, rfl⟩
  exact h rfl

/-- The name of a header line. -/
theorem takeWhile_header {name : Bytes} (h : chr ':' ∉ name) (value : Bytes) :
    (name ++ bytes ": " ++ value).takeWhile (· ≠ chr ':') = name := by
  have hname : ∀ c ∈ name, decide (c ≠ chr ':') = true := fun c hc =>
    decide_eq_true (ne_of_mem_of_not_mem hc h)
  rw [List.append_assoc, List.takeWhile_append_of_pos hname]
  exact List.append_nil name

/-- The value of a header line. -/
theorem header_value_eq {name value : Bytes} (h : chr ':' ∉ name)
    (hvalue : value.head? ≠ some (chr ' ')) :
    header_value (name ++ bytes ": " ++ value) = value := by
  have hname : ∀ c ∈ name, decide (c ≠ chr ':') = true := fun c hc =>
    decide_eq_true (ne_of_mem_of_not_mem hc h)
  unfold header_value
  rw [List.append_assoc, List.dropWhile_append_of_pos hname]
  show value.dropWhile (· = chr ' ') = value
  cases value with
  | nil => rfl
  | cons c value =>
    have hc : ¬c = chr ' ' := fun hc => hvalue (congrArg some hc)
    simp [hc]

/-- The header is one line, and it is allowed exactly when the printed text is the origin. -/
theorem allow_origin_header_allowed {origin_header : Option Bytes}
    (h : HeaderValue (print_ptr origin_header)) (origin : Option Bytes) :
    http_lines (allow_origin_header origin_header) = [allow_origin_header origin_header] ∧
      (AllowedLine origin (allow_origin_header origin_header) ↔
        origin = some (print_ptr origin_header)) := by
  have hcr : chr '\r' ∉ bytes "Access-Control-Allow-Origin: " := by decide
  have hcolon : chr ':' ∉ bytes "Access-Control-Allow-Origin" := by decide
  have hheader : allow_origin_header origin_header =
      bytes "Access-Control-Allow-Origin" ++ bytes ": " ++ print_ptr origin_header := rfl
  have hvalue : header_value (allow_origin_header origin_header) = print_ptr origin_header :=
    hheader ▸ header_value_eq hcolon h.no_blank
  have hname : IsAllowOrigin (allow_origin_header origin_header) := by
    refine ⟨by simp [hheader, bytes, chr], ?_⟩
    rw [hheader, takeWhile_header hcolon]
    decide
  have hstatus : ¬IsStatusLine (allow_origin_header origin_header) :=
    not_isStatusLine (by simp [hheader, bytes, chr])
  refine ⟨lines_of_notMem ?_, fun hallowed => ?_, fun horigin => ⟨hstatus, fun _ => ?_⟩⟩
  · simp only [allow_origin_header, List.mem_append, not_or]
    exact ⟨hcr, h.no_cr⟩
  · rw [hallowed.2 hname, hvalue]
  · rw [horigin, hvalue]

/-- A header of another name is allowed in every answer, whatever its value. -/
theorem allowedLine_header {name : Bytes} (hcolon : chr ':' ∉ name)
    (hfirst : name.head?.any (· ≠ chr 'H'))
    (hname : ¬mg_strcasecmp_eq name (bytes "Access-Control-Allow-Origin")) (value : Bytes)
    (origin : Option Bytes) : AllowedLine origin (name ++ bytes ": " ++ value) := by
  refine ⟨not_isStatusLine ?_, fun h => absurd h.2 ?_⟩
  · cases name with
    | nil => simp at hfirst
    | cons c name => simpa using hfirst
  · rw [takeWhile_header hcolon]
    exact hname

/-- An answer that is one text. -/
theorem answered_singleton_iff {origin : Option Bytes} {text : Bytes} (h : IsStatusLine text) :
    Answered origin [text] ↔ Complete origin text := by
  constructor
  · intro ha
    simpa using ha.complete
  · exact fun hc => ⟨⟨text, [], rfl, h, by simp⟩, by simpa using hc⟩

/-- A message begins a response if its first line does. -/
theorem isStatusLine_message {status_line : Bytes} (h : IsStatusLine status_line)
    (headers : List Bytes) (body : Bytes) : IsStatusLine (message status_line headers body) := by
  unfold message
  simp only [List.append_assoc]
  exact h.trans (List.prefix_append ..)

/-- The buffer of `mg_printf` cuts a message in its body, if its header block fits. -/
theorem mg_printf_message {status_line : Bytes} {headers : List Bytes}
    (h : (message status_line headers []).length < BUFSIZ) (body : Bytes) :
    ∃ body', mg_printf (message status_line headers body) = message status_line headers body' := by
  have happend : ∀ body, message status_line headers body =
      message status_line headers [] ++ body := fun body => by simp only [message, List.append_nil]
  rw [happend body, mg_printf_append (by omega)]
  exact ⟨_, (happend _).symm⟩

/-- What is printed of a message is an answer exactly when its header lines are allowed. -/
theorem answered_message_iff {origin : Option Bytes} {status_line : Bytes} {headers : List Bytes}
    (hcr : chr '\r' ∉ status_line) (hstatus : IsStatusLine status_line)
    (hsize : (message status_line headers []).length < BUFSIZ) (body : Bytes) :
    Answered origin [mg_printf (message status_line headers body)] ↔
      ∀ line ∈ (headers.flatMap http_lines).takeWhile (· ≠ []), AllowedLine origin line := by
  obtain ⟨body', hbody⟩ := mg_printf_message hsize body
  rw [hbody, answered_singleton_iff (isStatusLine_message hstatus headers body')]
  exact complete_message_iff hcr hstatus headers body'

/-- The errors of the server. -/
def server_errors : List (ℕ × String) := (500, "Internal Error") :: start_errors

/-- They fit into the buffer and have one line for a reason, and the body does not look like another
response. -/
theorem server_errors_fit : ∀ error ∈ server_errors,
    (http_error_head error.1 (bytes error.2)
      (http_error_body error.1 (bytes error.2) (bytes error.2)).length).length < BUFSIZ ∧
    chr '\r' ∉ bytes error.2 ∧
    (mg_printf (http_error_body error.1 (bytes error.2) (bytes error.2))).head? ≠
      some (chr 'H') := by
  decide

/-- An error is an answer to any request. -/
theorem answered_error {status : ℕ} {reason : String} (h : (status, reason) ∈ server_errors)
    (origin : Option Bytes) : Answered origin (error_texts status reason) := by
  obtain ⟨hfits, hreason, hbody⟩ := server_errors_fit _ h
  simp only at hfits hreason hbody
  set body := http_error_body status (bytes reason) (bytes reason) with hbody_eq
  have hdec : ∀ n, chr '\r' ∉ dec n := fun n hmem =>
    absurd (isdigit_of_mem_dec hmem) (by decide)
  set status_line := bytes "HTTP/1.1 " ++ dec status ++ bytes " " ++ bytes reason with hline
  set headers := [bytes "Content-Type: text/plain", bytes "Content-Length: " ++ dec body.length,
    bytes "Connection: close"] with hheaders
  have hhead : mg_printf (http_error_head status (bytes reason) body.length) =
      message status_line headers [] := by
    refine (List.take_of_length_le (by omega)).trans ?_
    simp [http_error_head, message, hline, hheaders]
  have hstatus : IsStatusLine status_line := by
    simp only [hline, List.append_assoc]
    exact List.prefix_append ..
  have hcr : chr '\r' ∉ status_line := by
    have h₁ : chr '\r' ∉ bytes "HTTP/1.1 " := by decide
    have h₂ : chr '\r' ∉ bytes " " := by decide
    simp only [hline, List.mem_append, not_or]
    exact ⟨⟨⟨h₁, hdec _⟩, h₂⟩, hreason⟩
  have hlines : headers.flatMap http_lines = headers := by
    have h₁ : http_lines (bytes "Content-Type: text/plain") = [bytes "Content-Type: text/plain"] :=
      lines_of_notMem (by decide)
    have h₂ : http_lines (bytes "Content-Length: " ++ dec body.length) =
        [bytes "Content-Length: " ++ dec body.length] := by
      have hname : chr '\r' ∉ bytes "Content-Length: " := by decide
      exact lines_of_notMem (by simp only [List.mem_append, not_or]; exact ⟨hname, hdec _⟩)
    have h₃ : http_lines (bytes "Connection: close") = [bytes "Connection: close"] :=
      lines_of_notMem (by decide)
    simp only [hheaders, List.flatMap_cons, List.flatMap_nil, h₁, h₂, h₃]
    rfl
  refine ⟨⟨_, _, rfl, ?_, ?_⟩, ?_⟩
  · rw [hhead]
    exact isStatusLine_message hstatus _ _
  · simpa using not_isStatusLine hbody
  · have hflatten : [mg_printf (http_error_head status (bytes reason) body.length),
        mg_printf body].flatten = message status_line headers (mg_printf body) := by
      rw [hhead]
      simp [message]
    rw [error_texts, hflatten, complete_message_iff hcr hstatus, hlines]
    intro line hline
    have hmem := List.takeWhile_subset _ hline
    simp only [hheaders, List.mem_cons, List.not_mem_nil, or_false] at hmem
    rcases hmem with rfl | rfl | rfl
    · exact @allowedLine_header (bytes "Content-Type") (by decide) (by decide) (by decide)
        (bytes "text/plain") origin
    · exact @allowedLine_header (bytes "Content-Length") (by decide) (by decide) (by decide)
        (dec body.length) origin
    · exact @allowedLine_header (bytes "Connection") (by decide) (by decide) (by decide)
        (bytes "close") origin

section Accepted

variable {origin origin_header : Option Bytes}

/-- The header that names the content type of a status, or of another answer. -/
def IsContentType (line : Bytes) : Prop :=
  line = bytes "Content-Type: text/plain" ∨ line = bytes "Content-Type: text/xml"

/-- It is one short line, and it is allowed. -/
theorem IsContentType.allowed {line : Bytes} (h : IsContentType line) (origin : Option Bytes) :
    http_lines line = [line] ∧ line.length ≤ 30 ∧ line ≠ [] ∧ AllowedLine origin line := by
  have hheader := @allowedLine_header (bytes "Content-Type") (by decide) (by decide)
    (by decide)
  rcases h with rfl | rfl
  · exact ⟨lines_of_notMem (by decide), by decide, by decide, hheader (bytes "text/plain") origin⟩
  · exact ⟨lines_of_notMem (by decide), by decide, by decide, hheader (bytes "text/xml") origin⟩

/-- An answer with the origin and at most a content type in its header block is complete exactly
when the text that is printed is the origin. -/
theorem answered_200_iff {content_type : List Bytes}
    (hvalue : HeaderValue (print_ptr origin_header))
    (hsize : (print_ptr origin_header).length < MAX_REQUEST_SIZE)
    (hcontent : content_type = [] ∨ ∃ line, content_type = [line] ∧ IsContentType line)
    (body : Bytes) :
    Answered origin [mg_printf (message (bytes "HTTP/1.1 200 OK")
      (content_type ++ [allow_origin_header origin_header]) body)] ↔
        origin = some (print_ptr origin_header) := by
  obtain ⟨hline, hallowed⟩ := allow_origin_header_allowed hvalue origin
  have hcontent' : content_type.flatMap http_lines = content_type ∧
      (∀ line ∈ content_type, line ≠ [] ∧ AllowedLine origin line) ∧
      (content_type.flatMap (· ++ crlf)).length ≤ 32 := by
    rcases hcontent with rfl | ⟨line, rfl, hline⟩
    · exact ⟨rfl, by simp, by simp⟩
    · obtain ⟨hone, hlength, hne, hallow⟩ := hline.allowed origin
      refine ⟨by simpa using hone, by simpa using ⟨hne, hallow⟩, ?_⟩
      have hcrlf : crlf.length = 2 := rfl
      simp only [List.flatMap_singleton, List.length_append, hcrlf]
      omega
  obtain ⟨hlines, hcontent_allowed, hlength⟩ := hcontent'
  have hfits : (message (bytes "HTTP/1.1 200 OK")
      (content_type ++ [allow_origin_header origin_header]) []).length < BUFSIZ := by
    have hstatus : (bytes "HTTP/1.1 200 OK").length = 15 := rfl
    have hname : (bytes "Access-Control-Allow-Origin: ").length = 29 := rfl
    have hmax : MAX_REQUEST_SIZE = 4096 := rfl
    have hbuf : BUFSIZ = 8192 := rfl
    have hcrlf : crlf.length = 2 := rfl
    simp only [message, List.length_append, List.flatMap_append, List.flatMap_singleton,
      List.length_nil, allow_origin_header, hstatus, hname, hcrlf]
    omega
  rw [answered_message_iff (by decide) (by decide) hfits body, List.flatMap_append, hlines,
    List.flatMap_singleton, hline, ← hallowed]
  have hne : allow_origin_header origin_header ≠ [] := by simp [allow_origin_header, bytes]
  have hall : ∀ line ∈ content_type ++ [allow_origin_header origin_header],
      decide (line ≠ []) = true := by
    intro line hmem
    rcases List.mem_append.mp hmem with hmem | hmem
    · exact decide_eq_true (hcontent_allowed line hmem).1
    · exact decide_eq_true (List.mem_singleton.mp hmem ▸ hne)
  rw [List.takeWhile_eq_self_iff.mpr hall]
  constructor
  · exact fun h => h _ (by simp)
  · intro h line hmem
    rcases List.mem_append.mp hmem with hmem | hmem
    · exact (hcontent_allowed line hmem).2
    · exact List.mem_singleton.mp hmem ▸ h

/-- The answer to a stop and to a hiding. -/
theorem answered_ok_iff (hvalue : HeaderValue (print_ptr origin_header))
    (hsize : (print_ptr origin_header).length < MAX_REQUEST_SIZE) :
    Answered origin [mg_printf (ok_response origin_header)] ↔
      origin = some (print_ptr origin_header) := by
  have htext : ok_response origin_header = message (bytes "HTTP/1.1 200 OK")
      ([bytes "Content-Type: text/plain"] ++ [allow_origin_header origin_header]) [] := by
    simp [ok_response, message, allow_origin_line, allow_origin_header]
  rw [htext]
  exact answered_200_iff hvalue hsize (.inr ⟨_, rfl, .inl rfl⟩) []

/-- The answer to dial data. -/
theorem answered_dial_data_iff (hvalue : HeaderValue (print_ptr origin_header))
    (hsize : (print_ptr origin_header).length < MAX_REQUEST_SIZE) :
    Answered origin [mg_printf (dial_data_response origin_header)] ↔
      origin = some (print_ptr origin_header) := by
  have htext : dial_data_response origin_header = message (bytes "HTTP/1.1 200 OK")
      ([] ++ [allow_origin_header origin_header]) [] := by
    simp [dial_data_response, message, allow_origin_line, allow_origin_header]
  rw [htext]
  exact answered_200_iff hvalue hsize (.inl rfl) []

/-- The answer to a status request, which may be cut in its body. -/
theorem answered_status_iff (hvalue : HeaderValue (print_ptr origin_header))
    (hsize : (print_ptr origin_header).length < MAX_REQUEST_SIZE) (name : Bytes) (canStop : Bool)
    (localState : DIALStatus) (dial_data : Bytes) :
    Answered origin [mg_printf (status_response origin_header name canStop localState dial_data)] ↔
      origin = some (print_ptr origin_header) := by
  obtain ⟨body, hbody⟩ : ∃ body, status_response origin_header name canStop localState dial_data =
      message (bytes "HTTP/1.1 200 OK")
        ([bytes "Content-Type: text/xml"] ++ [allow_origin_header origin_header]) body := by
    unfold status_response status_head message allow_origin_line allow_origin_header
    simp only [List.append_assoc, List.flatMap_append, List.flatMap_singleton]
    exact ⟨_, rfl⟩
  rw [hbody]
  exact answered_200_iff hvalue hsize (.inr ⟨_, rfl, .inr rfl⟩) body

/-- The lines that the line ends in a name add to the `Location` header. -/
def location_lines (app_name : Bytes) : List Bytes := (http_lines (app_name ++ RUN_URI)).tail

/-- The header block of an accepted start is allowed: the lines that the name adds are, and so is
the origin that is printed behind them, unless an empty line in the name has closed the block. -/
def CreatedAllowed (origin origin_header : Option Bytes) (app_name : Bytes) : Prop :=
  (∀ line ∈ (location_lines app_name).takeWhile (· ≠ []), AllowedLine origin line) ∧
    ([] ∈ location_lines app_name ∨ origin = some (print_ptr origin_header))

/-- The `Location` header is the line with the first part of the name, and the lines that the name
adds. -/
theorem http_lines_location (addr : InAddr) (dial_port : UInt16) (app_name : Bytes) :
    ∃ value, http_lines (bytes "Location: " ++ run_url addr dial_port app_name) =
      (bytes "Location" ++ bytes ": " ++ value) :: location_lines app_name := by
  have hcr : chr '\r' ∉ bytes "Location: " ++ (bytes "http://" ++ authority addr dial_port ++
      bytes "/apps/") := by
    have h₁ : chr '\r' ∉ bytes "Location: " := by decide
    have h₂ : chr '\r' ∉ bytes "http://" := by decide
    have h₃ : chr '\r' ∉ bytes "/apps/" := by decide
    have h₄ : chr '\r' ∉ authority addr dial_port := fun hmem =>
      ((authority_bounds addr dial_port).2 _ hmem).2 rfl
    simp only [List.mem_append, not_or]
    exact ⟨h₁, ⟨h₂, h₄⟩, h₃⟩
  have hsplit : bytes "Location: " ++ run_url addr dial_port app_name =
      bytes "Location: " ++ (bytes "http://" ++ authority addr dial_port ++ bytes "/apps/") ++
        (app_name ++ RUN_URI) := by
    simp only [run_url, run_uri, app_uri, APPS_URI, List.append_assoc]
  have hne : lines (chr '\r') (chr '\n') (app_name ++ RUN_URI) ≠ [] := lines_ne_nil _
  obtain ⟨first, rest, hlines⟩ := List.exists_cons_of_ne_nil hne
  refine ⟨bytes "http://" ++ authority addr dial_port ++ bytes "/apps/" ++ first, ?_⟩
  unfold http_lines location_lines
  rw [hsplit, lines_append hcr, hlines]
  unfold http_lines
  rw [hlines]
  simp only [List.modifyHead_cons, List.append_assoc, List.tail_cons]
  rfl

/-- The answer to a start that is accepted. -/
theorem answered_created_iff {code : String} (hcode : code = "200" ∨ code = "201")
    (hvalue : HeaderValue (print_ptr origin_header)) (addr : InAddr) (dial_port : UInt16)
    {app_name : Bytes}
    (hsize : app_name.length + (print_ptr origin_header).length ≤ 2 * MAX_REQUEST_SIZE - 512) :
    Answered origin
        [mg_printf (created_response code (inet_ntop addr) dial_port app_name origin_header)] ↔
      CreatedAllowed origin origin_header app_name := by
  obtain ⟨hline, hallowed⟩ := allow_origin_header_allowed hvalue origin
  obtain ⟨hcontent, hcontent_length, hcontent_ne, hcontent_allowed⟩ :=
    IsContentType.allowed (.inl rfl) origin
  obtain ⟨value, hlocation⟩ := http_lines_location addr dial_port app_name
  have htext : created_response code (inet_ntop addr) dial_port app_name origin_header =
      message (bytes "HTTP/1.1 " ++ bytes code ++ bytes " Created")
        [bytes "Content-Type: text/plain", bytes "Location: " ++ run_url addr dial_port app_name,
          allow_origin_header origin_header] [] := by
    simp only [created_response, message, run_path, run_url, run_uri, app_uri, authority,
      allow_origin_line, allow_origin_header, APPS_URI, RUN_URI, List.flatMap_cons,
      List.flatMap_nil, List.append_assoc, List.append_nil]
    rfl
  have hstatus : chr '\r' ∉ bytes "HTTP/1.1 " ++ bytes code ++ bytes " Created" ∧
      IsStatusLine (bytes "HTTP/1.1 " ++ bytes code ++ bytes " Created") ∧
      (bytes "HTTP/1.1 " ++ bytes code ++ bytes " Created").length = 20 := by
    rcases hcode with rfl | rfl <;> decide
  have hfits : (message (bytes "HTTP/1.1 " ++ bytes code ++ bytes " Created")
      [bytes "Content-Type: text/plain", bytes "Location: " ++ run_url addr dial_port app_name,
        allow_origin_header origin_header] []).length < BUFSIZ := by
    have hauthority := (authority_bounds addr dial_port).1
    have hlocation_length : (bytes "Location: ").length = 10 ∧ (bytes "http://").length = 7 ∧
        APPS_URI.length = 6 ∧ RUN_URI.length = 4 := by decide
    have hname : (bytes "Access-Control-Allow-Origin: ").length = 29 := rfl
    have hmax : MAX_REQUEST_SIZE = 4096 := rfl
    have hbuf : BUFSIZ = 8192 := rfl
    have hcrlf : crlf.length = 2 := rfl
    simp only [message, List.length_append, List.flatMap_cons, List.flatMap_nil, List.length_nil,
      allow_origin_header, run_url, run_uri, app_uri, hname, hcrlf] at hstatus ⊢
    omega
  have hne : allow_origin_header origin_header ≠ [] := by simp [allow_origin_header, bytes]
  have hlocation_ne : bytes "Location" ++ bytes ": " ++ value ≠ [] := by simp [bytes]
  have hlocation_allowed : AllowedLine origin (bytes "Location" ++ bytes ": " ++ value) :=
    allowedLine_header (by decide) (by decide) (by decide) value origin
  rw [htext, answered_message_iff hstatus.1 hstatus.2.1 hfits []]
  have hlines : [bytes "Content-Type: text/plain",
      bytes "Location: " ++ run_url addr dial_port app_name,
      allow_origin_header origin_header].flatMap http_lines =
        bytes "Content-Type: text/plain" :: (bytes "Location" ++ bytes ": " ++ value) ::
          (location_lines app_name ++ [allow_origin_header origin_header]) := by
    simp only [List.flatMap_cons, List.flatMap_nil, hcontent, hlocation, hline]
    simp
  rw [hlines, takeWhile_ne_nil_cons hcontent_ne, takeWhile_ne_nil_cons hlocation_ne,
    List.forall_mem_cons, List.forall_mem_cons]
  simp only [hcontent_allowed, hlocation_allowed, true_and]
  unfold CreatedAllowed
  rw [← hallowed]
  -- The block is closed by an empty line of the name, or it goes on to the origin.
  by_cases hempty : [] ∈ location_lines app_name
  · obtain ⟨before, behind, hsplit⟩ := List.append_of_mem hempty
    rw [hsplit, List.append_assoc, List.cons_append, takeWhile_ne_nil_append,
      takeWhile_ne_nil_append]
    simp
  · have hall : ∀ line ∈ location_lines app_name ++ [allow_origin_header origin_header],
        decide (line ≠ []) = true := by
      intro line hmem
      rcases List.mem_append.mp hmem with hmem | hmem
      · exact decide_eq_true (ne_of_mem_of_not_mem hmem hempty)
      · exact decide_eq_true (List.mem_singleton.mp hmem ▸ hne)
    rw [List.takeWhile_eq_self_iff.mpr hall, List.takeWhile_eq_self_iff.mpr
      fun line hmem => hall line (List.mem_append_left _ hmem)]
    simp only [List.forall_mem_append, List.forall_mem_singleton, hempty, false_or]

/-- The answer to `OPTIONS` is never complete: its header block is not closed. -/
theorem not_answered_options {methods : String} (hmethods : chr '\r' ∉ bytes methods)
    (hvalue : HeaderValue (print_ptr origin_header))
    (hsize : (options_response origin_header methods).length < BUFSIZ) :
    ¬Answered origin [mg_printf (options_response origin_header methods)] := by
  have htext : options_response origin_header methods =
      bytes "HTTP/1.1 204 No Content" ++ crlf ++
        (bytes "Access-Control-Allow-Methods: " ++ bytes methods ++ crlf ++
        (bytes "Access-Control-Max-Age: 86400" ++ crlf ++
        (allow_origin_header origin_header ++ crlf ++
        (bytes "Content-Length: 0" ++ crlf ++ [])))) := by
    simp only [options_response, allow_origin_line, allow_origin_header, List.append_assoc,
      List.append_nil]
  have hname : chr '\r' ∉ bytes "Access-Control-Allow-Methods: " ++ bytes methods := by
    have : chr '\r' ∉ bytes "Access-Control-Allow-Methods: " := by decide
    simp only [List.mem_append, not_or]
    exact ⟨this, hmethods⟩
  have hlines : http_lines (options_response origin_header methods) =
      [bytes "HTTP/1.1 204 No Content", bytes "Access-Control-Allow-Methods: " ++ bytes methods,
        bytes "Access-Control-Max-Age: 86400", allow_origin_header origin_header,
        bytes "Content-Length: 0", []] := by
    have h₁ : http_lines (bytes "HTTP/1.1 204 No Content") = [bytes "HTTP/1.1 204 No Content"] :=
      lines_of_notMem (by decide)
    have h₂ : http_lines (bytes "Access-Control-Allow-Methods: " ++ bytes methods) =
        [bytes "Access-Control-Allow-Methods: " ++ bytes methods] := lines_of_notMem hname
    have h₃ : http_lines (bytes "Access-Control-Max-Age: 86400") =
        [bytes "Access-Control-Max-Age: 86400"] := lines_of_notMem (by decide)
    have h₄ := (allow_origin_header_allowed hvalue origin).1
    have h₅ : http_lines (bytes "Content-Length: 0") = [bytes "Content-Length: 0"] :=
      lines_of_notMem (by decide)
    rw [htext, http_lines_sep, http_lines_sep, http_lines_sep, http_lines_sep, http_lines_sep, h₁,
      h₂, h₃, h₄, h₅]
    rfl
  intro h
  have hclosed := h.complete.closed
  rw [List.flatten_singleton, mg_printf, mg_vsnprintf, List.take_of_length_le (by omega),
    hlines] at hclosed
  simp [bytes, allow_origin_header] at hclosed

end Accepted

end DialServer
