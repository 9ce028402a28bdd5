import DialServer.Source.Handlers
import DialServer.Source.Origin

/-!
# `request_handler`

The router: the loop over the headers, the four shapes of URI with their extraction of the
application's name, the origin check, and the choice of the answer. Each branch of the code ends in
one answer or one call of a handler; `Decision` names them, `route` finds the decision, and
`perform` carries it out.
-/

namespace DialServer

open CLib

/-- `APPS_URI`. -/
def APPS_URI : Bytes := bytes "/apps/"

/-- `RUN_URI`. -/
def RUN_URI : Bytes := bytes "/run"

/-- `HIDE_URI`. -/
def HIDE_URI : Bytes := bytes "/hide"

/-- `gLocalhost`. -/
def gLocalhost : Bytes := bytes "127.0.0.1"

/-- What a branch of `request_handler` ends in. -/
inductive Decision
  | error (status : ℕ) (reason : String)
  | options (methods : String)
  | start (app_name : Bytes)
  | status (app_name : Bytes)
  | stop (app_name : Bytes)
  | hide (app_name : Bytes)
  | dial_data (app_name : Bytes) (use_payload : Bool)
  deriving DecidableEq, Repr

/-- The test for a URI that ends in `suffix` and is longer than `least` characters. -/
def ends_with (uri suffix : Bytes) (least : ℕ) : Bool :=
  uri.length > least && strncmp_eq (uri.drop (uri.length - suffix.length)) suffix suffix.length

/-- The name that the run and the hide branch copy out of the URI into a buffer of 256 characters:
what follows the first `strlen(APPS_URI)` characters, without the last `cut` characters. -/
def copied_name (uri : Bytes) (cut : ℕ) : Bytes :=
  let appname_len := uri.length - cut - APPS_URI.length
  let appname_len := if appname_len > 255 then 255 else appname_len
  (uri.drop APPS_URI.length).take appname_len

/-- One of the spellings of the `Origin` header that the header loop knows. -/
def is_origin_name (name : Bytes) : Bool :=
  name = bytes "Origin" ∨ name = bytes "origin" ∨ name = bytes "ORIGIN"

/-- `origin_header` after the loop over the headers, in which the last match wins. -/
def origin_of (request_info : mg_request_info) : Option Bytes :=
  request_info.http_headers.foldl
    (fun origin_header h => if is_origin_name h.name then some h.value else origin_header) none

variable {W : Type}

/-- The condition `origin_header && !is_allowed_origin(ds, origin_header, app_name)`. -/
def origin_refused (origin_header : Option Bytes) (app_name : Bytes) : Server W Bool := do
  if origin_header = none then return false
  else return !(← is_allowed_origin origin_header app_name)

/-- The branch for a URI that ends with `/run`. -/
def route_run (request_info : mg_request_info) (origin_header : Option Bytes) :
    Server W Decision := do
  let app_name := copied_name request_info.uri RUN_URI.length
  if ← origin_refused origin_header app_name then return .error 403 "Forbidden"
  else if request_info.request_method = bytes "OPTIONS" then return .options "DELETE, OPTIONS"
  else if app_name ≠ [] ∧ request_info.request_method = bytes "DELETE" then return .stop app_name
  else return .error 501 "Not Implemented"

/-- The branch for `/apps/` and a name. -/
def route_app (request_info : mg_request_info) (origin_header : Option Bytes) :
    Server W Decision := do
  let app_name := request_info.uri.drop APPS_URI.length
  if ← origin_refused origin_header app_name then
    -- Only for the names of known applications does the answer tell that the origin is refused.
    if app_name = bytes "YouTube" ∨ app_name = bytes "Netflix" ∨ app_name = bytes "system" ∨
        app_name = bytes "YouTubeTV" then return .error 403 "Forbidden"
    else return .error 404 "Not Found"
  else if request_info.request_method = bytes "OPTIONS" then return .options "GET, POST, OPTIONS"
  else if request_info.request_method = bytes "POST" then return .start app_name
  else if request_info.request_method = bytes "GET" then return .status app_name
  else return .error 501 "Not Implemented"

/-- The branch for a URI that ends with `/hide`. -/
def route_hide (request_info : mg_request_info) (origin_header : Option Bytes) :
    Server W Decision := do
  let app_name := copied_name request_info.uri (RUN_URI.length + HIDE_URI.length)
  if ← origin_refused origin_header app_name then return .error 403 "Forbidden"
  else if request_info.request_method = bytes "OPTIONS" then return .options "POST, OPTIONS"
  else if app_name ≠ [] ∧ request_info.request_method = bytes "POST" then return .hide app_name
  else return .error 501 "Not Implemented"

/-- The branch for a URI that contains `/dial_data`. -/
def route_dial_data (request_info : mg_request_info) (origin_header : Option Bytes) :
    Server W Decision := do
  -- The test is one of the first characters, and not of the whole address.
  let laddr := inet_ntop request_info.remote_addr
  if strncmp_eq laddr gLocalhost gLocalhost.length then
    match ← alloc (parse_app_name (some request_info.uri)) with
    | none => return .error 500 "Internal Error"
    | some app_name =>
      if ← origin_refused origin_header app_name then return .error 403 "Forbidden"
      else if request_info.request_method = bytes "OPTIONS" then return .options "POST, OPTIONS"
      else return .dial_data app_name (request_info.request_method = bytes "POST")
  else return .error 403 "Forbidden"

/-- The shapes of URI that `request_handler` tells apart, in the order of its tests. -/
inductive Shape
  | run
  | app
  | hide
  | dial_data
  | unknown
  deriving DecidableEq, Repr

/-- The tests of `request_handler` on the URI. -/
def shape_of (uri : Bytes) : Shape :=
  if ends_with uri RUN_URI (RUN_URI.length + APPS_URI.length) then .run
  else if uri.length > APPS_URI.length ∧ strncmp_eq uri APPS_URI APPS_URI.length ∧
      strchr (uri.drop APPS_URI.length) (chr '/') = none then .app
  else if ends_with uri HIDE_URI (HIDE_URI.length + RUN_URI.length + APPS_URI.length) then .hide
  else if (strstr uri DIAL_DATA_URI).isSome then .dial_data
  else .unknown

/-- The decision of `request_handler` on `MG_NEW_REQUEST`. -/
def route (request_info : mg_request_info) : Server W Decision :=
  let origin_header := origin_of request_info
  match shape_of request_info.uri with
  | .run => route_run request_info origin_header
  | .app => route_app request_info origin_header
  | .hide => route_hide request_info origin_header
  | .dial_data => route_dial_data request_info origin_header
  | .unknown => return .error 404 "Not Found"

/-- `options_response`. Its header block is not closed by an empty line. -/
def options_response (origin_header : Option Bytes) (methods : String) : Bytes :=
  bytes "HTTP/1.1 204 No Content" ++ crlf ++
    bytes "Access-Control-Allow-Methods: " ++ bytes methods ++ crlf ++
    bytes "Access-Control-Max-Age: 86400" ++ crlf ++
    allow_origin_line origin_header ++
    bytes "Content-Length: 0" ++ crlf

/-- Carry a decision out. -/
def perform (conn : mg_connection) (request_info : mg_request_info) : Decision → Server W Unit
  | .error status reason => http_error status reason
  | .options methods => reply (options_response (origin_of request_info) methods)
  | .start app_name => handle_app_start conn request_info app_name (origin_of request_info)
  | .status app_name => handle_app_status request_info app_name (origin_of request_info)
  | .stop app_name => handle_app_stop app_name (origin_of request_info)
  | .hide app_name => handle_app_hide app_name (origin_of request_info)
  | .dial_data app_name use_payload =>
    handle_dial_data conn request_info app_name (origin_of request_info) use_payload

/-- `request_handler` on `MG_NEW_REQUEST`. -/
def request_handler (conn : mg_connection) (request_info : mg_request_info) : Server W Unit := do
  let decision ← route request_info
  perform conn request_info decision

/-- `handle_request` of the web server, which calls `request_handler` and finds that it has
answered. -/
def handle_request (conn : mg_connection) (ri : mg_request_info) : Server W Unit :=
  request_handler conn (normalise ri)

end DialServer
