import DialServer.Source.Server

/-!
# The handlers of `dial_server.c`

What the server does with a request once the router has found the application's name: start,
status, stop, hide, and the dial data. Each handler takes the mutex, looks the application up, and
gives the mutex back by hand on every path.
-/

namespace DialServer

open CLib DIALStatus

/-- `DIAL_DATA_SIZE`. -/
def DIAL_DATA_SIZE : ℕ := 8 * 1024

/-- `DIAL_VERSION`. -/
def DIAL_VERSION : Bytes := bytes "\"2.2\""

/-- `isBadPayload`. The characters above 0x7f are negative for the code, and its first test catches
them. -/
def isBadPayload (payload : Bytes) : Bool :=
  payload.any fun c => c &&& 0x80 = 0x80 || c = 0x7f || c ≤ 0x1f

/-- `url_decode_xml_encode`: what it leaves in `dst`, or `none` without memory. -/
def url_decode_xml_encode (src : Bytes) (src_size : ℕ) : Alloc (Option Bytes) := do
  if ← request then
    let url_decoded_key := (urldecode src src_size).1
    return some (xmlencode (cstr url_decoded_key) (2 * src_size))
  else return none

variable {W : Type}

/-! ## Calls of the callbacks -/

/-- `app->callbacks.status_cb`. -/
def call_status_cb (pos : ℕ) (app : DIALApp W) (app_name : Bytes) (pCanStop : Option Bool) :
    Server W (DIALStatus × Option Bool) := do
  Program.emit (.callback pos (.status app_name app.run_id pCanStop app.callback_data))
  let world ← Program.read System.world
  let (state, canStop, world) :=
    app.callbacks.status_cb app_name app.run_id pCanStop app.callback_data world
  Program.modify fun s => { s with world }
  return (state, canStop)

/-- `app->callbacks.start_cb`. -/
def call_start_cb (pos : ℕ) (app : DIALApp W) (app_name payload : Bytes)
    (query_string : Option Bytes) (additionalDataUrl : Bytes) :
    Server W (DIALStatus × Pointer) := do
  Program.emit (.callback pos
    (.start app_name payload query_string additionalDataUrl app.run_id app.callback_data))
  let world ← Program.read System.world
  let (state, run_id, world) := app.callbacks.start_cb app_name payload query_string
    additionalDataUrl app.run_id app.callback_data world
  Program.modify fun s => { s with world }
  return (state, run_id)

/-- `app->callbacks.hide_cb`. -/
def call_hide_cb (pos : ℕ) (app : DIALApp W) (app_name : Bytes) : Server W DIALStatus := do
  Program.emit (.callback pos (.hide app_name app.run_id app.callback_data))
  let world ← Program.read System.world
  let (status, world) := app.callbacks.hide_cb app_name app.run_id app.callback_data world
  Program.modify fun s => { s with world }
  return status

/-- `app->callbacks.stop_cb`. -/
def call_stop_cb (pos : ℕ) (app : DIALApp W) (app_name : Bytes) : Server W Unit := do
  Program.emit (.callback pos (.stop app_name app.run_id app.callback_data))
  let world ← Program.read System.world
  let world := app.callbacks.stop_cb app_name app.run_id app.callback_data world
  Program.modify fun s => { s with world }

/-! ## Responses -/

/-- An error whose reason is also its body, as the handlers and the router send them. -/
def http_error (status : ℕ) (reason : String) : Server W Unit :=
  mg_send_http_error status (bytes reason) (bytes reason)

/-- The answer when the mutex or memory is not to be had. -/
def internal_server_error : Server W Unit := http_error 500 "500 Internal Server Error"

/-- The line of a response that names the allowed origin. -/
def allow_origin_line (origin_header : Option Bytes) : Bytes :=
  bytes "Access-Control-Allow-Origin: " ++ print_ptr origin_header ++ crlf

/-- The path of the application's run, in the `Location` header of a start. -/
def run_path (app_name : Bytes) : Bytes := bytes "/apps/" ++ app_name ++ bytes "/run"

/-- The answer to a start, with its status code. -/
def created_response (code : String) (laddr : Bytes) (dial_port : UInt16) (app_name : Bytes)
    (origin_header : Option Bytes) : Bytes :=
  bytes "HTTP/1.1 " ++ bytes code ++ bytes " Created" ++ crlf ++
    bytes "Content-Type: text/plain" ++ crlf ++
    bytes "Location: http://" ++ laddr ++ bytes ":" ++ dec dial_port.toNat ++ run_path app_name ++
    crlf ++ allow_origin_line origin_header ++ crlf

/-- The answer to a stop and to a hide. -/
def ok_response (origin_header : Option Bytes) : Bytes :=
  bytes "HTTP/1.1 200 OK" ++ crlf ++ bytes "Content-Type: text/plain" ++ crlf ++
    allow_origin_line origin_header ++ crlf

/-- The answer to dial data. -/
def dial_data_response (origin_header : Option Bytes) : Bytes :=
  bytes "HTTP/1.1 200 OK" ++ crlf ++ allow_origin_line origin_header ++ crlf

/-- The word for a state, `dial_state_str`. -/
def dial_state_str : DIALStatus → Bytes
  | kDIALStatusHide => bytes "hidden"
  | kDIALStatusRunning => bytes "running"
  | _ => bytes "stopped"

/-- The answer to a status request up to the additional data. -/
def status_head (origin_header : Option Bytes) (name : Bytes) (canStop : Bool)
    (localState : DIALStatus) : Bytes :=
  bytes "HTTP/1.1 200 OK" ++ crlf ++ bytes "Content-Type: text/xml" ++ crlf ++
    allow_origin_line origin_header ++ crlf ++
    bytes "<?xml version=\"1.0\" encoding=\"UTF-8\"?>\r\n" ++
    bytes "<service xmlns=\"urn:dial-multiscreen-org:schemas:dial\" dialVer=" ++ DIAL_VERSION ++
    bytes ">\r\n" ++
    bytes "  <name>" ++ name ++ bytes "</name>\r\n" ++
    bytes "  <options allowStop=\"" ++ (if canStop then bytes "true" else bytes "false") ++
    bytes "\"/>\r\n" ++
    bytes "  <state>" ++ dial_state_str localState ++ bytes "</state>\r\n" ++
    (if localState = kDIALStatusStopped then []
      else bytes "  <link rel=\"run\" href=\"run\"/>\r\n") ++
    bytes "  <additionalData>\n"

/-- The text that follows the additional data. -/
def additional_data_end : Bytes := bytes "\n  </additionalData>"

/-- The whole answer to a status request. -/
def status_response (origin_header : Option Bytes) (name : Bytes) (canStop : Bool)
    (localState : DIALStatus) (dial_data : Bytes) : Bytes :=
  status_head origin_header name canStop localState ++ dial_data ++ additional_data_end ++
    bytes "\n</service>\r\n"

/-! ## The handlers -/

/-- What a handler does with the mutex held: look the application up, and answer 404 when it is not
there. -/
def found (app_name : Bytes) (body : ℕ → DIALApp W → Server W Unit) : Server W Unit := do
  let (pos, app) ← get_app app_name
  match app with
  | none =>
    http_error 404 "Not Found"
    ds_unlock
  | some app => body pos app

/-- The opening that the handlers share: take the mutex, or answer 500, and look the application
up. -/
def with_app (app_name : Bytes) (body : ℕ → DIALApp W → Server W Unit) : Server W Unit := do
  if !(← ds_lock) then internal_server_error
  else found app_name body

/-- The additional data parameter that an application is started with. -/
def additional_data_param (useAdditionalData : Bool) (dial_port : UInt16) (app_name : Bytes) :
    Bytes :=
  if useAdditionalData then
    mg_vsnprintf DIAL_MAX_ADDITIONALURL
      (bytes "additionalDataUrl=http%3A%2F%2Flocalhost%3A" ++ dec dial_port.toNat ++
        bytes "%2Fapps%2F" ++ app_name ++ bytes "%2Fdial_data%3F")
  else []

/-- The payload field after `memset` and `memcpy` of a body that fits. -/
def copy_payload (body : Bytes) (h : ¬body.length > DIAL_MAX_PAYLOAD) : Payload :=
  ⟨body ++ List.replicate (DIAL_MAX_PAYLOAD - body.length) 0, by simp; omega⟩

/-- `handle_app_start` once the callbacks have been called, for the state of the application then.
-/
def answer_start (pos : ℕ) (app_name laddr : Bytes) (dial_port : UInt16)
    (origin_header : Option Bytes) (payload : Payload) (response200Flag : Bool)
    (state : DIALStatus) : Server W Unit := do
  -- The payload is copied into the record in the first two of the six cases.
  if state = kDIALStatusRunning ∧ response200Flag = false then
    reply (created_response "201" laddr dial_port app_name origin_header)
    set_app pos fun app => { app with payload }
    ds_unlock
  else if state = kDIALStatusRunning ∧ response200Flag = true then
    reply (created_response "200" laddr dial_port app_name origin_header)
    set_app pos fun app => { app with payload }
    ds_unlock
  else if state = kDIALStatusErrorForbidden then
    http_error 403 "Forbidden"
    ds_unlock
  else if state = kDIALStatusErrorUnauth then
    http_error 401 "Unauthorized"
    ds_unlock
  else if state = kDIALStatusErrorNotImplemented then
    http_error 501 "Not Implemented"
    ds_unlock
  else
    http_error 503 "Service Unavailable"
    ds_unlock

/-- The body that `handle_app_start` reads: `sizeof(body) - 1` bytes at most. -/
def start_body (conn : mg_connection) : Bytes :=
  (mg_read conn (DIAL_MAX_PAYLOAD + DIAL_MAX_ADDITIONALURL + 2 - 1)).1

/-- `handle_app_start` on the application it has found. -/
def start_app (conn : mg_connection) (request_info : mg_request_info) (app_name : Bytes)
    (origin_header : Option Bytes) (pos : ℕ) (app : DIALApp W) : Server W Unit := do
  let body := start_body conn
  if h : body.length > DIAL_MAX_PAYLOAD then
    http_error 413 "413 Request Entity Too Large"
    ds_unlock
  else if isBadPayload body then
    http_error 400 "400 Bad Request"
    ds_unlock
  else
    let laddr := inet_ntop request_info.local_addr
    let dial_port ← DIAL_get_port
    let additionalDataUrl := additional_data_param app.useAdditionalData dial_port app_name
    -- YouTube is not started without an origin, and answers 200 when it is running already.
    let isYouTube := (strstr app_name (bytes "YouTube")).isSome
    if origin_header = none ∧ isYouTube then
      http_error 403 "Forbidden"
      ds_unlock
    else
      let (state, _) ← call_status_cb pos app app_name none
      set_app pos fun app => { app with state }
      let response200Flag := state = kDIALStatusRunning && isYouTube
      let (state, run_id) ←
        call_start_cb pos app app_name (cstr body) request_info.query_string additionalDataUrl
      set_app pos fun app => { app with state, run_id }
      let state ← get_state pos app
      answer_start pos app_name laddr dial_port origin_header (copy_payload body h)
        response200Flag state

/-- `handle_app_start`. -/
def handle_app_start (conn : mg_connection) (request_info : mg_request_info) (app_name : Bytes)
    (origin_header : Option Bytes) : Server W Unit :=
  with_app app_name (start_app conn request_info app_name origin_header)

/-- The loop of `handle_app_status` over the dial data, with the text accumulated so far; `none`
when an allocation fails. -/
def additional_data_loop : List DIALData → Bytes → Alloc (Option Bytes)
  | [], p => return some p
  | first :: rest, p => do
    let p := smartstrncpy p (bytes "    <") (DIAL_DATA_SIZE - p.length)
    if !(← request) then return none
    else
      match ← url_decode_xml_encode first.key first.key.length with
      | none => return none
      | some encoded_key =>
        if !(← request) then return none
        else
          match ← url_decode_xml_encode first.value first.value.length with
          | none => return none
          | some encoded_value =>
            let p := smartstrncpy p encoded_key (DIAL_DATA_SIZE - p.length)
            let p := smartstrncpy p (bytes ">") (DIAL_DATA_SIZE - p.length)
            let p := smartstrncpy p encoded_value (DIAL_DATA_SIZE - p.length)
            let p := smartstrncpy p (bytes "</") (DIAL_DATA_SIZE - p.length)
            let p := smartstrncpy p encoded_key (DIAL_DATA_SIZE - p.length)
            let p := smartstrncpy p (bytes ">") (DIAL_DATA_SIZE - p.length)
            additional_data_loop rest p

/-- `handle_app_status` on the application it has found. -/
def status_app (below_2_09 : Bool) (app_name : Bytes) (origin_header : Option Bytes) (pos : ℕ)
    (app : DIALApp W) : Server W Unit := do
  match ← alloc (additional_data_loop app.dial_data []) with
  | none =>
    internal_server_error
    ds_unlock
  | some dial_data =>
    let (state, canStop) ← call_status_cb pos app app_name (some false)
    set_app pos fun app => { app with state }
    let localState ← get_state pos app
    -- A client before 2.1 is not told that an application is hidden.
    let localState :=
      if below_2_09 && localState = kDIALStatusHide then kDIALStatusStopped else localState
    reply (status_response origin_header app.name (canStop.getD false) localState dial_data)
    ds_unlock

/-- The test `clientVersion < 2.09` of `handle_app_status`; without the parameter the version is
0.0. -/
def client_below_2_09 (platform : Platform) : Option Bytes → Bool
  | some version => platform.version_below_2_09 version
  | none => true

/-- `handle_app_status`. -/
def handle_app_status (request_info : mg_request_info) (app_name : Bytes)
    (origin_header : Option Bytes) : Server W Unit := do
  let clientVersionStr ← alloc (parse_param request_info.query_string (bytes "clientDialVer"))
  let platform ← Program.read System.platform
  with_app app_name
    (status_app (client_below_2_09 platform clientVersionStr) app_name origin_header)

/-- `handle_app_stop` on the application it has found. -/
def stop_app (app_name : Bytes) (origin_header : Option Bytes) (pos : ℕ) (app : DIALApp W) :
    Server W Unit := do
  let (state, _) ← call_status_cb pos app app_name (some false)
  set_app pos fun app => { app with state }
  let state ← get_state pos app
  if state = kDIALStatusStopped then
    http_error 404 "Not Found"
    ds_unlock
  else
    call_stop_cb pos app app_name
    set_app pos fun app => { app with state := kDIALStatusStopped }
    reply (ok_response origin_header)
    ds_unlock

/-- `handle_app_stop`. The system application is refused before the lookup. -/
def handle_app_stop (app_name : Bytes) (origin_header : Option Bytes) : Server W Unit := do
  if !(← ds_lock) then internal_server_error
  else if app_name = bytes "system" then
    -- "Can't stop system app."
    http_error 403 "Forbidden"
    ds_unlock
  else found app_name (stop_app app_name origin_header)

/-- `handle_app_hide` on the application it has found. -/
def hide_app (app_name : Bytes) (origin_header : Option Bytes) (pos : ℕ) (app : DIALApp W) :
    Server W Unit := do
  let (state, _) ← call_status_cb pos app app_name (some false)
  set_app pos fun app => { app with state }
  let state ← get_state pos app
  if state ≠ kDIALStatusRunning ∧ state ≠ kDIALStatusHide then
    http_error 404 "Not Found"
    ds_unlock
  else
    let status ← call_hide_cb pos app app_name
    if status ≠ kDIALStatusHide then
      http_error 501 "Not Implemented"
      ds_unlock
    else
      set_app pos fun app => { app with state := kDIALStatusHide }
      reply (ok_response origin_header)
      ds_unlock

/-- `handle_app_hide`. -/
def handle_app_hide (app_name : Bytes) (origin_header : Option Bytes) : Server W Unit :=
  with_app app_name (hide_app app_name origin_header)

/-- The last part of `handle_dial_data`, with the payload in `body`. -/
def replace_dial_data (body : Bytes) (origin_header : Option Bytes) (pos : ℕ) (app : DIALApp W) :
    Server W Unit := do
  if isBadPayload body then
    http_error 400 "400 Bad Request"
    ds_unlock
  else
    -- The old list is freed before the new text is parsed.
    set_app pos fun app => { app with dial_data := [] }
    let dial_data ← alloc (parse_params (cstr body))
    set_app pos fun app => { app with dial_data }
    store_dial_data app.name dial_data
    reply (dial_data_response origin_header)
    ds_unlock

/-- `handle_dial_data` on the application it has found. -/
def dial_data_app (conn : mg_connection) (request_info : mg_request_info)
    (origin_header : Option Bytes) (use_payload : Bool) (pos : ℕ) (app : DIALApp W) :
    Server W Unit := do
  if use_payload then
    replace_dial_data (mg_read conn DIAL_DATA_MAX_PAYLOAD).1 origin_header pos app
  else
    match request_info.query_string with
    | some query_string =>
      if query_string.length > DIAL_DATA_MAX_PAYLOAD then
        http_error 413 "413 Request Entity Too Large"
        ds_unlock
      else replace_dial_data query_string origin_header pos app
    | none => replace_dial_data [] origin_header pos app

/-- `handle_dial_data`. -/
def handle_dial_data (conn : mg_connection) (request_info : mg_request_info) (app_name : Bytes)
    (origin_header : Option Bytes) (use_payload : Bool) : Server W Unit :=
  with_app app_name (dial_data_app conn request_info origin_header use_payload)

end DialServer
