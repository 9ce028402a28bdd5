import DialServer.Source.Backends

/-!
# The callbacks

The callbacks of `main.c`, `nf_callbacks.c` and `amazon_callbacks.c`, and the
registration of the applications in `runDial`. A callback is a program on the device. For the server
the device is its world, to which the calls of the manager are added as they are made; a callback in
which a null pointer is followed ends the process, and the world says so.
-/

namespace DialServer

open CLib DIALStatus

/-- `snprintf` into a buffer of `size` characters, with its terminator. -/
def snprintf (size : ℕ) (text : Bytes) : Bytes := text.take (size - 1)

/-- `strcat` to a buffer of `size` characters, which must have room for the terminator too. -/
def strcat (size : ℕ) (dest src : Bytes) : Manager Bytes :=
  if dest.length + src.length < size then return dest ++ src else Program.stop

/-- A program over the supply of memory, run on the device. -/
def alloc_device {α : Type} (p : Alloc α) : Manager α :=
  Program.within Device.supply (fun supply d => { d with supply }) p

/-! ## What the callbacks share -/

/-- The end of a start: the application is activated with a text. -/
def start_current (build : Build) (url : Bytes) : Manager DIALStatus := do
  let app ← get_current
  let ret ← activateApp build app.callsign url
  if ret = 0 then return kDIALStatusRunning else return kDIALStatusStopped

/-- The hide callback of every application. -/
def hide_current (build : Build) (app_name : Bytes) : Manager DIALStatus := do
  matchAppInfo app_name
  let app ← get_current
  let hidden ← hideApp build app.callsign
  if hidden then return kDIALStatusHide else return kDIALStatusError

/-- The status callback of every application, with what it leaves in `*pCanStop`. -/
def status_current (build : Build) (appname : Bytes) (pCanStop : Option Bool) :
    Manager (DIALStatus × Option Bool) := do
  matchAppInfo appname
  let app ← get_current
  let status ← getAppStatus build app.callsign
  return (status, pCanStop.map fun _ => true)

/-- The stop callback of every application. -/
def stop_current (build : Build) (appname : Bytes) : Manager Unit := do
  matchAppInfo appname
  let app ← get_current
  let _ ← deActivateApp build app.callsign

/-! ## YouTube -/

/-- The URL that `youtube_start` prints into a buffer of 512 characters. -/
def youtube_url (url : Option Bytes) (payload additionalDataUrl : Bytes) : Bytes :=
  if payload.length ≠ 0 ∧ additionalDataUrl.length ≠ 0 then
    snprintf 512 (print_ptr url ++ bytes "?" ++ additionalDataUrl ++ bytes "&" ++ payload ++
      bytes "&inApp=true")
  else if payload.length ≠ 0 then
    snprintf 512 (print_ptr url ++ bytes "?" ++ payload ++ bytes "&inApp=true")
  else snprintf 512 (print_ptr url ++ bytes "&inApp=true")

/-- `youtube_start`. -/
def youtube_start (build : Build) (appname payload additionalDataUrl : Bytes) :
    Manager DIALStatus := do
  matchAppInfo appname
  let app ← get_current
  start_current build (youtube_url app.url payload additionalDataUrl)

/-- `youtube_hide`. -/
def youtube_hide (build : Build) (app_name : Bytes) : Manager DIALStatus :=
  hide_current build app_name

/-- `youtube_status`. -/
def youtube_status (build : Build) (appname : Bytes) (pCanStop : Option Bool) :
    Manager (DIALStatus × Option Bool) :=
  status_current build appname pCanStop

/-- `youtube_stop`. -/
def youtube_stop (build : Build) (appname : Bytes) : Manager Unit := stop_current build appname

/-! ## Netflix -/

/-- `defaultLaunchParam`. -/
def defaultLaunchParam : Bytes := bytes "source_type=12"

/-- `sizeof(sQueryParam)`. -/
def sQueryParam_size : ℕ := 3 * DIAL_MAX_PAYLOAD + DIAL_MAX_ADDITIONALURL + 40

/-- The part of `netflix_start` that adds the payload to `sQueryParam`; `none` when it returns
`kDIALStatusError`. -/
def add_payload (sQueryParam payload : Bytes) : Manager (Option Bytes) := do
  if payload.length ≠ 0 then
    match ← alloc_device (url_encode payload) with
    | some pUrlEncodedParams =>
      if sQueryParam.length + pUrlEncodedParams.length < sQueryParam_size then
        let sQueryParam ← strcat sQueryParam_size sQueryParam pUrlEncodedParams
        return some sQueryParam
      else return none
    | none => return some sQueryParam
  else return some sQueryParam

/-- The part of `netflix_start` that adds the parameter for the additional data. The test counts the
terminator of `"&"` too. -/
def add_additional (sQueryParam additionalDataUrl : Bytes) : Manager (Option Bytes) := do
  if additionalDataUrl.length ≠ 0 then
    if sQueryParam.length + ((bytes "&").length + 1) + additionalDataUrl.length <
        sQueryParam_size then
      let sQueryParam ← strcat sQueryParam_size sQueryParam (bytes "&")
      let sQueryParam ← strcat sQueryParam_size sQueryParam additionalDataUrl
      return some sQueryParam
    else return none
  else return some sQueryParam

/-- `netflix_start`. -/
def netflix_start (build : Build) (appname payload additionalDataUrl : Bytes) :
    Manager DIALStatus := do
  let sQueryParam := defaultLaunchParam.take (sQueryParam_size - 1)
  let sQueryParam ← strcat sQueryParam_size sQueryParam (bytes "&dial=")
  match ← add_payload sQueryParam payload with
  | none => return kDIALStatusError
  | some sQueryParam =>
    match ← add_additional sQueryParam additionalDataUrl with
    | none => return kDIALStatusError
    | some sQueryParam =>
      matchAppInfo appname
      start_current build sQueryParam

/-- `netflix_hide`. -/
def netflix_hide (build : Build) (app_name : Bytes) : Manager DIALStatus :=
  hide_current build app_name

/-- `netflix_status`. -/
def netflix_status (build : Build) (appname : Bytes) (pCanStop : Option Bool) :
    Manager (DIALStatus × Option Bool) :=
  status_current build appname pCanStop

/-- `netflix_stop`. -/
def netflix_stop (build : Build) (appname : Bytes) : Manager Unit := stop_current build appname

/-! ## Amazon -/

/-- `amazon_start`. -/
def amazon_start (build : Build) (appname : Bytes) : Manager DIALStatus := do
  matchAppInfo appname
  start_current build []

/-- `amazon_hide`. -/
def amazon_hide (build : Build) (app_name : Bytes) : Manager DIALStatus :=
  hide_current build app_name

/-- `amazon_status`. -/
def amazon_status (build : Build) (appname : Bytes) (pCanStop : Option Bool) :
    Manager (DIALStatus × Option Bool) :=
  status_current build appname pCanStop

/-- `amazon_stop`. -/
def amazon_stop (build : Build) (appname : Bytes) : Manager Unit := stop_current build appname

/-! ## The world of the server -/

/-- The device as the world of the server, with the calls of the manager that have been made and
their replies. -/
structure World where
  device : Device
  made : List (ManagerCall × Reply)
  crashed : Bool

/-- A callback in the world. Its result does not matter when the process has ended in it. -/
def World.run {α : Type} (p : Manager α) (result : α) (w : World) : α × World :=
  match p w.device with
  | some (a, e, device) => (a, { w with device, made := w.made ++ e })
  | none => (result, { w with crashed := true })

/-- Callbacks for the server, from a start callback for a name, a payload and a parameter for the
additional data, and the three others. They leave `*run_id` alone. -/
def device_callbacks (start : Bytes → Bytes → Bytes → Manager DIALStatus)
    (hide : Bytes → Manager DIALStatus) (stop : Bytes → Manager Unit)
    (status : Bytes → Option Bool → Manager (DIALStatus × Option Bool)) :
    DIALAppCallbacks World where
  start_cb app_name payload _ additionalDataUrl run_id _ w :=
    let (state, w) := w.run (start app_name payload additionalDataUrl) kDIALStatusError
    (state, run_id, w)
  hide_cb app_name _ _ w := w.run (hide app_name) kDIALStatusError
  stop_cb app_name _ _ w := (w.run (stop app_name) ()).2
  status_cb app_name _ pCanStop _ w :=
    let ((state, canStop), w) := w.run (status app_name pCanStop) (kDIALStatusError, pCanStop)
    (state, canStop, w)

/-! ## Registration -/

/-- `cb_yt`. -/
def cb_yt (build : Build) : DIALAppCallbacks World :=
  device_callbacks (youtube_start build) (youtube_hide build) (youtube_stop build)
    (youtube_status build)

/-- `cb_nf`. -/
def cb_nf (build : Build) : DIALAppCallbacks World :=
  device_callbacks (netflix_start build) (netflix_hide build) (netflix_stop build)
    (netflix_status build)

/-- `cb_amazon`. -/
def cb_amazon (build : Build) : DIALAppCallbacks World :=
  device_callbacks (fun appname _ _ => amazon_start build appname) (amazon_hide build)
    (amazon_stop build) (amazon_status build)

/-- The callbacks and the allow list that `runDial` registers for a handler that it knows. -/
def app_handler (build : Build) (handler : Bytes) :
    Option (DIALAppCallbacks World × Bytes) :=
  if handler = bytes "YouTube" then
    some (cb_yt build, bytes "https://youtube.com https://*.youtube.com package:*")
  else if handler = bytes "Netflix" then
    some (cb_nf build, bytes "https://netflix.com https://www.netflix.com")
  else if handler = bytes "Amazon" then
    some (cb_amazon build, bytes "https://*.com https://www.*.com")
  else none

/-- The body of the loop of `runDial`, with the result of the registration if there is one. -/
def register_entry (build : Build) (temp : appInfo) (block : Block) : Server World (Option ℤ) :=
  match temp.handler with
  | none => Program.stop
  | some handler =>
    match app_handler build handler with
    | none => return none
    | some (callbacks, corsAllowedOrigin) =>
      match temp.name with
      | none => Program.stop
      | some name => do
        let result ← DIAL_register_app name callbacks 0 true (some corsAllowedOrigin) block
        return some result

/-- The loop of `runDial` over the nodes from a position on, with the blocks that `malloc` returns
for the records. -/
def register_entries (build : Build) (next : Option Pointer) :
    List appInfo → (ℕ → Block) → Server World Unit
  | [], _ => if next = none then return () else Program.stop
  | temp :: entries, blocks => do
    let _ ← register_entry build temp (blocks 0)
    register_entries build next entries fun i => blocks (i + 1)

/-- `runDial` up to the start of the server, on the server that `DIAL_create` has returned. -/
def runDial (build : Build) (blocks : ℕ → Block) : Server World Unit := do
  match ← Program.read fun s => s.world.device.appInfoList with
  | none => Program.stop
  | some list => register_entries build list.next list.entries blocks

end DialServer
