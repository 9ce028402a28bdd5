import DialServer.Source.DialData
import DialServer.Source.Mongoose

/-!
# The server of `dial_server.c`

The server's state with what surrounds it (the mutex, the data files, the supply of resources, and
the world `W` on which the callbacks act), the lock functions, and the list of registered
applications. A position in the list stands for the pointer to a pointer that `find_app` returns:
position `i` is the `next` field of application `i - 1`, and the length of the list is the last
`next` field.
-/

namespace DialServer

open CLib

/-- `DIALStatus`. -/
inductive DIALStatus
  | kDIALStatusStopped
  | kDIALStatusHide
  | kDIALStatusRunning
  | kDIALStatusErrorNotImplemented
  | kDIALStatusErrorForbidden
  | kDIALStatusErrorUnauth
  | kDIALStatusError
  deriving DecidableEq, Repr

/-- `DIAL_MAX_PAYLOAD`. -/
def DIAL_MAX_PAYLOAD : ℕ := 4096

/-- `DIAL_MAX_ADDITIONALURL`. -/
def DIAL_MAX_ADDITIONALURL : ℕ := 1024

/-- A `void *` that the server stores and hands out but never follows: `DIAL_run_t` and
`callback_data`. -/
abbrev Pointer := ℕ

/-- `struct DIALAppCallbacks`, over the world that the callbacks act on. The server handle that each
of them is passed is left out. `start_cb` also returns what it leaves in `*run_id`, and `status_cb`
what it leaves in `*pCanStop`, when that pointer is not null. -/
structure DIALAppCallbacks (W : Type) where
  start_cb : (app_name payload : Bytes) → (query_string : Option Bytes) →
    (additionalDataUrl : Bytes) → (run_id callback_data : Pointer) → W → DIALStatus × Pointer × W
  hide_cb : (app_name : Bytes) → (run_id callback_data : Pointer) → W → DIALStatus × W
  stop_cb : (app_name : Bytes) → (run_id callback_data : Pointer) → W → W
  status_cb : (app_name : Bytes) → (run_id : Pointer) → (pCanStop : Option Bool) →
    (callback_data : Pointer) → W → DIALStatus × Option Bool × W

/-- `char payload[DIAL_MAX_PAYLOAD]`. -/
def Payload : Type := { field : Bytes // field.length = DIAL_MAX_PAYLOAD }

/-- `char corsAllowedOrigin[256]`, with the string in it. -/
def AllowList : Type := { list : Bytes // list.length < 256 }

/-- `struct DIALApp_`. -/
structure DIALApp (W : Type) where
  callbacks : DIALAppCallbacks W
  dial_data : List DIALData
  callback_data : Pointer
  run_id : Pointer
  state : DIALStatus
  name : Bytes
  payload : Payload
  useAdditionalData : Bool
  corsAllowedOrigin : AllowList

/-- What the server is built on and does not change: its port, as `DIAL_get_port` reads it, and
whether `atof` of a client's version is below 2.09. -/
structure Platform where
  port : UInt16
  version_below_2_09 : Bytes → Bool

/-- The server with what it acts on. `mux` is set while the mutex is held; `files` is the contents
of the data files by path. -/
structure System (W : Type) where
  apps : List (DIALApp W)
  mux : Bool
  files : Bytes → Option Bytes
  supply : Supply
  world : W
  platform : Platform

/-- A call of a callback, with its arguments. -/
inductive Callback
  | start (app_name payload : Bytes) (query_string : Option Bytes) (additionalDataUrl : Bytes)
      (run_id callback_data : Pointer)
  | hide (app_name : Bytes) (run_id callback_data : Pointer)
  | stop (app_name : Bytes) (run_id callback_data : Pointer)
  | status (app_name : Bytes) (run_id : Pointer) (pCanStop : Option Bool) (callback_data : Pointer)
  deriving DecidableEq, Repr

/-- The name that a callback is passed. -/
def Callback.app_name : Callback → Bytes
  | .start n _ _ _ _ _ | .hide n _ _ | .stop n _ _ | .status n _ _ _ => n

/-- What a call does besides changing the state: it takes and gives back the mutex, calls a callback
of the application at a position of the list, and writes to the connection. -/
inductive Event
  | lock
  | unlock
  | callback (pos : ℕ) (call : Callback)
  | write (text : Bytes)
  deriving DecidableEq, Repr

/-- Calls into the server. -/
abbrev Server (W α : Type) := Program (System W) Event α

variable {W : Type}

/-- `DIAL_create`, when it has the memory: no applications, and a mutex that is free. -/
def DIAL_create (files : Bytes → Option Bytes) (supply : Supply) (world : W) (platform : Platform) :
    System W :=
  { apps := [], mux := false, files, supply, world, platform }

/-- A program over the supply of resources, run by the server. -/
def alloc {α : Type} (p : Alloc α) : Server W α :=
  Program.within System.supply (fun supply s => { s with supply }) p

/-- `ds_lock`: `pthread_mutex_lock` fails, or waits until the mutex is free. -/
def ds_lock : Server W Bool := do
  if ← alloc request then
    -- Nothing in this call gives the mutex back, so that waiting for it does not end.
    if ← Program.read System.mux then Program.stop
    else
      Program.modify fun s => { s with mux := true }
      Program.emit .lock
      return true
  else return false

/-- `ds_unlock`, by the holder of the mutex. -/
def ds_unlock : Server W Unit := do
  Program.modify fun s => { s with mux := false }
  Program.emit .unlock

/-- `mg_printf` on the connection. -/
def reply (text : Bytes) : Server W Unit := Program.emit (.write (mg_printf text))

/-- `mg_send_http_error` on the connection. -/
def mg_send_http_error (status : ℕ) (reason fmt : Bytes) : Server W Unit := do
  let body := http_error_body status reason fmt
  reply (http_error_head status reason body.length)
  reply body

/-- `find_app`: the position of the first application of that name, or the end of the list. -/
def find_app : List (DIALApp W) → Bytes → ℕ
  | [], _ => 0
  | app :: apps, app_name => if app_name = app.name then 0 else find_app apps app_name + 1

/-- `*find_app(ds, app_name)`, with its position. -/
def get_app (app_name : Bytes) : Server W (ℕ × Option (DIALApp W)) :=
  Program.read fun s =>
    let pos := find_app s.apps app_name
    (pos, s.apps[pos]?)

/-- An assignment to fields of the application at a position. -/
def set_app (pos : ℕ) (f : DIALApp W → DIALApp W) : Server W Unit :=
  Program.modify fun s => { s with apps := s.apps.modify pos f }

/-- A read of `app->state`, for the application `app` that was found at a position. -/
def get_state (pos : ℕ) (app : DIALApp W) : Server W DIALStatus :=
  Program.read fun s => (s.apps[pos]?.getD app).state

/-- `DIAL_get_port`. -/
def DIAL_get_port : Server W UInt16 := Program.read fun s => s.platform.port

/-- `store_dial_data`. It ends the process when it cannot open the file. -/
def store_dial_data (app_name : Bytes) (data : List DIALData) : Server W Unit := do
  match ← alloc (getAppPath app_name) with
  | none => Program.stop
  | some filename =>
    if ← alloc request then
      Program.modify fun s =>
        { s with files := Function.update s.files filename (some (print_dial_data data)) }
    else Program.stop

/-- `retrieve_dial_data`. -/
def retrieve_dial_data (app_name : Bytes) : Server W (List DIALData) := do
  match ← alloc (getAppPath app_name) with
  | none => return []
  | some filename =>
    let file ← Program.read fun s => s.files filename
    match file with
    | none => return []
    | some file =>
      if ← alloc request then alloc (retrieve_from file) else return []

/-- What `malloc(sizeof(DIALApp))` leaves in the fields that `DIAL_register_app` does not set. -/
structure Block where
  payload : Payload
  run_id : Pointer

/-- `DIAL_register_app`, with the block that `malloc` returns if it returns one. An allow list that
is null or too long leaves by a path of its own. -/
def DIAL_register_app (app_name : Bytes) (callbacks : DIALAppCallbacks W) (user_data : Pointer)
    (useAdditionalData : Bool) (corsAllowedOrigin : Option Bytes) (block : Block) :
    Server W ℤ := do
  if !(← ds_lock) then return -1
  else
    let (ptr, app) ← get_app app_name
    match app with
    | some _ =>
      ds_unlock
      return 0
    | none =>
      if !(← alloc request) then              -- app
        ds_unlock
        return -1
      else if !(← alloc request) then         -- app->name
        ds_unlock
        return -1
      else
        let dial_data ← retrieve_dial_data app_name
        match corsAllowedOrigin with
        | none => return -1                   -- with the mutex held
        | some list =>
          if h : list.length < 256 then
            let app : DIALApp W :=
              { callbacks, dial_data, callback_data := user_data, run_id := block.run_id,
                state := .kDIALStatusStopped, name := app_name, payload := block.payload,
                useAdditionalData, corsAllowedOrigin := ⟨list, h⟩ }
            Program.modify fun s => { s with apps := s.apps.insertIdx ptr app }
            ds_unlock
            return 1
          else return -1                      -- with the mutex held

/-- `DIAL_unregister_app`. -/
def DIAL_unregister_app (app_name : Bytes) : Server W ℤ := do
  if !(← ds_lock) then return -1
  else
    let (ptr, app) ← get_app app_name
    match app with
    | none =>
      ds_unlock
      return 0
    | some _ =>
      Program.modify fun s => { s with apps := s.apps.eraseIdx ptr }
      ds_unlock
      return 1

/-- `DIAL_get_payload`: the field that the pointer it returns points to. -/
def DIAL_get_payload (app_name : Bytes) : Server W (Option Payload) :=
  Program.read fun s => s.apps[find_app s.apps app_name]?.map DIALApp.payload

end DialServer
