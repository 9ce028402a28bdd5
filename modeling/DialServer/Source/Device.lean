import DialServer.Source.Server

/-!
# The device

What the server runs on, as its callbacks see it: the list of applications that the configuration
gives, the application that the last callback was for, and the manager of the device, which is asked
to launch, suspend and kill applications. The manager is outside of the program. What it answers is
given in advance, one reply for each call, and each call is an event that carries its reply.
-/

namespace DialServer

open CLib

/-- `struct appInfo` without its `next` field. A null pointer is `none`. -/
structure appInfo where
  name : Option Bytes
  handler : Option Bytes
  callsign : Option Bytes
  hide : Option Bytes
  url : Option Bytes
  deriving DecidableEq, Repr

/-- A list of `appInfo` that begins with a node without contents: the entries of the nodes behind
that, and what the `next` field of the last node holds, which is null (`none`) or was never set. -/
structure AppInfoList where
  entries : List appInfo
  next : Option Pointer
  deriving DecidableEq, Repr

/-- The states that `GetAppState` of the application manager reports. -/
inductive APPMGR_APPSTATE
  | APPMGR_APPSTATE_STOPPED
  | APPMGR_APPSTATE_SUSPEND
  | APPMGR_APPSTATE_RUNNING
  | APPMGR_APPSTATE_INVALID
  deriving DecidableEq, Repr

/-- A call of the manager. The first six are the methods of the application manager that
`appman.cpp` calls, and the others the methods of the plugins that `thunder_api.cpp` calls. A JSON
object is the list of what has been set in it. -/
inductive ManagerCall
  | LaunchApp (appname : Bytes)
  | SetAppState (appname : Bytes) (state : APPMGR_APPSTATE)
  | GetAppState (appname : Bytes)
  | SetDeepLink (appname url : Bytes)
  | SetFocus (appname : Bytes)
  | KillApp (appname : Bytes)
  | broadcastEvent (event : String) (params : List (String × Bytes))
  | getPowerState
  | setPowerState (params : List (String × Bytes))
  | status (callsign : Bytes)
  | configitem (callsign : Bytes) (item : List (String × Bytes))
  | activate (callsign : Bytes)
  | deactivate (callsign : Bytes)
  | systemcommand (callsign command : Bytes)
  | deeplink (callsign launchURL : Bytes)
  | launch (callsign : Bytes)
  | suspend (callsign : Bytes)
  | setFocus (client : Bytes)
  deriving DecidableEq, Repr

/-- What the manager replies to a call: whether it has carried it out (`ERROR_NONE`), the state that
`GetAppState` reports, and the text in the result that the code looks for, when it is there. -/
structure Reply where
  ok : Bool
  state : APPMGR_APPSTATE
  text : Option Bytes
  deriving DecidableEq, Repr

/-- The global variables of the program, with the supply of memory and the replies of the manager to
the calls to come. `curAppForDial` is the position of an entry in the list. -/
structure Device where
  appInfoList : Option AppInfoList
  curAppForDial : Option ℕ
  _passivemode : Bool
  _appHidden : Bool
  supply : Supply
  replies : ℕ → Reply

/-- Programs on the device. -/
abbrev Manager (α : Type) := Program Device (ManagerCall × Reply) α

/-- A call of the manager. -/
def call (c : ManagerCall) : Manager Reply := do
  let reply ← Program.read fun d => d.replies 0
  Program.modify fun d => { d with replies := fun i => d.replies (i + 1) }
  Program.emit (c, reply)
  return reply

/-- A pointer is followed. When it is null, that is the end of the process. -/
def deref {α : Type} (p : Option α) : Manager α :=
  match p with
  | some a => return a
  | none => Program.stop

/-- `*appInfoList`, with the nodes behind it. -/
def get_list : Manager AppInfoList := do deref (← Program.read Device.appInfoList)

/-- The entry at a position of the list. -/
def get_entry (pos : ℕ) : Manager appInfo := do
  let list ← get_list
  deref list.entries[pos]?

/-- `*curAppForDial`. -/
def get_current : Manager appInfo := do
  let pos ← deref (← Program.read Device.curAppForDial)
  get_entry pos

/-- The loop of `matchAppInfo` over the nodes from a position on. A `next` field that was never set
is followed to an arbitrary place. -/
def match_loop (appname : Bytes) (next : Option Pointer) : List appInfo → ℕ → Manager Unit
  | [], _ => if next = none then return () else Program.stop
  | temp :: entries, pos => do
    let name ← deref temp.name
    if name = appname then Program.modify fun d => { d with curAppForDial := some pos }
    else match_loop appname next entries (pos + 1)

/-- The condition `curAppForDial && !strcmp(curAppForDial->name, appname)`. -/
def is_current (appname : Bytes) : Manager Bool := do
  match ← Program.read Device.curAppForDial with
  | none => return false
  | some pos =>
    let temp ← get_entry pos
    let name ← deref temp.name
    return name = appname

/-- `matchAppInfo`. -/
def matchAppInfo (appname : Bytes) : Manager Unit := do
  if ← is_current appname then return ()
  else
    let list ← get_list
    match_loop appname list.next list.entries 0

end DialServer
