import DialServer.Source.Device
import DialServer.Source.Mongoose

/-!
# `appman.cpp` and `thunder_api.cpp`

The two implementations of the functions with which the callbacks act on applications. A build has
one of them. In the passive mode nothing is done to the application; what happens then, and which
calls of the manager are made in the active mode, is different in the two.
-/

namespace DialServer

open CLib DIALStatus APPMGR_APPSTATE

/-- The comparison of the handler of the current application with a literal. -/
def current_handler_is (handler : String) : Manager Bool := do
  let app ← get_current
  let name ← deref app.handler
  return name = bytes handler

/-- The launch URL, as both files build it by concatenation. -/
def launch_url (url : Bytes) : Bytes := bytes "\"" ++ url ++ bytes "&launch=dial" ++ bytes "\""

namespace appman

/-- `getAppStatus`. A state of another number than these is handled like `APPMGR_APPSTATE_INVALID`.
-/
def getAppStatus (callsign : Option Bytes) : Manager DIALStatus := do
  let appname ← deref callsign
  let reply ← call (.GetAppState appname)
  match reply.state with
  | APPMGR_APPSTATE_STOPPED => return kDIALStatusStopped
  | APPMGR_APPSTATE_SUSPEND => return kDIALStatusHide
  | APPMGR_APPSTATE_RUNNING => return kDIALStatusRunning
  | APPMGR_APPSTATE_INVALID => return kDIALStatusError

/-- `hideApp`. -/
def hideApp (callsign : Option Bytes) : Manager Bool := do
  if ← Program.read Device._passivemode then return true
  else
    let appname ← deref callsign
    let _ ← call (.SetAppState appname APPMGR_APPSTATE_SUSPEND)
    return true

/-- `resumeApp`. -/
def resumeApp (callsign : Option Bytes) : Manager Bool := do
  let appname ← deref callsign
  let _ ← call (.SetAppState appname APPMGR_APPSTATE_RUNNING)
  return true

/-- The first branch of `activateApp` in the active mode, on the status of the application. -/
def bring_up (appStatus : DIALStatus) (callsign : Option Bytes) : Manager Unit := do
  if appStatus = kDIALStatusHide then
    let _ ← resumeApp callsign
    -- For Netflix there is an empty branch here.
    let _ ← current_handler_is "Netflix"
  else if appStatus = kDIALStatusStopped ∨ appStatus = kDIALStatusError then
    let appname ← deref callsign
    let _ ← call (.LaunchApp appname)
  else return ()

/-- The second branch, for YouTube. -/
def set_deep_link (callsign : Option Bytes) (url : Bytes) : Manager Unit := do
  if ← current_handler_is "YouTube" then
    let appname ← deref callsign
    let _ ← call (.SetDeepLink appname (launch_url url))
  else return ()

/-- `activateApp`. -/
def activateApp (callsign : Option Bytes) (url : Bytes) : Manager ℤ := do
  if ← Program.read Device._passivemode then return 0
  else
    let appStatus ← getAppStatus callsign
    bring_up appStatus callsign
    set_deep_link callsign url
    let appname ← deref callsign
    let _ ← call (.SetFocus appname)
    return 0

/-- `deActivateApp`. -/
def deActivateApp (callsign : Option Bytes) : Manager ℤ := do
  if ← Program.read Device._passivemode then return 0
  else
    let appname ← deref callsign
    let _ ← call (.KillApp appname)
    Program.modify fun d => { d with _appHidden := false }
    return 0

end appman

namespace thunder_api

/-- `getAppStatus`. The text that the code looks for is the state in the only element of the
result. -/
def getAppStatus (callsign : Option Bytes) : Manager DIALStatus := do
  let callsign ← deref callsign
  let reply ← call (.status callsign)
  if reply.ok then
    match reply.text with
    | some state =>
      if state = bytes "resumed" then return kDIALStatusRunning
      else if state = bytes "suspended" then return kDIALStatusHide
      else if state = bytes "deactivated" then return kDIALStatusStopped
      else return kDIALStatusError
    | none => return kDIALStatusError
  else return kDIALStatusError

/-- `hideApp`. -/
def hideApp (callsign : Option Bytes) : Manager Bool := do
  if ← Program.read Device._passivemode then
    let callsign ← deref callsign
    let _ ← call (.broadcastEvent "dialHideRequest" [("callsign", callsign)])
    Program.modify fun d => { d with _appHidden := true }
    return true
  else
    let callsign ← deref callsign
    let reply ← call (.suspend callsign)
    if reply.ok then
      Program.modify fun d => { d with _appHidden := true }
      return true
    else return false

/-- `resumeApp`. -/
def resumeApp (callsign : Option Bytes) : Manager Bool := do
  let callsign ← deref callsign
  let reply ← call (.launch callsign)
  if reply.ok then
    let _ ← call (.setFocus callsign)
    Program.modify fun d => { d with _appHidden := false }
    return true
  else return false

/-- The part of `activateApp` that asks for power. -/
def wake_up : Manager Unit := do
  let reply ← call .getPowerState
  if reply.ok ∧ reply.text = some (bytes "ON") then return ()
  else
    let _ ← call (.setPowerState
      [("powerState", bytes "ON"), ("standbyReason", bytes "DIAL StartApplication")])

/-- The branch of `activateApp` for an application that is hidden. -/
def resume_hidden (callsign : Option Bytes) (url : Bytes) : Manager Unit := do
  let _ ← resumeApp callsign
  if ← current_handler_is "Netflix" then
    let callsign ← deref callsign
    let _ ← call (.systemcommand callsign url)
  else return ()

/-- The item with which an application is configured before it is activated, if it has one of the
three handlers. -/
def launch_item (app : appInfo) (handler : Bytes) (url : Bytes) :
    Option (List (String × Bytes)) :=
  if handler = bytes "YouTube" then
    some (("launchtype", bytes "launch=dial") ::
      if app.name = some (bytes "YouTubeTV") ∧ (strstr url (bytes "loader=yts")).isSome then
        [("url", url)]
      else [])
  else if handler = bytes "Netflix" then
    some [("querystring", url), ("launchtosuspend", bytes "false")]
  else if handler = bytes "Amazon" then some [("launch_in_background", bytes "false")]
  else none

/-- The branch of `activateApp` for an application that is stopped. -/
def activate_stopped (callsign : Option Bytes) (url : Bytes) : Manager Unit := do
  let app ← get_current
  let handler ← deref app.handler
  let callsign ← deref callsign
  match launch_item app handler url with
  | some item =>
    let _ ← call (.configitem callsign item)
    let _ ← call (.activate callsign)
  | none =>
    let _ ← call (.activate callsign)

/-- These two branches. -/
def bring_up (appStatus : DIALStatus) (callsign : Option Bytes) (url : Bytes) : Manager Unit :=
  if appStatus = kDIALStatusHide then resume_hidden callsign url
  else if appStatus = kDIALStatusStopped then activate_stopped callsign url
  else return ()

/-- The part of `activateApp` for YouTube behind them. -/
def deep_link (callsign : Option Bytes) (url : Bytes) : Manager Unit := do
  if ← current_handler_is "YouTube" then
    let callsign ← deref callsign
    let _ ← call (.deeplink callsign (launch_url url))
  else return ()

/-- `activateApp`. -/
def activateApp (callsign : Option Bytes) (url : Bytes) : Manager ℤ := do
  if ← Program.read Device._passivemode then
    let callsign ← deref callsign
    let _ ← call (.broadcastEvent "dialLaunchRequest" [("callsign", callsign), ("url", url)])
    return 0
  else
    wake_up
    let appStatus ← getAppStatus callsign
    bring_up appStatus callsign url
    deep_link callsign url
    let callsign ← deref callsign
    let _ ← call (.setFocus callsign)
    return 0

/-- `deActivateApp`. -/
def deActivateApp (callsign : Option Bytes) : Manager ℤ := do
  if ← Program.read Device._passivemode then
    let callsign ← deref callsign
    let _ ← call (.broadcastEvent "dialStopRequest" [("callsign", callsign)])
    Program.modify fun d => { d with _appHidden := false }
    return 0
  else
    let callsign ← deref callsign
    let _ ← call (.deactivate callsign)
    Program.modify fun d => { d with _appHidden := false }
    return 0

end thunder_api

/-- The backends that a build chooses from, with `WITH_APP_MANAGER`. -/
inductive Build
  | appman
  | thunder_api
  deriving DecidableEq, Repr

/-- `activateApp` of a build. -/
def activateApp : Build → Option Bytes → Bytes → Manager ℤ
  | .appman => appman.activateApp
  | .thunder_api => thunder_api.activateApp

/-- `deActivateApp` of a build. -/
def deActivateApp : Build → Option Bytes → Manager ℤ
  | .appman => appman.deActivateApp
  | .thunder_api => thunder_api.deActivateApp

/-- `getAppStatus` of a build. -/
def getAppStatus : Build → Option Bytes → Manager DIALStatus
  | .appman => appman.getAppStatus
  | .thunder_api => thunder_api.getAppStatus

/-- `hideApp` of a build. -/
def hideApp : Build → Option Bytes → Manager Bool
  | .appman => appman.hideApp
  | .thunder_api => thunder_api.hideApp

end DialServer
