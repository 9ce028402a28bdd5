import DialServer.Source.Device

/-!
# Loading the configuration

`loadConfig` of `appman.cpp`, which reads a text file line by line, and `loadJson` of
`thunder_api.cpp`, which takes a JSON document that a library has read. Both leave a list of
entries in `appInfoList` behind a node without contents. Memory is not short here.
-/

namespace DialServer

open CLib

/-! ## `loadConfig` -/

/-- The lines that `getline` returns for a text, one after another, with their line ends. -/
def getline_lines : Bytes → List Bytes
  | [] => []
  | c :: text =>
    if c = chr '\n' then [c] :: getline_lines text
    else
      match getline_lines text with
      | [] => [[c]]
      | line :: rest => (c :: line) :: rest

/-- What the loop of `loadConfig` takes a line for. -/
inductive ConfigLine
  | section_start (key : Bytes)
  | pair (key val : Bytes)
  | parsing_error
  | ignored
  deriving DecidableEq, Repr

/-- The characters of a key in front of the equals sign. -/
def is_key_char (c : UInt8) : Bool := (isalnum c || c = chr '_') && c ≠ chr '='

/-- A line that begins with a letter or a digit. -/
def pair_line (p : Bytes) : ConfigLine :=
  match p.dropWhile is_key_char with
  | [] => .parsing_error
  | c :: rest =>
    if c = chr '=' then
      .pair (p.takeWhile is_key_char) ((rest.dropWhile isspace).takeWhile fun c => !isspace c)
    else .parsing_error

/-- A line. What begins with none of these characters is passed over, as comments are. -/
def config_line (line : Bytes) : ConfigLine :=
  match (cstr line).dropWhile isspace with
  | [] => .ignored
  | c :: rest =>
    if c = chr '#' then .ignored
    else if c = chr '[' then
      .section_start ((rest.dropWhile isspace).takeWhile fun c => c ≠ chr ']')
    else if isalnum c then pair_line (c :: rest)
    else .ignored

/-- The assignment for a key of an application. -/
def set_key (key val : Bytes) (app : appInfo) : appInfo :=
  if key = bytes "handler" then { app with handler := some val }
  else if key = bytes "hide" then { app with hide := some val }
  else if key = bytes "url" then { app with url := some val }
  else if key = bytes "callsign" then { app with callsign := some val }
  else app

/-- The variables of the loop: the entries from `head` on, whether `app` is `head` (it is null
otherwise), and `_passivemode`. -/
structure LoadState where
  head : List appInfo
  app : Bool
  _passivemode : Bool
  deriving DecidableEq, Repr

/-- A node that `calloc` returns, with its name. -/
def named_app (name : Bytes) : appInfo := ⟨some name, none, none, none, none⟩

/-- The body of the loop. -/
def load_line (s : LoadState) : ConfigLine → LoadState
  | .section_start key =>
    if key ≠ bytes "configuration" then { s with head := named_app key :: s.head, app := true }
    else { s with app := false }
  | .pair key val =>
    if s.app then { s with head := s.head.modifyHead (set_key key val) }
    else if key = bytes "passivemode" then { s with _passivemode := val = bytes "true" }
    else s
  | .parsing_error => s
  | .ignored => s

/-- The lines of a configuration. -/
def config_lines (text : Bytes) : List ConfigLine := (getline_lines text).map config_line

/-- `loadConfig`, with the contents of the file if it can be opened. -/
def loadConfig (file : Option Bytes) : Manager ℤ := do
  match file with
  | none => return 1
  | some text =>
    let passive ← Program.read Device._passivemode
    let loaded := (config_lines text).foldl load_line ⟨[], false, passive⟩
    Program.modify fun d =>
      { d with
        _passivemode := loaded._passivemode
        appInfoList := some ⟨loaded.head, none⟩ }
    return 0

/-! ## `loadJson` -/

/-- An application in the document: what `String()` returns for the five labels. -/
structure JsonApp where
  name : Bytes
  handler : Bytes
  callsign : Bytes
  hide : Bytes
  url : Bytes
  deriving DecidableEq, Repr

/-- What the function takes from the `configuration` of a document. -/
structure JsonResult where
  passivemode : Bool
  apps : List JsonApp
  deriving DecidableEq, Repr

/-- The file: it cannot be opened, or it is read, completely or not, with this result. -/
inductive JsonFile
  | closed
  | read (complete : Bool) (jsonResult : JsonResult)
  deriving DecidableEq, Repr

/-- The object from which the values are taken. Without a file it is empty. -/
def JsonFile.jsonResult : JsonFile → JsonResult
  | .closed => ⟨false, []⟩
  | .read _ jsonResult => jsonResult

/-- Whether `loadJson` reports that it has read the file. -/
def JsonFile.complete : JsonFile → Bool
  | .closed => false
  | .read complete _ => complete

/-- A node with the copies of the strings. -/
def json_info (obj : JsonApp) : appInfo where
  name := some (cstr obj.name)
  handler := some (cstr obj.handler)
  callsign := some (cstr obj.callsign)
  hide := some (cstr obj.hide)
  url := some (cstr obj.url)

/-- The body of the loop: a node is linked in behind the last one, and its own `next` field is
null. -/
def link_app_info (list : AppInfoList) (obj : JsonApp) : AppInfoList :=
  ⟨list.entries ++ [json_info obj], none⟩

/-- `loadJson`, with what `malloc` leaves in the `next` field of the first node. -/
def loadJson (file : JsonFile) (next : Option Pointer) : Manager ℤ := do
  let jsonResult := file.jsonResult
  Program.modify fun d =>
    { d with
      _passivemode := jsonResult.passivemode
      appInfoList := some (jsonResult.apps.foldl link_app_info ⟨[], next⟩) }
  return if file.complete then 0 else 1

end DialServer
