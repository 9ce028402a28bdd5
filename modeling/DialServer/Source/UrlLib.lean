import DialServer.Base.Program
import DialServer.Base.Scan

/-!
# `url_lib.c`

The string functions of the server: bounded copying, URL decoding and encoding, XML escaping, and
the parsers of application names, query parameters and DIAL data. A function that allocates is a
program over the supply of resources (`Alloc`), and its allocations may fail. A buffer that is being
written is the text written so far; what the next write may still take is passed as the code passes
it.
-/

namespace DialServer

open CLib

/-- `struct DIALData_`, one pair of the list. -/
structure DIALData where
  key : Bytes
  value : Bytes
  deriving DecidableEq, Repr

/-- `unknown_str`. -/
def unknown_str : Bytes := bytes "unknown"

/-- `smartstrncpy`: the text in front of the pointer it returns, when `dest` is the text in front of
the pointer it is given. The terminator goes one past that text. -/
def smartstrncpy (dest src : Bytes) (max_chars : ℕ) : Bytes := dest ++ src.take max_chars

/-- The value of a hexadecimal digit, as `append_char_from_hex` computes it for both of its
characters. -/
def hex_value (a : UInt8) : Option UInt8 :=
  if chr 'a' ≤ a ∧ a ≤ chr 'f' then some (10 + a - chr 'a')
  else if chr 'A' ≤ a ∧ a ≤ chr 'F' then some (10 + a - chr 'A')
  else if chr '0' ≤ a ∧ a ≤ chr '9' then some (a - chr '0')
  else none

/-- `append_char_from_hex`: the character of two hexadecimal digits. -/
def append_char_from_hex (a b : UInt8) : Option UInt8 :=
  match hex_value a, hex_value b with
  | some a, some b => some (16 * a + b)
  | _, _ => none

/-- The loop of `urldecode`, with room for `room` more characters: the characters it writes, and
whether it ends without meeting a malformed escape. -/
def urldecode_loop : Bytes → ℕ → Bytes × Bool
  | _, 0 => ([], true)
  | [], _ => ([], true)
  | c :: src, room + 1 =>
    if c = chr '+' then
      let (dst, ok) := urldecode_loop src room
      (chr ' ' :: dst, ok)
    else if c = chr '%' then
      -- An escape writes one character for three, or ends the copy.
      match src with
      | a :: b :: src =>
        match append_char_from_hex a b with
        | some d =>
          let (dst, ok) := urldecode_loop src room
          (d :: dst, ok)
        | none => ([], false)
      | _ => ([], false)
    else
      let (dst, ok) := urldecode_loop src room
      (c :: dst, ok)

/-- `urldecode`: the characters left in `dst` in front of the terminator, and the result. At a
malformed escape the terminator goes behind what was written and the result is 0. -/
def urldecode (src : Bytes) (max_size : ℕ) : Bytes × ℕ :=
  let (dst, ok) := urldecode_loop src max_size
  (dst, if ok then dst.length else 0)

/-- The entity that `xmlencode` writes for a character, when it does not write the character. -/
def xml_entity (c : UInt8) : Option Bytes :=
  if c = chr '&' then some (bytes "&amp;")
  else if c = chr '"' then some (bytes "&quot;")
  else if c = chr '\'' then some (bytes "&apos;")
  else if c = chr '<' then some (bytes "&lt;")
  else if c = chr '>' then some (bytes "&gt;")
  else none

/-- The loop of `xmlencode`, after `current_size` characters. An entity that does not fit is left
out, and the loop goes on behind its character. -/
def xmlencode_loop (max_size : ℕ) : ℕ → Bytes → Bytes
  | _, [] => []
  | current_size, c :: src =>
    if current_size < max_size then
      match xml_entity c with
      | some entity =>
        -- The test is `>=`, so that an entity that would end at the bound is left out too.
        if current_size + entity.length ≥ max_size then xmlencode_loop max_size current_size src
        else
          smartstrncpy [] entity (max_size - current_size) ++
            xmlencode_loop max_size (current_size + entity.length) src
      | none => c :: xmlencode_loop max_size (current_size + 1) src
    else []

/-- `xmlencode`. -/
def xmlencode (src : Bytes) (max_size : ℕ) : Bytes := xmlencode_loop max_size 0 src

/-- The backward scan of `parse_app_name` over the text before `begin`, given with the nearest
character first: the text from `begin` up to the last slash, without the slash the scan stops at. -/
def scan_back : Bytes → Bytes → Bytes
  | [], passed => passed
  | c :: before, passed => if c = chr '/' then passed else scan_back before (c :: passed)

/-- `parse_app_name`. The results are copies, so that each may fail for want of memory. -/
def parse_app_name (uri : Option Bytes) : Alloc (Option Bytes) := do
  match uri with
  | none => do
    if ← request then return some unknown_str else return none
  | some uri =>
    match strrchr uri (chr '/') with
    | none => do
      if ← request then return some unknown_str else return none
    | some slash =>
      if slash.length = uri.length then do    -- slash == uri
        if ← request then return some unknown_str else return none
      else do
        if ← request then
          return some (scan_back (uri.take (uri.length - slash.length)).reverse [])
        else return none

/-- `parse_param`: the text from behind the first `=` at or after the first occurrence of the name,
up to the next `&`. -/
def parse_param (query_string : Option Bytes) (param_name : Bytes) : Alloc (Option Bytes) := do
  match query_string with
  | none => return none
  | some query_string =>
    match strstr query_string param_name with
    | none => return none
    | some start =>
      -- Without a `=` the start moves to the terminator, and the result is empty.
      let start := (start.dropWhile (· ≠ chr '=')).drop 1
      let result := start.takeWhile (· ≠ chr '&')
      if ← request then return some result else return none

/-- `sscanf(name_value, "%[^=]=%s", key, value) == 2`, with the pair it stores. -/
def sscanf_pair (name_value : Bytes) : Option DIALData :=
  match scan_set (· ≠ chr '=') name_value with
  | some (key, c :: rest) =>
    if c = chr '=' then
      -- `%s` skips white space in front of the value and ends at white space in it.
      match scan_s none rest with
      | some (value, _) => some ⟨key, value⟩
      | none => none
    else none
  | _ => none

/-- The loop of `parse_params` over the tokens of `strtok`, with the list built so far. It returns
`none` when it sets `err`: an allocation fails, or a token does not give both parts. -/
def parse_params_loop : List Bytes → List DIALData → Alloc (Option (List DIALData))
  | [], result => return some result
  | name_value :: tokens, result => do
    if !(← request) then return none          -- tmp
    else if !(← request) then return none     -- tmp->key
    else if !(← request) then return none     -- tmp->value
    else
      match sscanf_pair name_value with
      | none => return none
      | some pair => parse_params_loop tokens (pair :: result)

/-- `parse_params`. Without memory for the copy, `strtok` is called on a null pointer and goes on
with what an earlier call left, which the C standard leaves undefined. -/
def parse_params (query_string : Bytes) : Alloc (List DIALData) := do
  if query_string.length ≤ 2 then return []
  else
    let query_string := match query_string with
      | c :: rest => if c = chr '?' then rest else c :: rest
      | [] => []
    if ← request then
      match ← parse_params_loop (strtok_tokens query_string (chr '&')) [] with
      | some result => return result
      | none => return []                     -- free_dial_data(&result)
    else Program.stop

/-- `to_hex`. -/
def to_hex (code : UInt8) : UInt8 := (bytes "0123456789abcdef").getD (code &&& 15).toNat 0

/-- What the loop of `url_encode` writes for a character. A character above 0x7f is negative for the
code, and of its shift only the lower four bits are looked at. -/
def url_encode_char (c : UInt8) : Bytes :=
  if isalnum c ∨ c = chr '-' ∨ c = chr '_' ∨ c = chr '.' ∨ c = chr '~' then [c]
  else if c = chr ' ' then [chr '+']
  else [chr '%', to_hex (c >>> 4), to_hex (c &&& 15)]

/-- `url_encode`. -/
def url_encode (str : Bytes) : Alloc (Option Bytes) := do
  if ← request then return some (str.flatMap url_encode_char) else return none

end DialServer
