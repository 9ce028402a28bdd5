import DialServer.Source.UrlLib

/-!
# `dial_data.c`

The format of an application's data file. `store_dial_data` writes one line for each pair, both
parts cut to `DIAL_KEY_OR_VALUE_MAX_LEN`; `retrieve_dial_data` reads words back two at a time.
Opening the file is left to the module that has the file system.
-/

namespace DialServer

open CLib

/-- `DIAL_DATA_DIR`, what `dial_data_dir` is initialised with. -/
def DIAL_DATA_DIR : Bytes := bytes "/tmp/AmlDial/"

/-- `DIAL_DATA_MAX_PAYLOAD`. -/
def DIAL_DATA_MAX_PAYLOAD : ℕ := 4096

/-- `DIAL_DATA_URI`. -/
def DIAL_DATA_URI : Bytes := bytes "/dial_data"

/-- `DIAL_KEY_OR_VALUE_MAX_LEN`. -/
def DIAL_KEY_OR_VALUE_MAX_LEN : ℕ := 255

/-- The path that `getAppPath` builds. -/
def app_path (app_name : Bytes) : Bytes := DIAL_DATA_DIR ++ app_name

/-- `getAppPath`. -/
def getAppPath (app_name : Bytes) : Alloc (Option Bytes) := do
  if ← request then return some (app_path app_name) else return none

/-- One line of the file, `"%.*s %.*s\n"`. -/
def print_pair (d : DIALData) : Bytes :=
  print_s DIAL_KEY_OR_VALUE_MAX_LEN d.key ++ chr ' ' ::
    print_s DIAL_KEY_OR_VALUE_MAX_LEN d.value ++ [chr '\n']

/-- What `store_dial_data` writes to the file. -/
def print_dial_data (data : List DIALData) : Bytes := data.flatMap print_pair

/-- The pairs that the `fscanf` loop of `retrieve_dial_data` sees, in order. `value` is what the
buffer `value` holds from the call before: a call that reads a key and then meets the end of the
file leaves it as it is, and the loop goes on with it. -/
def fscanf_pairs (value : Bytes) (file : Bytes) : List DIALData :=
  match _hk : scan_s (some DIAL_KEY_OR_VALUE_MAX_LEN) file with
  | none => []
  | some (key, rest) =>
    match _hv : scan_s (some DIAL_KEY_OR_VALUE_MAX_LEN) rest with
    -- One conversion of two is not `EOF`, and the pair is stored.
    | none => ⟨cstr key, value⟩ :: fscanf_pairs value []
    | some (value', rest') => ⟨cstr key, cstr value'⟩ :: fscanf_pairs (cstr value') rest'
termination_by file.length
decreasing_by
  · have := scan_s_length_lt _hk (by decide)
    simp only [List.length_nil]
    omega
  · have := scan_s_length_lt _hk (by decide)
    have := scan_s_length_lt _hv (by decide)
    omega

/-- The loop of `retrieve_dial_data` over what it reads, with the list built so far; `none` when an
allocation fails. -/
def retrieve_loop : List DIALData → List DIALData → Alloc (Option (List DIALData))
  | [], result => return some result
  | d :: pairs, result => do
    if !(← request) then return none          -- newNode
    else if !(← request) then return none     -- newNode->key
    else if !(← request) then return none     -- newNode->value
    else retrieve_loop pairs (d :: result)

/-- `retrieve_dial_data` on an open file. -/
def retrieve_from (file : Bytes) : Alloc (List DIALData) := do
  match ← retrieve_loop (fscanf_pairs [] file) [] with
  | some result => return result
  | none => return []                         -- free_dial_data(&result)

end DialServer
