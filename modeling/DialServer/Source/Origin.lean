import DialServer.Source.Server

/-!
# The origin check of `dial_server.c`

`host_matches` and `origin_matches` compare an origin with one entry of an allow list,
`is_uri_in_list` goes through the list, and `is_allowed_origin` looks the application up. Their
callers never pass null pointers. The lengths of `host_matches` are `size_t`: its one subtraction
that can go below zero is `size_sub`. The length of an entry is an `int`, which the list's bound of
255 characters keeps exact.
-/

namespace DialServer

open CLib

/-- `gHttpsProto`. -/
def gHttpsProto : Bytes := bytes "https://"

/-- Subtraction of `size_t` values. -/
def size_sub (a b : ℕ) : ℕ := (a + 2 ^ 64 - b) % 2 ^ 64

/-- `origin_len` and `host_len` of `host_matches` after it has looked for port numbers. -/
def compared_lengths (origin_host host : Bytes) : ℕ × ℕ :=
  let origin_colon := strrchr origin_host (chr ':')
  match strrchr host (chr ':') with
  | some host_colon =>
    -- Port 443 is ignored for an origin without a port; any other port must match exactly.
    if host_colon.length = 4 ∧ strncmp_eq host_colon (bytes ":443") 4 ∧ origin_colon = none then
      (origin_host.length, host.length - host_colon.length)
    else (origin_host.length, host.length)
  | none =>
    match origin_colon with
    | some origin_colon => (origin_host.length - origin_colon.length, host.length)
    | none => (origin_host.length, host.length)

/-- `host_matches` from the test of the two lengths on. -/
def compare_hosts (origin_host host : Bytes) (origin_len host_len : ℕ) : Bool :=
  if origin_len = 0 ∨ host_len = 0 then false
  else
    let wildcard := bytes "*."
    let acceptSubdomain :=
      if host_len > wildcard.length then strncmp_eq host wildcard wildcard.length else false
    if acceptSubdomain then
      if origin_len < host_len then false
      else
        match strchr origin_host (chr '.') with
        | none => false
        | some origin_domain =>
          -- The first dot may lie behind a port that is ignored, and then the length wraps.
          let host_domain := host.drop 1
          let origin_len := size_sub origin_len (origin_host.length - origin_domain.length)
          let host_len := host_len - 1
          origin_len = host_len && strncmp_eq origin_domain host_domain origin_len
    else origin_len = host_len && strncmp_eq origin_host host origin_len

/-- `host_matches`. -/
def host_matches (origin candidate : Bytes) : Bool :=
  let https_len := gHttpsProto.length
  if !strncmp_eq origin gHttpsProto https_len || !strncmp_eq candidate gHttpsProto https_len then
    false
  else
    let origin_host := origin.drop https_len
    let host := candidate.drop https_len
    let (origin_len, host_len) := compared_lengths origin_host host
    compare_hosts origin_host host origin_len host_len

/-- `origin_matches`. -/
def origin_matches (origin candidate : Bytes) : Bool :=
  let origin_len := origin.length
  let candidate_len := candidate.length
  if candidate_len > 1 ∧ candidate[candidate_len - 1]? = some (chr '*') then
    if origin_len < candidate_len then false
    else strncmp_eq origin candidate (candidate_len - 1)
  else origin_len = candidate_len && strncmp_eq origin candidate origin_len

/-- The test that `is_uri_in_list` makes of one entry. -/
def entry_matches (origin candidate : Bytes) : Bool :=
  let isHttps := strncmp_eq origin gHttpsProto gHttpsProto.length
  (isHttps && host_matches origin candidate) || (!isHttps && origin_matches origin candidate)

/-- The buffer `candidate` of `is_uri_in_list`, made larger for an entry of `copyLength` characters
when it has to be; `none` without the memory for that. -/
def grow_candidate (substringSize copyLength : ℕ) : Alloc (Option ℕ) := do
  if copyLength ≥ substringSize then
    if ← request then return some (copyLength + 1) else return none
  else return some substringSize

/-- The loop of `is_uri_in_list` and the test of the last entry behind it. -/
def is_uri_in_list_loop (origin : Bytes) (scanPointer : Bytes) (substringSize : ℕ) : Alloc Bool :=
  match _h : strchr scanPointer (chr ' ') with
  | none => return entry_matches origin scanPointer
  | some spacePointer => do
    let copyLength := scanPointer.length - spacePointer.length
    match ← grow_candidate substringSize copyLength with
    | none => return false
    | some substringSize =>
      if entry_matches origin (scanPointer.take copyLength) then return true
      else is_uri_in_list_loop origin (spacePointer.drop 1) substringSize
termination_by scanPointer.length
decreasing_by
  have := strchr_length _h
  simp only [List.length_drop]
  omega

/-- `is_uri_in_list`. -/
def is_uri_in_list (origin list : Bytes) : Alloc Bool := do
  if ← request then is_uri_in_list_loop origin list 257 else return false

variable {W : Type}

/-- The loop of `is_allowed_origin`. -/
def is_allowed_origin_loop (origin app_name : Bytes) : List (DIALApp W) → Alloc Bool
  | [] => return false
  | app :: apps => do
    if app.name = app_name then
      if app.corsAllowedOrigin.val = [] then return true
      else if ← is_uri_in_list origin app.corsAllowedOrigin.val then return true
      else is_allowed_origin_loop origin app_name apps
    else is_allowed_origin_loop origin app_name apps

/-- `is_allowed_origin`. -/
def is_allowed_origin (origin : Option Bytes) (app_name : Bytes) : Server W Bool := do
  match origin with
  | none => return true
  | some origin =>
    if origin.length = 0 then return true
    else if !(← ds_lock) then return false
    else
      let apps ← Program.read System.apps
      let result ← alloc (is_allowed_origin_loop origin app_name apps)
      ds_unlock
      return result

end DialServer
