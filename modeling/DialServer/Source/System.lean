import DialServer.Source.Callbacks

/-!
# The start of the system application

`system_start` of `system_callbacks.c`. It looks for the password of the sleep action in the query
string, which it cuts at its first `&`: the query string is its state, and what it prints are its
events. The arguments that it does not read are left out.
-/

namespace DialServer

open CLib DIALStatus

/-- `system_start`. -/
def system_start (spSleepPassword : Bytes) : Program (Option Bytes) Bytes DIALStatus := do
  match ← Program.read id with
  | none => return kDIALStatusErrorForbidden
  | some query_string =>
    -- "Only sleep is supported action."
    if !strncmp_eq query_string (bytes "action=sleep") (bytes "action=sleep").length then
      return kDIALStatusErrorNotImplemented
    else if spSleepPassword.length ≠ 0 then
      match strchr query_string (chr '&') with
      | none => return kDIALStatusErrorForbidden    -- "No key specified."
      | some key_value =>
        Program.modify fun _ => some (query_string.take (query_string.length - key_value.length))
        let key_value := key_value.drop 1
        let str := snprintf 512 (bytes "key=" ++ spSleepPassword)
        Program.emit (bytes " str: " ++ str ++ bytes " \n")
        -- The key is compared with a constant, not with `str`.
        if !strncmp_eq key_value (bytes "key=TEST") (bytes "key=TEST").length then
          return kDIALStatusErrorUnauth
        else return kDIALStatusErrorNotImplemented
    else return kDIALStatusErrorNotImplemented

end DialServer
