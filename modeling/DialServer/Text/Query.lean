import DialServer.Source.UrlLib

/-!
# What `parse_param` takes

With memory `parse_param` returns a part of the query that depends only on where the name first
occurs: what is behind the next `=`, up to the next `&`.
-/

namespace DialServer

open CLib Program

/-- What `parse_param` takes from the first occurrence of the name on. -/
def found_value (start : Bytes) : Bytes :=
  ((start.dropWhile (· ≠ chr '=')).drop 1).takeWhile (· ≠ chr '&')

/-- The value behind the first occurrence of the name. -/
theorem parse_param_found {query_string param_name start : Bytes}
    (h : strstr query_string param_name = some start) {supply : Supply}
    (hgranted : supply 0 = true) : parse_param (some query_string) param_name supply =
      some (some (found_value start), [], supply.after 1) := by
  simp only [parse_param, h]
  simp only [bind_apply, request, hgranted, if_true]
  rfl

/-- With memory `parse_param` returns what it takes from the first occurrence. -/
theorem parse_param_value (query_string param_name : Bytes) {supply : Supply}
    (hgranted : supply 0 = true) : ∃ supply', parse_param (some query_string) param_name supply =
      some ((strstr query_string param_name).map found_value, [], supply') := by
  cases h : strstr query_string param_name with
  | none =>
    refine ⟨supply, ?_⟩
    simp only [parse_param, h]
    rfl
  | some start => exact ⟨supply.after 1, parse_param_found h hgranted⟩

/-- A run of characters up to a delimiter. -/
theorem takeWhile_amp {p : Bytes} (hp : chr '&' ∉ p) {r : Bytes}
    (hr : ∀ c t, r = c :: t → c = chr '&') : (p ++ r).takeWhile (· ≠ chr '&') = p := by
  have hall : ∀ c ∈ p, decide (c ≠ chr '&') = true := fun c hc =>
    decide_eq_true (ne_of_mem_of_not_mem hc hp)
  rw [List.takeWhile_append_of_pos hall]
  cases r with
  | nil => simp
  | cons c t => simp [hr c t rfl]

/-- What is taken when the first `=` is given. -/
theorem found_value_append {p : Bytes} (hp : chr '=' ∉ p) (r : Bytes) :
    found_value (p ++ chr '=' :: r) = r.takeWhile (· ≠ chr '&') := by
  unfold found_value
  rw [dropWhile_eq_strchr, strchr_append hp]
  rfl

end DialServer
