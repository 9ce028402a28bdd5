import DialServer.DialData.Parsing
import DialServer.Text.Query

/-!
# Query parameters

`parse_param` looks for the name anywhere in the query, and takes what is behind the next `=`. The
value of a parameter is behind the first `=` of a token whose name is all that is in front of it
(`param_value`). The search finds that value when what stands in front of the token does not mislead
it (`Harmless`), and it finds something where there is no such token as soon as the name occurs.
-/

namespace DialServer

open CLib Program

/-- The value of a token whose name, all that is in front of its first `=`, is the one asked for. -/
def named_value (param_name token : Bytes) : Option Bytes :=
  match split_token token with
  | some d => if d.key = param_name then some d.value else none
  | none => none

/-- The value of the first token of that name. -/
def param_value (query_string param_name : Bytes) : Option Bytes :=
  (query_string.splitOn (chr '&')).findSome? (named_value param_name)

/-- The first token of that name, with the tokens in front of it and its value. -/
structure FirstNamed (query_string param_name : Bytes) (before : List Bytes) (value : Bytes) :
    Prop where
  tokens : ∃ after, query_string.splitOn (chr '&') =
    before ++ (param_name ++ chr '=' :: value) :: after
  first : ∀ token ∈ before, named_value param_name token = none

/-- The text of the tokens in front of another one. -/
def text_before (before : List Bytes) : Bytes := before.flatMap (· ++ [chr '&'])

/-- A text in front of a token of the name which does not mislead the search: the name does not
occur in it, or no `=` comes behind the first occurrence, or the same value is behind the first
that does. -/
def Harmless (before param_name value : Bytes) : Prop :=
  ∀ start, strstr before param_name = some start → ∀ rest, strchr start (chr '=') = some rest →
    (rest.drop 1).takeWhile (· ≠ chr '&') = value

/-! ## Tokens -/

/-- A token of the name. -/
theorem named_value_eq_some {param_name token value : Bytes} (heq : chr '=' ∉ param_name) :
    named_value param_name token = some value ↔ token = param_name ++ chr '=' :: value := by
  unfold named_value
  constructor
  · intro h
    cases hsplit : split_token token with
    | none =>
      rw [hsplit] at h
      exact absurd h (by simp)
    | some d =>
      simp only [hsplit] at h
      split_ifs at h with hkey
      obtain ⟨rest, hrest, rfl⟩ := Option.map_eq_some_iff.mp hsplit
      obtain ⟨key, tail, rfl, -, rfl⟩ := strchr_eq_some.mp hrest
      simp only [List.length_append, Nat.add_sub_cancel, List.take_left] at hkey
      rw [← hkey, ← Option.some.inj h]
      rfl
  · rintro rfl
    rw [split_token_append heq]
    simp

/-- The value of a parameter is that of the first token of its name. -/
theorem param_value_eq_some {query_string param_name value : Bytes} (heq : chr '=' ∉ param_name) :
    param_value query_string param_name = some value ↔
      ∃ before, FirstNamed query_string param_name before value := by
  unfold param_value
  rw [List.findSome?_eq_some_iff]
  constructor
  · rintro ⟨before, token, after, htokens, hvalue, hfirst⟩
    rw [named_value_eq_some heq] at hvalue
    exact ⟨before, ⟨after, hvalue ▸ htokens⟩, hfirst⟩
  · rintro ⟨before, ⟨after, htokens⟩, hfirst⟩
    exact ⟨before, _, after, htokens, (named_value_eq_some heq).mpr rfl, hfirst⟩

/-- The text of tokens, from one of them on. -/
theorem intercalate_token (before : List Bytes) (token : Bytes) (after : List Bytes) :
    [chr '&'].intercalate (before ++ token :: after) =
      text_before before ++ (token ++ after.flatMap (chr '&' :: ·)) := by
  induction before with
  | nil =>
    rw [List.nil_append, text_before, List.flatMap_nil, List.nil_append]
    induction after generalizing token with
    | nil => simp
    | cons t after ih =>
      rw [List.intercalate_cons_cons, ih t, List.flatMap_cons]
      simp
  | cons t before ih =>
    have hne : before ++ token :: after ≠ [] := by simp
    rw [List.cons_append, List.intercalate_cons_of_ne_nil hne, ih]
    simp [text_before]

/-- The query around the first token of the name. -/
theorem FirstNamed.text {query_string param_name value : Bytes} {before : List Bytes}
    (h : FirstNamed query_string param_name before value) :
    chr '&' ∉ value ∧ ∃ rest, query_string =
        text_before before ++ (param_name ++ chr '=' :: (value ++ rest)) ∧
      ∀ c r, rest = c :: r → c = chr '&' := by
  obtain ⟨after, htokens⟩ := h.tokens
  constructor
  · -- The pieces of a string have no delimiter.
    intro hmem
    have hpiece : param_name ++ chr '=' :: value ∈ query_string.splitOn (chr '&') := by
      rw [htokens]
      exact List.mem_append_right _ (List.mem_cons_self ..)
    exact notMem_of_mem_splitOn hpiece
      (List.mem_append_right _ (List.mem_cons_of_mem _ hmem))
  · refine ⟨after.flatMap (chr '&' :: ·), ?_, ?_⟩
    · have hjoin : [chr '&'].intercalate (query_string.splitOn (chr '&')) = query_string :=
        List.intercalate_splitOn _
      rw [htokens, intercalate_token] at hjoin
      rw [← hjoin]
      simp
    · intro c r hrest
      cases after with
      | nil => simp at hrest
      | cons t after =>
        rw [List.flatMap_cons, List.cons_append] at hrest
        exact (List.cons.inj hrest).1.symm

/-- The tokens in front of another one end with a delimiter. -/
theorem text_before_cases (before : List Bytes) :
    text_before before = [] ∨ ∃ s, text_before before = s ++ [chr '&'] := by
  cases before using List.reverseRecOn with
  | nil => exact .inl rfl
  | append_singleton before token =>
    refine .inr ⟨text_before before ++ token, ?_⟩
    simp [text_before]

/-! ## The search -/

/-- What is taken behind the first occurrence in the text in front of a token: when a `=` comes
there, all that follows it up to the next delimiter, which comes there too. -/
theorem found_value_before {before : List Bytes} {start : Bytes}
    (hstart : start <:+ text_before before) (r : Bytes) :
    (∀ rest, strchr start (chr '=') = some rest →
        found_value (start ++ r) = (rest.drop 1).takeWhile (· ≠ chr '&')) ∧
      (strchr start (chr '=') = none → found_value (start ++ r) = found_value r) := by
  constructor
  · intro rest hrest
    obtain ⟨p, t, rfl, hp, rfl⟩ := strchr_eq_some.mp hrest
    have hmem : chr '&' ∈ t := by
      have hsuffix : chr '=' :: t <:+ text_before before := (List.suffix_append p _).trans hstart
      rcases text_before_cases before with hnil | ⟨s, hs⟩
      · rw [hnil] at hsuffix
        exact absurd (List.suffix_nil.mp hsuffix) (by simp)
      · -- The text ends with a delimiter, which is not the `=`.
        rw [hs, List.suffix_concat_iff] at hsuffix
        obtain ⟨u, hu, -⟩ := hsuffix.resolve_left (by simp)
        cases u with
        | nil => exact absurd (List.cons.inj hu).1 (by decide)
        | cons b u =>
          rw [(List.cons.inj hu).2]
          simp
    obtain ⟨v, w, rfl, hv⟩ := List.eq_append_cons_of_mem hmem
    have hamp (w : Bytes) : (v ++ chr '&' :: w).takeWhile (· ≠ chr '&') = v :=
      takeWhile_amp hv fun c t hct => (List.cons.inj hct).1.symm
    have happend : p ++ chr '=' :: (v ++ chr '&' :: w) ++ r =
        p ++ chr '=' :: (v ++ chr '&' :: (w ++ r)) := by simp
    rw [happend, found_value_append hp, List.drop_one, List.tail_cons, hamp, hamp]
  · intro hnone
    unfold found_value
    rw [strchr_eq_none] at hnone
    have hall : ∀ c ∈ start, decide (c ≠ chr '=') = true := fun c hc =>
      decide_eq_true (ne_of_mem_of_not_mem hc hnone)
    rw [List.dropWhile_append_of_pos hall]

/-- **What `parse_param` finds.** For a name that has no `&` and no `=`, the result is the value of
the first token of that name, and none without such a token, if and only if the name does not occur
in the query, or there is such a token and the text in front of it is harmless. -/
theorem parse_param_exact_iff {query_string param_name : Bytes} (hamp : chr '&' ∉ param_name)
    (heq : chr '=' ∉ param_name) {supply : Supply} (hsupply : supply 0 = true) :
    (∃ supply', parse_param (some query_string) param_name supply =
        some (param_value query_string param_name, [], supply')) ↔
      ¬param_name <:+: query_string ∨
        ∃ before value, FirstNamed query_string param_name before value ∧
          Harmless (text_before before) param_name value := by
  obtain ⟨supply₁, hrun⟩ := parse_param_value query_string param_name hsupply
  have hresult : (∃ supply', parse_param (some query_string) param_name supply =
        some (param_value query_string param_name, [], supply')) ↔
      (strstr query_string param_name).map found_value = param_value query_string param_name := by
    rw [hrun]
    simp
  -- Where there is a token of the name, the first occurrence is in front of it or it is its name.
  have hfound {before : List Bytes} {value : Bytes}
      (hfirst : FirstNamed query_string param_name before value) :
      (strstr query_string param_name).map found_value = some value ↔
        Harmless (text_before before) param_name value := by
    obtain ⟨hvalue, rest, htext, hrest⟩ := hfirst.text
    set tail := param_name ++ chr '=' :: (value ++ rest) with htail
    have hname : param_name <+: tail := List.prefix_append _ _
    have htaken : found_value tail = value := by
      rw [htail, found_value_append heq, takeWhile_amp hvalue hrest]
    unfold Harmless
    cases hocc : strstr (text_before before) param_name with
    | none =>
      have hfind : strstr query_string param_name = some tail := by
        rcases text_before_cases before with hnil | ⟨s, hs⟩
        · rw [htext, hnil]
          exact strstr_of_prefix hname
        · rw [hs] at hocc
          rw [htext, hs, List.append_assoc]
          show strstr (s ++ chr '&' :: tail) param_name = some tail
          rw [strstr_append_of_none hocc hamp]
          exact strstr_of_prefix hname
      rw [hfind, Option.map_some, htaken]
      simp
    | some start =>
      have hfind : strstr query_string param_name = some (start ++ tail) := by
        rw [htext, strstr_append_of_some hocc]
      obtain ⟨hsome, hnone⟩ := found_value_before (strstr_split hocc).1 tail
      rw [hfind, Option.map_some, Option.some.injEq]
      cases hchr : strchr start (chr '=') with
      | none => simp [hnone hchr, htaken, hchr]
      | some p => simp [hsome p hchr, hchr]
  rw [hresult]
  constructor
  · intro h
    by_cases hin : param_name <:+: query_string
    · obtain ⟨start, hstart⟩ := Option.isSome_iff_exists.mp (strstr_isSome.mpr hin)
      rw [hstart, Option.map_some] at h
      obtain ⟨before, hfirst⟩ := (param_value_eq_some heq).mp h.symm
      refine .inr ⟨before, found_value start, hfirst, (hfound hfirst).mp ?_⟩
      rw [hstart, Option.map_some]
    · exact .inl hin
  · rintro (habsent | ⟨before, value, hfirst, hharmless⟩)
    · have hstart : strstr query_string param_name = none := by
        rw [← Option.not_isSome_iff_eq_none, strstr_isSome]
        exact habsent
      rw [hstart, Option.map_none, eq_comm, Option.eq_none_iff_forall_ne_some]
      intro value hvalue
      -- The name of a token occurs in the query.
      obtain ⟨before, hfirst⟩ := (param_value_eq_some heq).mp hvalue
      obtain ⟨-, rest, htext, -⟩ := hfirst.text
      exact habsent ⟨text_before before, chr '=' :: (value ++ rest), by rw [htext]; simp⟩
    · rw [(hfound hfirst).mpr hharmless, eq_comm, param_value_eq_some heq]
      exact ⟨before, hfirst⟩

/-- The version that a client sends with a status request. -/
theorem parse_param_client_version : ∃ supply,
    parse_param (some (bytes "a=1&clientDialVer=2.1&b=2")) (bytes "clientDialVer") plenty =
      some (some (bytes "2.1"), [], supply) := by
  have hfirst : FirstNamed (bytes "a=1&clientDialVer=2.1&b=2") (bytes "clientDialVer")
      [bytes "a=1"] (bytes "2.1") :=
    ⟨⟨[bytes "b=2"], by decide⟩, by decide⟩
  have hvalue : param_value (bytes "a=1&clientDialVer=2.1&b=2") (bytes "clientDialVer") =
      some (bytes "2.1") := by
    decide
  have hexact := (@parse_param_exact_iff (bytes "a=1&clientDialVer=2.1&b=2")
    (bytes "clientDialVer") (by decide) (by decide) plenty rfl).mpr
      (.inr ⟨_, _, hfirst, ?_⟩)
  · rwa [hvalue] at hexact
  · intro start hstart
    have hnone : strstr (text_before [bytes "a=1"]) (bytes "clientDialVer") = none := by
      decide
    rw [hnone] at hstart
    exact absurd hstart (by simp)

/-- A longer name ends with the one asked for, alone or in front of the token that is meant. -/
theorem parse_param_other_name :
    (parse_param (some (bytes "xclientDialVer=2")) (bytes "clientDialVer") plenty).map (·.1) =
        some (some (bytes "2")) ∧
      param_value (bytes "xclientDialVer=2") (bytes "clientDialVer") = none ∧
      (parse_param (some (bytes "xn=1&n=2")) (bytes "n") plenty).map (·.1) =
        some (some (bytes "1")) ∧
      param_value (bytes "xn=1&n=2") (bytes "n") = some (bytes "2") := by
  decide

end DialServer
