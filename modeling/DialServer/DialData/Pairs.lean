import DialServer.DialData.Parsing

/-!
# Lists of pairs

A text that is printed from pairs, with an `&` between one and the next, a question mark in front if
the writer likes one, and as many further `&` as he likes. `strtok` gives the printed pairs back
(`strtok_tokens_joined`), `sscanf` reads each of them whole, and `parse_params` returns all of them.
With one more token among them that is not a pair it returns none.
-/

set_option maxRecDepth 8000

namespace DialServer

open CLib Program

/-- A printable ASCII character. -/
def isprint (c : UInt8) : Bool := 0x20 ≤ c && c ≤ 0x7e

/-- A pair as it is printed. -/
def pair_token (d : DIALData) : Bytes := d.key ++ chr '=' :: d.value

/-- A token for `parse_params`: printable, and nothing of it belongs to the text around it. -/
structure Token (token : Bytes) : Prop where
  ne_nil : token ≠ []
  printable : ∀ c ∈ token, isprint c = true
  one : chr '&' ∉ token
  head : token.head? ≠ some (chr '?')

/-- A pair that can be printed: its key ends at the first `=`, and its value has no blank. -/
structure PrintablePair (d : DIALData) : Prop where
  key_ne_nil : d.key ≠ []
  key_printable : ∀ c ∈ d.key, isprint c = true
  key_one : chr '&' ∉ d.key
  key_eq : chr '=' ∉ d.key
  key_head : d.key.head? ≠ some (chr '?')
  value_ne_nil : d.value ≠ []
  value_printable : ∀ c ∈ d.value, isprint c = true
  value_one : chr '&' ∉ d.value
  value_blank : chr ' ' ∉ d.value

/-- A token that is no pair: it has no `=`, no key in front of it, or no value behind it. -/
def NoPair (token : Bytes) : Prop :=
  chr '=' ∉ token ∨ ∃ key value, token = key ++ chr '=' :: value ∧ chr '=' ∉ key ∧
    (key = [] ∨ ∀ c ∈ value, c = chr ' ')

/-- Tokens with at least one `&` between one and the next, and any number of `&` around them. -/
inductive Joined : List Bytes → Bytes → Prop
  | nil : Joined [] []
  | last (token : Bytes) : Joined [token] token
  | amp {tokens : List Bytes} {text : Bytes} : Joined tokens text → Joined tokens (chr '&' :: text)
  | cons (token : Bytes) {tokens : List Bytes} {text : Bytes} : Joined tokens text →
      Joined (token :: tokens) (token ++ chr '&' :: text)

/-- A text of parameters with these tokens, with or without a question mark in front. -/
def Query (tokens : List Bytes) (s : Bytes) : Prop :=
  ∃ text, Joined tokens text ∧ (s = text ∨ s = chr '?' :: text)

/-! ## Texts and tokens -/

/-- A token that is not empty and has no delimiter is the only token of its text. -/
theorem strtok_tokens_self {token : Bytes} (hne : token ≠ []) {delim : UInt8}
    (h : delim ∉ token) : strtok_tokens token delim = [token] := by
  rw [strtok_tokens, List.splitOn_eq_singleton h]
  simp [hne]

/-- `strtok` gives back the tokens of a text. -/
theorem strtok_tokens_joined {tokens : List Bytes} {text : Bytes} (h : Joined tokens text)
    (htokens : ∀ token ∈ tokens, Token token) : strtok_tokens text (chr '&') = tokens := by
  induction h with
  | nil => rfl
  | last token =>
    have htoken := htokens token (List.mem_singleton_self token)
    exact strtok_tokens_self htoken.ne_nil htoken.one
  | @amp _ text _ ih =>
    -- Nothing stands in front of the delimiter.
    have happend := strtok_tokens_append [] text (chr '&')
    rw [List.nil_append] at happend
    rw [happend, ih htokens]
    rfl
  | cons token _ ih =>
    obtain ⟨htoken, htokens⟩ := List.forall_mem_cons.mp htokens
    rw [strtok_tokens_append, strtok_tokens_self htoken.ne_nil htoken.one, ih htokens]
    rfl

/-- Only a question mark that was put in front is taken away. -/
theorem strip_query_joined {tokens : List Bytes} {text : Bytes} (h : Joined tokens text)
    (htokens : ∀ token ∈ tokens, Token token) : strip_query text = text := by
  have hhead (token rest : Bytes) (htoken : Token token) :
      strip_query (token ++ rest) = token ++ rest := by
    cases token with
    | nil => exact absurd rfl htoken.ne_nil
    | cons c token =>
      have hc : c ≠ chr '?' := by simpa using htoken.head
      simp [strip_query, hc]
  cases h with
  | nil => rfl
  | last => simpa using hhead text [] (htokens text (List.mem_singleton_self text))
  | amp => rfl
  | cons token => exact hhead token _ (htokens token (List.mem_cons_self ..))

/-- The tokens of a text of parameters. -/
theorem param_tokens_query {tokens : List Bytes} {s : Bytes} (h : Query tokens s)
    (htokens : ∀ token ∈ tokens, Token token) : param_tokens s = tokens := by
  obtain ⟨text, hjoined, rfl | rfl⟩ := h
  · rw [param_tokens, strip_query_joined hjoined htokens, strtok_tokens_joined hjoined htokens]
  · have hstrip : strip_query (chr '?' :: text) = text := rfl
    rw [param_tokens, hstrip, strtok_tokens_joined hjoined htokens]

/-- The tokens are parts of the text. -/
theorem Joined.length_le {tokens : List Bytes} {text : Bytes} (h : Joined tokens text) :
    ∀ token ∈ tokens, token.length ≤ text.length := by
  induction h with
  | nil => exact fun token hmem => absurd hmem List.not_mem_nil
  | last =>
    intro token hmem
    rw [List.mem_singleton.mp hmem]
  | amp _ ih => exact fun token hmem => (ih token hmem).trans (Nat.le_succ _)
  | cons _ _ ih =>
    intro token hmem
    rw [List.length_append, List.length_cons]
    rcases List.mem_cons.mp hmem with rfl | hmem
    · omega
    · have := ih token hmem
      omega

/-- So they are with a question mark in front. -/
theorem length_le_of_query {tokens : List Bytes} {s : Bytes} (h : Query tokens s) {token : Bytes}
    (hmem : token ∈ tokens) : token.length ≤ s.length := by
  obtain ⟨text, h, rfl | rfl⟩ := h
  · exact h.length_le token hmem
  · exact (h.length_le token hmem).trans (Nat.le_succ _)

/-! ## Pairs -/

/-- A pair is printed as a token. -/
theorem PrintablePair.token {d : DIALData} (h : PrintablePair d) : Token (pair_token d) where
  ne_nil := by simp [pair_token]
  printable := by
    intro c hc
    rcases List.mem_append.mp hc with hc | hc
    · exact h.key_printable c hc
    · rcases List.mem_cons.mp hc with rfl | hc
      · rfl
      · exact h.value_printable c hc
  one := by
    intro hmem
    rcases List.mem_append.mp hmem with hmem | hmem
    · exact h.key_one hmem
    · rcases List.mem_cons.mp hmem with heq | hmem
      · exact absurd heq (by decide)
      · exact h.value_one hmem
  head := by
    have hhead : (pair_token d).head? = d.key.head? := by
      unfold pair_token
      rw [List.head?_append_of_ne_nil _ h.key_ne_nil]
    rw [hhead]
    exact h.key_head

/-- The only white space among the printable characters is the blank. -/
theorem isspace_of_isprint : ∀ c : UInt8, isprint c = true → isspace c = true → c = chr ' ' := by
  decide

/-- `sscanf` reads a printed pair whole. -/
theorem sscanf_pair_token {d : DIALData} (h : PrintablePair d) :
    sscanf_pair (pair_token d) = some d := by
  have hspace : ∀ c ∈ d.value, isspace c = false := by
    intro c hc
    by_contra hspace
    rw [Bool.not_eq_false] at hspace
    exact h.value_blank (isspace_of_isprint c (h.value_printable c hc) hspace ▸ hc)
  obtain ⟨d', hread, hsplit⟩ := sscanf_pair_wellFormed
    ⟨d.key, d.value, rfl, h.key_ne_nil, h.key_eq, h.value_ne_nil, hspace⟩
  -- What it reads is what the token is split into.
  have heq : split_token (pair_token d) = some d := split_token_append h.key_eq d.value
  rw [pair_token] at heq
  rw [pair_token, hread, ← hsplit, heq]

/-- `sscanf` reads no pair from a token that is none. -/
theorem sscanf_pair_noPair {token : Bytes} (h : NoPair token) : sscanf_pair token = none := by
  rw [Option.eq_none_iff_forall_ne_some]
  intro d hread
  obtain ⟨rest, hsplit, hkey, heq, hsub, hvalue, hspace⟩ := sscanf_pair_cases hread
  rcases h with hnone | ⟨key, value, htoken, hkey', hbad⟩
  · exact hnone (hsplit ▸ List.mem_append_right _ (List.mem_cons_self ..))
  · -- Both splits of the token are at its first `=`.
    have hboth : d.key = key ∧ rest = value := by
      have h₁ := split_token_append heq rest
      have h₂ := split_token_append hkey' value
      rw [← hsplit, htoken, h₂, Option.some.injEq, DIALData.mk.injEq] at h₁
      exact ⟨h₁.1.symm, h₁.2.symm⟩
    obtain ⟨rfl, rfl⟩ := hboth
    rcases hbad with hnil | hblank
    · exact hkey hnil
    · obtain ⟨c, hc⟩ := List.exists_mem_of_ne_nil _ hvalue
      have hblankc := hblank c (hsub.subset hc)
      rw [hblankc] at hc
      exact absurd (hspace _ hc) (by decide)

/-- From a text of printed pairs `parse_params` returns the pairs, the last first. -/
theorem parse_params_query {pairs : List DIALData} (hne : pairs ≠ [])
    (hpairs : ∀ d ∈ pairs, PrintablePair d) {s : Bytes} (hquery : Query (pairs.map pair_token) s) :
    parse_params s plenty = some (pairs.reverse, [], plenty) := by
  have htokens : ∀ token ∈ pairs.map pair_token, Token token :=
    List.forall_mem_map.mpr fun d hd => (hpairs d hd).token
  have hread : (pairs.map pair_token).map sscanf_pair = pairs.map some := by
    rw [List.map_map]
    exact List.map_congr_left fun d hd => sscanf_pair_token (hpairs d hd)
  obtain ⟨data, hdata⟩ := parse_params_plenty s
  have hcases := parse_params_cases hdata
  rw [param_tokens_query hquery htokens, hread] at hcases
  rcases hcases with ⟨-, read, rfl, hread', -⟩ | ⟨-, hfailed⟩
  · rw [List.map_injective_iff.mpr (Option.some_injective _) hread', hdata]
  · -- A printed pair has three characters, all of its tokens are read, and memory there is.
    refine absurd ⟨?_, fun token hmem => ?_, fun _ _ => rfl⟩ hfailed
    · obtain ⟨d, hd⟩ := List.exists_mem_of_ne_nil _ hne
      have hlen := length_le_of_query hquery (List.mem_map_of_mem hd)
      have hkey := List.length_pos_of_ne_nil (hpairs d hd).key_ne_nil
      have hvalue := List.length_pos_of_ne_nil (hpairs d hd).value_ne_nil
      rw [pair_token, List.length_append, List.length_cons] at hlen
      omega
    · obtain ⟨d, hd, rfl⟩ := List.mem_map.mp hmem
      simp [sscanf_pair_token (hpairs d hd)]

/-- With a token among them that is no pair it returns nothing. -/
theorem parse_params_noPair {before after : List DIALData}
    (hpairs : ∀ d ∈ before ++ after, PrintablePair d) {token : Bytes} (htoken : Token token)
    (hnone : NoPair token) {s : Bytes}
    (hquery : Query (before.map pair_token ++ token :: after.map pair_token) s) :
    parse_params s plenty = some ([], [], plenty) := by
  have htokens : ∀ t ∈ before.map pair_token ++ token :: after.map pair_token, Token t := by
    intro t ht
    rcases List.mem_append.mp ht with ht | ht
    · obtain ⟨d, hd, rfl⟩ := List.mem_map.mp ht
      exact (hpairs d (List.mem_append_left _ hd)).token
    · rcases List.mem_cons.mp ht with rfl | ht
      · exact htoken
      · obtain ⟨d, hd, rfl⟩ := List.mem_map.mp ht
        exact (hpairs d (List.mem_append_right _ hd)).token
  obtain ⟨data, hdata⟩ := parse_params_plenty s
  rcases parse_params_cases hdata with ⟨-, read, rfl, hread, -⟩ | ⟨rfl, -⟩
  · -- The token that is no pair would have been read.
    rw [param_tokens_query hquery htokens] at hread
    have hmem : sscanf_pair token ∈ read.map some := by
      rw [← hread]
      exact List.mem_map_of_mem (List.mem_append_right _ (List.mem_cons_self ..))
    rw [sscanf_pair_noPair hnone] at hmem
    simp at hmem
  · exact hdata

/-- **What `parse_params` accepts.** From a text of printed pairs it returns the pairs, the last
first; with one token among them that is no pair, at whatever place, it returns nothing. -/
theorem parse_params_printed {pairs : List DIALData} (hne : pairs ≠ [])
    (hpairs : ∀ d ∈ pairs, PrintablePair d) :
    (∀ s, Query (pairs.map pair_token) s →
        parse_params s plenty = some (pairs.reverse, [], plenty)) ∧
      ∀ before after token s, pairs = before ++ after → Token token → NoPair token →
        Query (before.map pair_token ++ token :: after.map pair_token) s →
          parse_params s plenty = some ([], [], plenty) := by
  constructor
  · exact fun s hquery => parse_params_query hne hpairs hquery
  · rintro before after token s rfl htoken hnone hquery
    exact parse_params_noPair hpairs htoken hnone hquery

/-- Two pairs with further `&` between them, and a token without a value in their place. -/
theorem parse_params_printed_two :
    parse_params (bytes "?a=1&&b=2") plenty =
        some ([⟨bytes "b", bytes "2"⟩, ⟨bytes "a", bytes "1"⟩], [], plenty) ∧
      parse_params (bytes "a=1&c=&b=2") plenty = some ([], [], plenty) := by
  have hpairs : ∀ d ∈ [(⟨bytes "a", bytes "1"⟩ : DIALData), ⟨bytes "b", bytes "2"⟩],
      PrintablePair d := by
    intro d hd
    rcases List.mem_pair.mp hd with rfl | rfl
    all_goals constructor <;> decide
  have htoken : Token (bytes "c=") := by constructor <;> decide
  have hnone : NoPair (bytes "c=") :=
    .inr ⟨bytes "c", [], rfl, by decide, .inr (by decide)⟩
  obtain ⟨hall, hbad⟩ := parse_params_printed (List.cons_ne_nil _ _) hpairs
  constructor
  · exact hall _ ⟨bytes "a=1&&b=2", .cons (bytes "a=1") (.amp (.last (bytes "b=2"))), .inr rfl⟩
  · exact hbad [⟨bytes "a", bytes "1"⟩] [⟨bytes "b", bytes "2"⟩] _ _ rfl htoken hnone
      ⟨_, .cons (bytes "a=1") (.cons (bytes "c=") (.last (bytes "b=2"))), .inl rfl⟩

end DialServer
