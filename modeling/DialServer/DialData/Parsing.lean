import DialServer.Server.Connection

/-!
# The parameters of dial data

What `parse_params` makes of a text. The text stands for one pair for each token, split at the
token's first `=` (`split_token`). `sscanf` reads that pair from a well-formed token; from others it
reads a shorter one, or none, and then the whole list is given up, as it is without memory.
-/

namespace DialServer

open CLib Program

/-- The text without its leading question mark. -/
def strip_query : Bytes → Bytes
  | c :: s => if c = chr '?' then s else c :: s
  | [] => []

/-- The tokens of a text of parameters. -/
def param_tokens (s : Bytes) : List Bytes := strtok_tokens (strip_query s) (chr '&')

/-- A token split at its first `=`, into all that is before it and all that is behind it. -/
def split_token (token : Bytes) : Option DIALData :=
  (strchr token (chr '=')).map fun rest =>
    ⟨token.take (token.length - rest.length), rest.drop 1⟩

/-- The pairs that a text of parameters stands for, when each of its tokens is one. -/
def StandsFor (s : Bytes) (pairs : List DIALData) : Prop :=
  (param_tokens s).map split_token = pairs.map some

/-- A token that `sscanf` reads whole. -/
def WellFormed (token : Bytes) : Prop :=
  ∃ key value, token = key ++ chr '=' :: value ∧ key ≠ [] ∧ chr '=' ∉ key ∧ value ≠ [] ∧
    ∀ c ∈ value, isspace c = false

/-- The characters that a pair takes in a token. -/
def pair_length (d : DIALData) : ℕ := d.key.length + 1 + d.value.length

/-! ## One token -/

/-- A token that is given split at its first `=`. -/
theorem split_token_append {key : Bytes} (h : chr '=' ∉ key) (value : Bytes) :
    split_token (key ++ chr '=' :: value) = some ⟨key, value⟩ := by
  unfold split_token
  rw [strchr_append h, Option.map_some, List.length_append, Nat.add_sub_cancel, List.take_left]
  rfl

/-- A pair takes its whole token. -/
theorem split_token_length {token : Bytes} {d : DIALData} (h : split_token token = some d) :
    pair_length d = token.length := by
  obtain ⟨rest, hrest, rfl⟩ := Option.map_eq_some_iff.mp h
  obtain ⟨key, value, rfl, -, rfl⟩ := strchr_eq_some.mp hrest
  simp only [pair_length, List.length_append, Nat.add_sub_cancel, List.take_left, List.length_cons,
    List.drop_succ_cons, List.drop_zero]
  omega

/-- A well-formed token is read whole. -/
theorem sscanf_pair_wellFormed {token : Bytes} (h : WellFormed token) :
    ∃ d, sscanf_pair token = some d ∧ split_token token = some d := by
  obtain ⟨key, value, rfl, hkey, heq, hvalue, hspace⟩ := h
  refine ⟨⟨key, value⟩, ?_, split_token_append heq value⟩
  have hset : scan_set (· ≠ chr '=') (key ++ chr '=' :: value) = some (key, chr '=' :: value) := by
    -- The key is all of the run, which ends at the `=`.
    refine scan_set_run hkey (fun c hc => ?_) fun c r hr => ?_
    · simpa using fun h : c = chr '=' => heq (h ▸ hc)
    · simp [(List.cons.inj hr).1.symm]
  have hword : scan_s none value = some (value, []) := by
    have := @scan_s_word value [] none hvalue hspace (by simp) (by simp)
    rwa [List.append_nil] at this
  unfold sscanf_pair
  simp only [hset, if_true, hword]

/-- What `sscanf` reads: the key is all that is before the first `=`, and the value is a part of
what is behind it. -/
theorem sscanf_pair_cases {token : Bytes} {d : DIALData} (h : sscanf_pair token = some d) :
    ∃ rest, token = d.key ++ chr '=' :: rest ∧ d.key ≠ [] ∧ chr '=' ∉ d.key ∧
      d.value.Sublist rest ∧ d.value ≠ [] ∧ ∀ c ∈ d.value, isspace c = false := by
  unfold sscanf_pair at h
  cases hset : scan_set (· ≠ chr '=') token with
  | none =>
    rw [hset] at h
    exact absurd h (by simp)
  | some r =>
    obtain ⟨key, rest⟩ := r
    obtain ⟨rfl, hkey, hchars⟩ := scan_set_eq_some hset
    cases rest with
    | nil =>
      -- The token has no `=`.
      rw [hset] at h
      exact absurd h (by simp)
    | cons c rest =>
      simp only [hset] at h
      split_ifs at h with hc
      subst hc
      cases hword : scan_s none rest with
      | none => simp [hword] at h
      | some r =>
        obtain ⟨value, rest'⟩ := r
        simp only [hword, Option.some.injEq] at h
        subst h
        exact ⟨rest, rfl, hkey, fun hmem => by simpa using hchars _ hmem, scan_s_sublist hword,
          scan_s_ne_nil hword, (scan_s_stored hword).1⟩

/-- What `sscanf` reads is no longer than the token, and as long only if the token is well formed.
-/
theorem sscanf_pair_length {token : Bytes} {d : DIALData} (h : sscanf_pair token = some d) :
    pair_length d ≤ token.length ∧ (pair_length d = token.length → WellFormed token) := by
  obtain ⟨rest, rfl, hkey, heq, hsub, hvalue, hspace⟩ := sscanf_pair_cases h
  have hle := hsub.length_le
  simp only [pair_length, List.length_append, List.length_cons]
  refine ⟨by omega, fun hlen => ?_⟩
  -- Nothing was skipped or left, so that the value is all that follows the sign.
  have hall : d.value = rest := hsub.eq_of_length (by omega)
  exact ⟨d.key, d.value, by rw [hall], hkey, heq, hvalue, hspace⟩

/-! ## All tokens -/

/-- One allocation without which the list is given up. -/
theorem new_cases {rest : Alloc (Option (List DIALData))} {supply supply' : Supply}
    {r : Option (List DIALData)} {e : List Empty}
    (h : (do if !(← request) then return none else rest : Alloc (Option (List DIALData))) supply =
      some (r, e, supply')) :
    (supply 0 = true ∧ rest (supply.after 1) = some (r, e, supply')) ∨
      (r = none ∧ supply 0 = false) := by
  obtain ⟨granted, e₁, t, e₂, h₁, h₂, rfl⟩ := bind_eq_some.mp h
  simp only [request, Option.some.injEq, Prod.mk.injEq] at h₁
  obtain ⟨hgranted, rfl, rfl⟩ := h₁
  cases granted with
  | false =>
    simp only [Bool.not_false, if_true, pure_apply, Option.some.injEq, Prod.mk.injEq] at h₂
    exact .inr ⟨h₂.1.symm, hgranted⟩
  | true => exact .inl ⟨hgranted, h₂⟩

/-- The three allocations of a new pair, in the parser as in the reader of the file. -/
theorem new_pair_cases {rest : Alloc (Option (List DIALData))} {supply supply' : Supply}
    {r : Option (List DIALData)} {e : List Empty}
    (h : (do
      if !(← request) then return none
      else if !(← request) then return none
      else if !(← request) then return none
      else rest : Alloc (Option (List DIALData))) supply = some (r, e, supply')) :
    ((∀ i < 3, supply i = true) ∧ rest (supply.after 3) = some (r, e, supply')) ∨
      (r = none ∧ ¬∀ i < 3, supply i = true) := by
  have hrefused : ∀ i < 3, supply i = false → ¬∀ i < 3, supply i = true := by
    intro i hi hfalse hall
    simp [hall i hi] at hfalse
  rcases new_cases h with ⟨h0, h⟩ | ⟨rfl, h0⟩
  · rcases new_cases h with ⟨h1, h⟩ | ⟨rfl, h1⟩
    · rcases new_cases h with ⟨h2, h⟩ | ⟨rfl, h2⟩
      · refine .inl ⟨fun i hi => ?_, h⟩
        interval_cases i
        · exact h0
        · exact h1
        · exact h2
      · exact .inr ⟨rfl, hrefused 2 (by decide) h2⟩
    · exact .inr ⟨rfl, hrefused 1 (by decide) h1⟩
  · exact .inr ⟨rfl, hrefused 0 (by decide) h0⟩

/-- The allocations of one pair and of those that follow it. -/
theorem granted_cons {supply : Supply} {n : ℕ} : (∀ i < 3 * (n + 1), supply i = true) ↔
    (∀ i < 3, supply i = true) ∧ ∀ i < 3 * n, supply.after 3 i = true := by
  simp only [Supply.after]
  constructor
  · exact fun hall => ⟨fun i hi => hall i (by omega), fun i hi => hall (i + 3) (by omega)⟩
  · rintro ⟨hfirst, hrest⟩ i hi
    -- The first three are of the first pair.
    rcases Nat.lt_or_ge i 3 with hlt | hge
    · exact hfirst i hlt
    · have := hrest (i - 3) (by omega)
      rwa [Nat.sub_add_cancel hge] at this

/-- The loop of `parse_params` ends with the pair of each token in front of what it had, or it gives
up because a token gives no pair or an allocation fails. -/
theorem parse_params_loop_cases {tokens : List Bytes} {result : List DIALData} {supply : Supply}
    {r : Option (List DIALData)} {e : List Empty} {supply' : Supply}
    (h : parse_params_loop tokens result supply = some (r, e, supply')) :
    (∃ pairs : List DIALData, r = some (pairs.reverse ++ result) ∧
        tokens.map sscanf_pair = pairs.map some ∧ ∀ i < 3 * tokens.length, supply i = true) ∨
      (r = none ∧ ¬((∀ token ∈ tokens, sscanf_pair token ≠ none) ∧
        ∀ i < 3 * tokens.length, supply i = true)) := by
  induction tokens generalizing result supply with
  | nil =>
    simp only [parse_params_loop, pure_apply, Option.some.injEq, Prod.mk.injEq] at h
    obtain ⟨rfl, -, -⟩ := h
    exact .inl ⟨[], rfl, rfl, by simp⟩
  | cons token tokens ih =>
    unfold parse_params_loop at h
    rw [List.length_cons, granted_cons]
    rcases new_pair_cases h with ⟨hgranted, h⟩ | ⟨rfl, hrefused⟩
    · cases hpair : sscanf_pair token with
      | none =>
        -- One bad token gives up the pairs of all others.
        simp only [hpair, pure_apply, Option.some.injEq, Prod.mk.injEq] at h
        exact .inr ⟨h.1.symm, fun hall => hall.1 token (List.mem_cons_self ..) hpair⟩
      | some pair =>
        simp only [hpair] at h
        rcases ih h with ⟨pairs, rfl, hpairs, hrest⟩ | ⟨rfl, hrest⟩
        · exact .inl ⟨pair :: pairs, by simp, by simp [hpair, hpairs], hgranted, hrest⟩
        · refine .inr ⟨rfl, fun hall => hrest ⟨fun token' hmem => ?_, hall.2.2⟩⟩
          exact hall.1 token' (List.mem_cons_of_mem _ hmem)
    · exact .inr ⟨rfl, fun hall => hrefused hall.2.1⟩

/-- The list of `parse_params`, in the order opposite to that of the tokens. A text of at most two
characters is not looked at. -/
theorem parse_params_cases {s : Bytes} {supply supply' : Supply} {data : List DIALData}
    {e : List Empty} (h : parse_params s supply = some (data, e, supply')) :
    (2 < s.length ∧ ∃ pairs : List DIALData, data = pairs.reverse ∧
        (param_tokens s).map sscanf_pair = pairs.map some ∧
        ∀ i < 3 * (param_tokens s).length, supply (1 + i) = true) ∨
      (data = [] ∧ ¬(2 < s.length ∧ (∀ token ∈ param_tokens s, sscanf_pair token ≠ none) ∧
        ∀ i < 3 * (param_tokens s).length, supply (1 + i) = true)) := by
  unfold parse_params at h
  by_cases hshort : s.length ≤ 2
  · simp only [hshort, if_true, pure_apply, Option.some.injEq, Prod.mk.injEq] at h
    exact .inr ⟨h.1.symm, fun hall => by omega⟩
  rw [if_neg hshort] at h
  obtain ⟨granted, e₁, t, e₂, h₁, h, rfl⟩ := bind_eq_some.mp h
  simp only [request, Option.some.injEq, Prod.mk.injEq] at h₁
  obtain ⟨-, rfl, rfl⟩ := h₁
  cases granted with
  | false =>
    -- Without the copy the call of `strtok` has no meaning, and it does not return.
    simp at h
  | true =>
    obtain ⟨result, e₃, t, e₄, h₃, h₄, rfl⟩ := bind_eq_some.mp h
    have hloop : parse_params_loop (param_tokens s) [] (supply.after 1) = some (result, e₃, t) := by
      cases s <;> exact h₃
    have hafter : ∀ i, supply.after 1 i = supply (1 + i) := fun i => by
      rw [Supply.after, Nat.add_comm]
    have hcases := parse_params_loop_cases hloop
    simp only [hafter] at hcases
    rcases hcases with ⟨pairs, rfl, hpairs, hgranted⟩ | ⟨rfl, hfailed⟩
    · simp only [List.append_nil, pure_apply, Option.some.injEq, Prod.mk.injEq] at h₄
      exact .inl ⟨by omega, pairs, h₄.1.symm, hpairs, hgranted⟩
    · simp only [pure_apply, Option.some.injEq, Prod.mk.injEq] at h₄
      exact .inr ⟨h₄.1.symm, fun hall => hfailed hall.2⟩

/-! ## The whole text -/

/-- With memory `parse_params` returns. -/
theorem parse_params_plenty (s : Bytes) :
    ∃ data, parse_params s plenty = some (data, [], plenty) := by
  have hloop : ∀ tokens result, ∃ r,
      parse_params_loop tokens result plenty = some (r, [], plenty) := by
    intro tokens
    induction tokens with
    | nil => exact fun result => ⟨_, rfl⟩
    | cons token tokens ih =>
      intro result
      cases hpair : sscanf_pair token with
      | none => exact ⟨none, by simp [parse_params_loop, bind_apply, hpair]⟩
      | some pair =>
        obtain ⟨r, hr⟩ := ih (pair :: result)
        exact ⟨r, by simp [parse_params_loop, bind_apply, hpair, hr]⟩
  cases s with
  | nil => exact ⟨[], rfl⟩
  | cons c rest =>
    obtain ⟨r, hr⟩ := hloop (param_tokens (c :: rest)) []
    rw [param_tokens, strip_query] at hr
    unfold parse_params
    split_ifs with hshort
    · exact ⟨[], rfl⟩
    · cases r with
      | none => exact ⟨[], by simp [bind_apply, hr]⟩
      | some result => exact ⟨result, by simp [bind_apply, hr]⟩

/-- Together the tokens take all characters but the `&`. -/
theorem param_tokens_length (s : Bytes) :
    ((param_tokens s).map List.length).sum = (strip_query s).countP (· ≠ chr '&') := by
  rw [← List.length_flatten, param_tokens, flatten_strtok_tokens, List.countP_eq_length_filter]

/-- The pairs that a text stands for take all its tokens. -/
theorem standsFor_length {tokens : List Bytes} {pairs : List DIALData}
    (h : tokens.map split_token = pairs.map some) :
    (pairs.map pair_length).sum = (tokens.map List.length).sum := by
  induction tokens generalizing pairs with
  | nil =>
    obtain rfl : pairs = [] := by simpa using h.symm
    rfl
  | cons token tokens ih =>
    cases pairs with
    | nil => simp at h
    | cons pair pairs =>
      obtain ⟨hpair, hpairs⟩ := List.cons.inj h
      rw [List.map_cons, List.map_cons, List.sum_cons, List.sum_cons, ih hpairs,
        split_token_length hpair]

/-- The pairs that are read take no more than their tokens, and as much only if all tokens are well
formed. -/
theorem read_length {tokens : List Bytes} {pairs : List DIALData}
    (h : tokens.map sscanf_pair = pairs.map some) :
    (pairs.map pair_length).sum ≤ (tokens.map List.length).sum ∧
      ((pairs.map pair_length).sum = (tokens.map List.length).sum →
        ∀ token ∈ tokens, WellFormed token) := by
  induction tokens generalizing pairs with
  | nil =>
    obtain rfl : pairs = [] := by simpa using h.symm
    simp
  | cons token tokens ih =>
    cases pairs with
    | nil => simp at h
    | cons pair pairs =>
      obtain ⟨hpair, hpairs⟩ := List.cons.inj h
      obtain ⟨hle, hwhole⟩ := sscanf_pair_length hpair
      obtain ⟨hle', hwhole'⟩ := ih hpairs
      simp only [List.map_cons, List.sum_cons, List.forall_mem_cons]
      exact ⟨by omega, fun hsum => ⟨hwhole (by omega), hwhole' (by omega)⟩⟩

/-- Well-formed tokens are read as what they stand for. -/
theorem read_eq_split {tokens : List Bytes} (h : ∀ token ∈ tokens, WellFormed token) :
    tokens.map sscanf_pair = tokens.map split_token := by
  refine List.map_congr_left fun token hmem => ?_
  obtain ⟨d, hread, hsplit⟩ := sscanf_pair_wellFormed (h token hmem)
  rw [hread, hsplit]

/-- The leading question mark belongs to the start of the text. -/
theorem strip_query_append {s t : Bytes} (h : s = [] → t = []) :
    strip_query (s ++ t) = strip_query s ++ t := by
  cases s with
  | nil =>
    rw [h rfl]
    rfl
  | cons c s =>
    unfold strip_query
    simp only [List.cons_append]
    split_ifs <;> rfl

/-- A well-formed token has at least three characters, all of them of the text. -/
theorem WellFormed.length_le {s token : Bytes} (h : WellFormed token)
    (hmem : token ∈ param_tokens s) :
    3 ≤ token.length ∧ token.length ≤ s.length := by
  constructor
  · obtain ⟨key, value, rfl, hkey, -, hvalue, -⟩ := h
    have := List.length_pos_of_ne_nil hkey
    have := List.length_pos_of_ne_nil hvalue
    simp only [List.length_append, List.length_cons]
    omega
  · have hstrip : (strip_query s).length ≤ s.length := by
      cases s with
      | nil => exact le_rfl
      | cons c s =>
        simp only [strip_query]
        split_ifs <;> simp
    exact (length_le_of_mem_splitOn (List.mem_of_mem_filter hmem)).trans hstrip

/-- What is read from the first `n` characters of a text is what all of the text stands for exactly
when only `&` follow them, their tokens are well formed, and the allocations succeed. -/
theorem parse_params_complete_iff {s : Bytes} {n : ℕ} (hn : 0 < n) {supply supply' : Supply}
    {data : List DIALData} {e : List Empty}
    (h : parse_params (s.take n) supply = some (data, e, supply')) :
    (∃ pairs, StandsFor s pairs ∧ data.Perm pairs) ↔
      (∀ c ∈ s.drop n, c = chr '&') ∧ (∀ token ∈ param_tokens (s.take n), WellFormed token) ∧
        ∀ i < 3 * (param_tokens (s.take n)).length, supply (1 + i) = true := by
  have hstrip : strip_query s = strip_query (s.take n) ++ s.drop n := by
    rw [← strip_query_append, List.take_append_drop]
    intro hnil
    rcases List.take_eq_nil_iff.mp hnil with rfl | rfl
    · omega
    · exact List.drop_nil
  have htokens : (∀ c ∈ s.drop n, c = chr '&') → param_tokens s = param_tokens (s.take n) := by
    intro hrest
    unfold param_tokens
    rw [hstrip, strtok_tokens_append_delims _ hrest]
  constructor
  · rintro ⟨pairs, hstands, hperm⟩
    -- What is stored takes as many characters as the text has beside `&`, and nothing more than
    -- the first `n` was read.
    have hsum : (data.map pair_length).sum =
        ((param_tokens (s.take n)).map List.length).sum + (s.drop n).countP (· ≠ chr '&') := by
      calc (data.map pair_length).sum
          = (pairs.map pair_length).sum := (hperm.map pair_length).sum_eq
        _ = ((param_tokens s).map List.length).sum := standsFor_length hstands
        _ = (strip_query s).countP (· ≠ chr '&') := param_tokens_length s
        _ = ((param_tokens (s.take n)).map List.length).sum +
              (s.drop n).countP (· ≠ chr '&') := by
            rw [hstrip, List.countP_append, param_tokens_length]
    have hrest : (s.drop n).countP (· ≠ chr '&') = 0 → ∀ c ∈ s.drop n, c = chr '&' := by
      intro hcount c hc
      simpa using List.countP_eq_zero.mp hcount c hc
    rcases parse_params_cases h with ⟨-, read, rfl, hread, hgranted⟩ | ⟨rfl, -⟩
    · obtain ⟨hle, hwhole⟩ := read_length hread
      rw [(List.reverse_perm _).map pair_length |>.sum_eq] at hsum
      exact ⟨hrest (by omega), hwhole (by omega), hgranted⟩
    · -- Nothing was stored, so that the text has no token.
      simp only [List.map_nil, List.sum_nil] at hsum
      have hnil : param_tokens (s.take n) = [] := by
        obtain rfl := List.nil_perm.mp hperm
        rw [← htokens (hrest (by omega))]
        simpa [StandsFor] using hstands
      rw [hnil]
      exact ⟨hrest (by omega), by simp, by simp⟩
  · rintro ⟨hrest, hwell, hgranted⟩
    have hsplit := read_eq_split hwell
    have hread : ∀ token ∈ param_tokens (s.take n), sscanf_pair token ≠ none := by
      intro token hmem
      obtain ⟨d, hd, -⟩ := sscanf_pair_wellFormed (hwell token hmem)
      simp [hd]
    unfold StandsFor
    rw [htokens hrest, ← hsplit]
    rcases parse_params_cases h with ⟨-, read, rfl, hpairs, -⟩ | ⟨rfl, hfailed⟩
    · exact ⟨read, hpairs, List.reverse_perm read⟩
    · -- A text of at most two characters has no room for a token that is well formed.
      have hnil : param_tokens (s.take n) = [] := by
        rw [List.eq_nil_iff_forall_not_mem]
        intro token hmem
        obtain ⟨hthree, hlen⟩ := (hwell token hmem).length_le hmem
        exact hfailed ⟨by omega, hread, hgranted⟩
      exact ⟨[], by simp [hnil], List.Perm.refl _⟩

/-- The characters of a token are characters of the text. -/
theorem mem_of_mem_param_tokens {s token : Bytes} (htoken : token ∈ param_tokens s) {c : UInt8}
    (hc : c ∈ token) : c ∈ s := by
  have hflat : c ∈ (param_tokens s).flatten := List.mem_flatten.mpr ⟨token, htoken, hc⟩
  rw [param_tokens, flatten_strtok_tokens] at hflat
  have hstrip := List.mem_of_mem_filter hflat
  cases s with
  | nil => exact hstrip
  | cons b s =>
    simp only [strip_query] at hstrip
    split_ifs at hstrip
    · exact List.mem_cons_of_mem _ hstrip
    · exact hstrip

/-- What `parse_params` stores: keys and values that are not empty, of characters of the text, and
no white space in the values. -/
theorem parse_params_stored {s : Bytes} {supply supply' : Supply} {data : List DIALData}
    {e : List Empty} (h : parse_params s supply = some (data, e, supply')) :
    ∀ d ∈ data, d.key ≠ [] ∧ (∀ c ∈ d.key, c ∈ s) ∧ d.value ≠ [] ∧
      ∀ c ∈ d.value, c ∈ s ∧ isspace c = false := by
  rcases parse_params_cases h with ⟨-, pairs, rfl, hpairs, -⟩ | ⟨rfl, -⟩
  · intro d hd
    have hmem : some d ∈ (param_tokens s).map sscanf_pair := by
      rw [hpairs]
      exact List.mem_map_of_mem (List.mem_reverse.mp hd)
    obtain ⟨token, htoken, hread⟩ := List.mem_map.mp hmem
    obtain ⟨rest, rfl, hkey, -, hsub, hvalue, hspace⟩ := sscanf_pair_cases hread
    refine ⟨hkey, fun c hc => ?_, hvalue, fun c hc => ⟨?_, hspace c hc⟩⟩
    · exact mem_of_mem_param_tokens htoken (List.mem_append_left _ hc)
    · exact mem_of_mem_param_tokens htoken
        (List.mem_append_right _ (List.mem_cons_of_mem _ (hsub.subset hc)))
  · simp

end DialServer
