import DialServer.Source.Origin

/-!
# What the allow list accepts

`split_port` and `Justifies` say when an entry of an allow list justifies an origin, in terms of
hosts and ports and without lengths. `host_matches_iff` gives the comparison that `host_matches`
makes in the same terms; its wildcard accepts exactly one more label, because the code compares from
the first dot of the origin on. `is_uri_in_list_sound` is the soundness of the list, and
`wildcard_accepts_iff` says which subdomains a wildcard entry accepts.
-/

namespace DialServer

open CLib

/-- The text before the last colon and the port behind it. -/
def split_port (s : Bytes) : Bytes × Option Bytes :=
  match strrchr s (chr ':') with
  | some t => (s.take (s.length - t.length), some (t.drop 1))
  | none => (s, none)

/-- The host and the port of a URI that begins with `https://`. -/
def host_port (uri : Bytes) : Bytes × Option Bytes := split_port (uri.drop gHttpsProto.length)

/-- The host of an entry covers the host of an origin: they are the same, or the entry's is a
wildcard for all that ends in a dot and its domain. -/
def HostCovers (entry origin : Bytes) : Prop :=
  entry = origin ∨
    ∃ domain subdomain, subdomain ≠ [] ∧ entry = bytes "*." ++ domain ∧
      origin = subdomain ++ bytes "." ++ domain

/-- The port of an entry, if it has one, is the port of the origin; the default port 443 may be left
out there. -/
def PortCovers (entry origin : Option Bytes) : Prop :=
  ∀ port, entry = some port → origin = some port ∨ (port = bytes "443" ∧ origin = none)

/-- An entry of an allow list that justifies accepting an origin. -/
def Justifies (entry origin : Bytes) : Prop :=
  if gHttpsProto <+: origin then
    gHttpsProto <+: entry ∧ HostCovers (host_port entry).1 (host_port origin).1 ∧
      PortCovers (host_port entry).2 (host_port origin).2
  else
    entry = origin ∨
      (2 ≤ entry.length ∧ entry.getLast? = some (chr '*') ∧ entry.length ≤ origin.length ∧
        entry.dropLast <+: origin)

/-- A host and a port that are given apart. -/
theorem split_port_append {port : Bytes} (h : chr ':' ∉ port) (host : Bytes) :
    split_port (host ++ chr ':' :: port) = (host, some port) := by
  unfold split_port
  rw [strrchr_append h]
  simp

/-- A host alone. -/
theorem split_port_of_notMem {s : Bytes} (h : chr ':' ∉ s) : split_port s = (s, none) := by
  unfold split_port
  rw [strrchr_eq_none.mpr h]

/-- Every string has a port or has none. -/
theorem split_port_cases (s : Bytes) :
    (chr ':' ∉ s ∧ split_port s = (s, none)) ∨
      ∃ host port, chr ':' ∉ port ∧ s = host ++ chr ':' :: port ∧
        split_port s = (host, some port) := by
  cases h : strrchr s (chr ':') with
  | none =>
    have hs := strrchr_eq_none.mp h
    exact .inl ⟨hs, split_port_of_notMem hs⟩
  | some t =>
    obtain ⟨host, port, rfl, hp, rfl⟩ := strrchr_eq_some.mp h
    exact .inr ⟨host, port, hp, rfl, split_port_append hp host⟩

/-! ## The comparison of two hosts -/

/-- The comparison that `host_matches` makes of the parts it has cut out of the origin and the
entry. -/
def PartsMatch (origin host : Bytes) : Prop :=
  origin ≠ [] ∧ host ≠ [] ∧
    if bytes "*." <+: host ∧ 2 < host.length then
      ∃ label, label ≠ [] ∧ chr '.' ∉ label ∧ origin = label ++ host.drop 1
    else origin = host

/-- The compared lengths are not beyond the strings. -/
theorem compared_lengths_le (origin_host host : Bytes) :
    (compared_lengths origin_host host).1 ≤ origin_host.length ∧
      (compared_lengths origin_host host).2 ≤ host.length := by
  unfold compared_lengths
  simp only
  split
  · split_ifs <;> simp
  · split <;> simp

/-- The subtraction does not wrap when the part that is skipped is within the length, and when it
does, the result is too large to be the length of anything in memory. -/
theorem size_sub_eq_iff {a b n total : ℕ} (ha : a ≤ total) (hb : b ≤ total)
    (hmem : total + n < 2 ^ 64) : size_sub a b = n ↔ b ≤ a ∧ a - b = n := by
  unfold size_sub
  rcases Nat.lt_or_ge a b with h | h
  · -- It wraps, and the result is at least `2 ^ 64 - total`.
    rw [Nat.mod_eq_of_lt (by omega)]
    omega
  · rw [show a + 2 ^ 64 - b = (a - b) + 2 ^ 64 by omega, Nat.add_mod_right,
      Nat.mod_eq_of_lt (by omega)]
    omega

/-- The wildcard comparison: from the first dot of the origin on, it has to be the entry without its
star. -/
theorem wildcard_part_iff {origin_host host : Bytes} {ol hl : ℕ} (hol : ol ≤ origin_host.length)
    (hhl : hl ≤ host.length) (hmem : origin_host.length + host.length < 2 ^ 64)
    (hw : bytes "*." <+: host.take hl) (h2 : 2 < hl) :
    (hl ≤ ol ∧ ∃ d, strchr origin_host (chr '.') = some d ∧
        size_sub ol (origin_host.length - d.length) = hl - 1 ∧
        d.take (hl - 1) = (host.drop 1).take (hl - 1)) ↔
      ∃ label, label ≠ [] ∧ chr '.' ∉ label ∧
        origin_host.take ol = label ++ (host.take hl).drop 1 := by
  have hdrop : (host.take hl).drop 1 = (host.drop 1).take (hl - 1) := List.drop_take
  constructor
  · rintro ⟨hle, d, hd, hsize, heq⟩
    obtain ⟨label, r, rfl, hlabel, rfl⟩ := strchr_eq_some.mp hd
    rw [size_sub_eq_iff hol (by simp) (by omega)] at hsize
    simp only [List.length_append, List.length_cons, Nat.add_sub_cancel] at hsize
    obtain ⟨hb, hsize⟩ := hsize
    refine ⟨label, ?_, hlabel, ?_⟩
    · -- Without a label the origin would be the shorter by the star.
      rintro rfl
      simp only [List.length_nil] at hsize
      omega
    · rw [hdrop, ← heq, List.take_append, List.take_of_length_le hb]
      congr 2
  · rintro ⟨label, hne, hlabel, heq⟩
    obtain ⟨r, hr⟩ : ∃ r, (host.take hl).drop 1 = chr '.' :: r := by
      obtain ⟨t, ht⟩ := hw
      exact ⟨t, by rw [← ht]; rfl⟩
    -- The label has no dot and the domain begins with one, so that `strchr` stops there.
    have hlen : ol = label.length + (hl - 1) := by
      have := congrArg List.length heq
      simp only [List.length_take, List.length_append, List.length_drop] at this
      omega
    have hpos : 0 < label.length := List.length_pos_of_ne_nil hne
    have hsplit : origin_host = label ++ chr '.' :: (r ++ origin_host.drop ol) := by
      conv_lhs => rw [← List.take_append_drop ol origin_host, heq, hr]
      simp
    have hd : strchr origin_host (chr '.') = some (chr '.' :: (r ++ origin_host.drop ol)) := by
      conv_lhs => rw [hsplit]
      exact strchr_append hlabel _
    have hol' : origin_host.length =
        label.length + (chr '.' :: (r ++ origin_host.drop ol)).length := by
      conv_lhs => rw [hsplit]
      simp
    refine ⟨by omega, _, hd, ?_, ?_⟩
    · rw [size_sub_eq_iff hol (by omega) (by omega)]
      omega
    · have hrl : (chr '.' :: r).length = hl - 1 := by
        rw [← hr, hdrop, List.length_take, List.length_drop]
        omega
      rw [← hdrop, hr, ← hrl, ← List.cons_append, List.take_left']
      rfl

/-- The comparison of `host_matches`, on the parts of the two strings that it compares. -/
theorem compare_hosts_iff {origin_host host : Bytes} {ol hl : ℕ} (hol : ol ≤ origin_host.length)
    (hhl : hl ≤ host.length) (hmem : origin_host.length + host.length < 2 ^ 64) :
    compare_hosts origin_host host ol hl = true ↔
      PartsMatch (origin_host.take ol) (host.take hl) := by
  have htake : ∀ {s : Bytes} {n : ℕ}, n ≤ s.length → (s.take n = [] ↔ n = 0) := by
    intro s n hn
    rw [← List.length_eq_zero_iff, List.length_take]
    omega
  have hacc : (if hl > (bytes "*.").length then
      strncmp_eq host (bytes "*.") (bytes "*.").length else false) =
        decide (bytes "*." <+: host.take hl ∧ 2 < hl) := by
    rw [Bool.eq_iff_iff, decide_eq_true_iff, List.prefix_take_iff, ← strncmp_eq_length]
    split_ifs with h2
    · have h2' : 2 < hl := h2
      simp [h2', h2'.le, show (bytes "*.").length = 2 from rfl]
    · simp [show ¬2 < hl from h2]
  unfold compare_hosts PartsMatch
  rw [ne_eq, ne_eq, htake hol, htake hhl, List.length_take, Nat.min_eq_left hhl]
  -- Either part may be empty, then the entry may be a wildcard or not.
  by_cases h0 : ol = 0 ∨ hl = 0
  · simp only [if_pos h0, Bool.false_eq_true, false_iff]
    tauto
  simp only [if_neg h0, hacc]
  rw [not_or] at h0
  simp only [h0, not_false_eq_true, true_and]
  by_cases hw : bytes "*." <+: host.take hl ∧ 2 < hl
  · simp only [decide_eq_true hw, if_pos hw, if_true]
    rw [← wildcard_part_iff hol hhl hmem hw.1 hw.2]
    -- An origin that is shorter than the entry has no label, or not the whole domain.
    by_cases hle : ol < hl
    · simp only [if_pos hle, Bool.false_eq_true, false_iff, not_and]
      omega
    rw [if_neg hle]
    cases hd : strchr origin_host (chr '.') with
    | none => simp
    | some d =>
      simp only [Bool.and_eq_true, decide_eq_true_eq, strncmp_eq_iff, Option.some.injEq,
        exists_eq_left']
      constructor
      · rintro ⟨hsize, heq⟩
        exact ⟨by omega, hsize, hsize ▸ heq⟩
      · rintro ⟨-, hsize, heq⟩
        exact ⟨hsize, hsize ▸ heq⟩
  · simp only [decide_eq_false hw, if_neg hw, Bool.false_eq_true, if_false, Bool.and_eq_true,
      decide_eq_true_eq, strncmp_eq_iff]
    constructor
    · rintro ⟨rfl, heq⟩
      exact heq
    · intro heq
      have := congrArg List.length heq
      simp only [List.length_take] at this
      have hlens : ol = hl := by omega
      exact ⟨hlens, by rw [heq, hlens]⟩

/-- What `host_matches` compares, when both strings are in memory together. -/
theorem host_matches_iff {origin candidate : Bytes}
    (hmem : origin.length + candidate.length < 2 ^ 64) :
    host_matches origin candidate = true ↔
      gHttpsProto <+: origin ∧ gHttpsProto <+: candidate ∧
        PartsMatch
          ((origin.drop gHttpsProto.length).take
            (compared_lengths (origin.drop gHttpsProto.length)
              (candidate.drop gHttpsProto.length)).1)
          ((candidate.drop gHttpsProto.length).take
            (compared_lengths (origin.drop gHttpsProto.length)
              (candidate.drop gHttpsProto.length)).2) := by
  obtain ⟨hol, hhl⟩ := compared_lengths_le (origin.drop gHttpsProto.length)
    (candidate.drop gHttpsProto.length)
  rw [← compare_hosts_iff hol hhl (by simp only [List.length_drop]; omega),
    ← strncmp_eq_length, ← strncmp_eq_length]
  unfold host_matches
  simp only
  cases strncmp_eq origin gHttpsProto gHttpsProto.length with
  | false => simp
  | true =>
    cases strncmp_eq candidate gHttpsProto gHttpsProto.length with
    | false => simp
    | true => simp

/-! ## Hosts and ports of what is compared -/

/-- The parts that `host_matches` compares: the hosts when the entry has no port, or has the port
443 and the origin none; both with their ports otherwise. -/
theorem compared_parts (oh h : Bytes) :
    (oh.take (compared_lengths oh h).1, h.take (compared_lengths oh h).2) =
      match (split_port h).2 with
      | none => ((split_port oh).1, h)
      | some port =>
        if port = bytes "443" ∧ (split_port oh).2 = none then (oh, (split_port h).1)
        else (oh, h) := by
  have hport : ∀ port : Bytes, ((chr ':' :: port).length = 4 ∧
      strncmp_eq (chr ':' :: port) (bytes ":443") 4 = true) ↔ port = bytes "443" := by
    intro port
    constructor
    · rintro ⟨hlen, heq⟩
      rw [strncmp_eq_iff, List.take_of_length_le hlen.le] at heq
      exact (List.cons.inj heq).2
    · rintro rfl
      decide
  rcases split_port_cases h with ⟨hc, hs⟩ | ⟨hh, port, hp, rfl, hs⟩
  · -- The entry has no port, and that of the origin is ignored.
    rw [hs]
    unfold compared_lengths
    simp only [strrchr_eq_none.mpr hc]
    rcases split_port_cases oh with ⟨hoc, hos⟩ | ⟨ohh, oport, hop, rfl, hos⟩
    · simp [hos, strrchr_eq_none.mpr hoc]
    · simp [hos, strrchr_append hop]
  · -- The entry has a port, which is ignored only for an origin without one.
    rw [hs]
    unfold compared_lengths
    simp only [strrchr_append hp, ← and_assoc, hport]
    rcases split_port_cases oh with ⟨hoc, hos⟩ | ⟨ohh, oport, hop, rfl, hos⟩
    · simp only [hos, strrchr_eq_none.mpr hoc]
      split_ifs <;> simp
    · simp [hos, strrchr_append hop]

/-- Parts that match cover each other as hosts. -/
theorem PartsMatch.covers {origin host : Bytes} (h : PartsMatch origin host) :
    HostCovers host origin := by
  obtain ⟨-, -, h⟩ := h
  split_ifs at h with hw
  · obtain ⟨label, hne, -, rfl⟩ := h
    obtain ⟨⟨domain, rfl⟩, -⟩ := hw
    exact .inr ⟨domain, label, hne, rfl, by simp [bytes]⟩
  · exact .inl h.symm

/-- When the entry is compared together with its port, the origin has the same port, and the hosts
cover each other. -/
theorem PartsMatch.covers_with_port {origin host port : Bytes}
    (h : PartsMatch origin (host ++ chr ':' :: port)) :
    ∃ origin_host, origin = origin_host ++ chr ':' :: port ∧ HostCovers host origin_host := by
  obtain ⟨-, -, h⟩ := h
  split_ifs at h with hw
  · obtain ⟨label, hne, -, rfl⟩ := h
    obtain ⟨⟨rest, hrest⟩, hlen⟩ := hw
    -- The star and the dot are in the host, since neither is a colon.
    obtain ⟨domain, rfl⟩ : ∃ domain, host = bytes "*." ++ domain := by
      match host, hrest with
      | [], hrest => exact absurd (List.cons.inj hrest).1 (by decide)
      | [_], hrest => exact absurd (List.cons.inj (List.cons.inj hrest).2).1 (by decide)
      | a :: b :: domain, hrest =>
        obtain ⟨ha, hb⟩ := List.cons.inj hrest
        exact ⟨domain, by rw [← ha, ← (List.cons.inj hb).1]; rfl⟩
    exact ⟨label ++ bytes "." ++ domain, by simp [bytes], .inr ⟨domain, label, hne, rfl, rfl⟩⟩
  · exact ⟨host, h, .inl rfl⟩

/-- An entry that `host_matches` accepts justifies the origin. -/
theorem host_matches_sound {origin candidate : Bytes}
    (hmem : origin.length + candidate.length < 2 ^ 64) (h : host_matches origin candidate = true) :
    Justifies candidate origin := by
  obtain ⟨ho, hc, hparts⟩ := (host_matches_iff hmem).mp h
  have hcomp := compared_parts (origin.drop gHttpsProto.length) (candidate.drop gHttpsProto.length)
  unfold Justifies host_port PortCovers
  rw [if_pos ho]
  refine ⟨hc, ?_⟩
  generalize origin.drop gHttpsProto.length = oh at *
  generalize candidate.drop gHttpsProto.length = ch at *
  obtain ⟨h₁, h₂⟩ := Prod.mk.inj hcomp
  rw [h₁, h₂] at hparts
  rcases split_port_cases ch with ⟨hcc, hcs⟩ | ⟨host, port, hp, rfl, hcs⟩
  · simp only [hcs] at hparts ⊢
    exact ⟨hparts.covers, by simp⟩
  · simp only [hcs] at hparts ⊢
    split_ifs at hparts with hport
    · -- The port 443 of the entry stands for an origin without a port.
      obtain ⟨rfl, hnone⟩ := hport
      have hoc : (split_port oh).1 = oh := by
        rcases split_port_cases oh with ⟨-, hos⟩ | ⟨_, _, -, -, hos⟩
        · rw [hos]
        · rw [hos] at hnone
          simp at hnone
      rw [hoc, hnone]
      exact ⟨hparts.covers, by simp⟩
    · obtain ⟨origin_host, rfl, hcov⟩ := hparts.covers_with_port
      rw [split_port_append hp]
      exact ⟨hcov, by simp⟩

/-- An entry that `origin_matches` accepts, for an origin without `https://`, justifies it. -/
theorem origin_matches_sound {origin candidate : Bytes} (ho : ¬gHttpsProto <+: origin)
    (h : origin_matches origin candidate = true) : Justifies candidate origin := by
  unfold Justifies
  rw [if_neg ho]
  unfold origin_matches at h
  simp only at h
  split_ifs at h with hstar hlen
  · -- All but the star has to be the start of the origin.
    obtain ⟨h1, hlast⟩ := hstar
    rw [strncmp_eq_iff] at h
    refine .inr ⟨h1, by rw [List.getLast?_eq_getElem?]; exact hlast, by omega, ?_⟩
    rw [List.dropLast_eq_take, ← h]
    exact List.take_prefix _ _
  · simp only [Bool.and_eq_true, decide_eq_true_eq, strncmp_eq_iff] at h
    obtain ⟨hl, heq⟩ := h
    left
    rw [List.take_of_length_le hl.ge, List.take_of_length_le le_rfl] at heq
    exact heq.symm

/-- The entries of an allow list. -/
def entries (list : Bytes) : List Bytes := list.splitOn (chr ' ')

/-- An entry that the list's test accepts justifies the origin. -/
theorem entry_matches_sound {origin entry : Bytes} (hmem : origin.length + entry.length < 2 ^ 64)
    (h : entry_matches origin entry = true) : Justifies entry origin := by
  unfold entry_matches at h
  simp only [Bool.or_eq_true, Bool.and_eq_true, Bool.not_eq_true'] at h
  rcases h with ⟨-, h⟩ | ⟨ho, h⟩
  · exact host_matches_sound hmem h
  · refine origin_matches_sound ?_ h
    rw [← strncmp_eq_length, ho]
    simp

/-! ## The list -/

/-- The last entry, which no blank follows. -/
theorem entries_last {scan : Bytes} (h : chr ' ' ∉ scan) : entries scan = [scan] :=
  List.splitOn_eq_singleton h

/-- An entry before a blank, and those behind the blank. -/
theorem entries_next {entry : Bytes} (h : chr ' ' ∉ entry) (rest : Bytes) :
    entries (entry ++ chr ' ' :: rest) = entry :: entries rest :=
  List.splitOn_append_cons_self_of_not_mem h rest

/-- The loop at the last entry. -/
theorem is_uri_in_list_loop_last {scan : Bytes} (h : chr ' ' ∉ scan) (origin : Bytes) (size : ℕ) :
    is_uri_in_list_loop origin scan size = pure (entry_matches origin scan) := by
  rw [is_uri_in_list_loop]
  split
  · rfl
  · next hs => simp [strchr_eq_none.mpr h] at hs

/-- The loop at an entry before the last. -/
theorem is_uri_in_list_loop_next {entry : Bytes} (h : chr ' ' ∉ entry) (origin rest : Bytes)
    (size : ℕ) :
    is_uri_in_list_loop origin (entry ++ chr ' ' :: rest) size =
      (grow_candidate size entry.length >>= fun size' => match size' with
        | none => pure false
        | some size' =>
          if entry_matches origin entry then pure true
          else is_uri_in_list_loop origin rest size') := by
  rw [is_uri_in_list_loop]
  split
  · next hs => simp [strchr_append h] at hs
  · next space hs =>
    rw [strchr_append h, Option.some.injEq] at hs
    subst hs
    have hlength : (entry ++ chr ' ' :: rest).length - (chr ' ' :: rest).length = entry.length := by
      rw [List.length_append, Nat.add_sub_cancel]
    rw [hlength]
    refine congrArg (grow_candidate size entry.length >>= ·) (funext fun size' => ?_)
    cases size' with
    | none => rfl
    | some size' =>
      exact congrArg (fun copy => if entry_matches origin copy then pure true
        else is_uri_in_list_loop origin rest size') List.take_left

/-- The loop accepts only through an entry that matches, whatever the supply. -/
theorem is_uri_in_list_loop_sound {origin : Bytes} (scan : Bytes) (size : ℕ)
    {supply supply' : Supply} {e : List Empty}
    (h : is_uri_in_list_loop origin scan size supply = some (true, e, supply')) :
    ∃ entry ∈ entries scan, entry_matches origin entry = true := by
  -- On the length of what is left to scan, which is the shorter by an entry and a blank each time.
  induction hn : scan.length using Nat.strong_induction_on generalizing scan size supply e with
  | _ n ih =>
    cases hs : strchr scan (chr ' ') with
    | none =>
      have hs' := strchr_eq_none.mp hs
      rw [is_uri_in_list_loop_last hs'] at h
      simp only [Program.pure_apply, Option.some.injEq, Prod.mk.injEq] at h
      rw [entries_last hs']
      exact ⟨scan, List.mem_singleton_self _, h.1⟩
    | some space =>
      obtain ⟨entry, rest, rfl, hentry, rfl⟩ := strchr_eq_some.mp hs
      rw [is_uri_in_list_loop_next hentry] at h
      rw [entries_next hentry]
      obtain ⟨size', e₁, t, e₂, -, h, -⟩ := Program.bind_eq_some.mp h
      cases size' with
      | none => simp at h
      | some size' =>
        simp only at h
        split_ifs at h with hm
        · exact ⟨entry, List.mem_cons_self .., hm⟩
        · obtain ⟨t, ht, hm⟩ := ih rest.length (by simp at hn; omega) rest size' h rfl
          exact ⟨t, List.mem_cons_of_mem _ ht, hm⟩

/-- With memory there is a buffer for each entry. -/
theorem grow_candidate_plenty (size n : ℕ) :
    ∃ size', grow_candidate size n plenty = some (some size', [], plenty) := by
  unfold grow_candidate
  split_ifs
  · exact ⟨n + 1, rfl⟩
  · exact ⟨size, rfl⟩

/-- With memory for its buffer, the loop finds every entry that matches. -/
theorem is_uri_in_list_loop_plenty (origin scan : Bytes) (size : ℕ) :
    is_uri_in_list_loop origin scan size plenty =
      some ((entries scan).any (entry_matches origin), [], plenty) := by
  induction hn : scan.length using Nat.strong_induction_on generalizing scan size with
  | _ n ih =>
    cases hs : strchr scan (chr ' ') with
    | none =>
      have hs' := strchr_eq_none.mp hs
      rw [is_uri_in_list_loop_last hs', entries_last hs']
      simp
    | some space =>
      obtain ⟨entry, rest, rfl, hentry, rfl⟩ := strchr_eq_some.mp hs
      obtain ⟨size', hgrow⟩ := grow_candidate_plenty size entry.length
      rw [is_uri_in_list_loop_next hentry, entries_next hentry, Program.bind_of_some hgrow]
      simp only [List.any_cons]
      split_ifs with hm
      · simp [hm]
      · rw [ih rest.length (by simp at hn; omega) rest size' rfl]
        simp [hm]

/-- `is_uri_in_list` accepts only through an entry of the list that matches. -/
theorem is_uri_in_list_accepts {origin list : Bytes} {supply supply' : Supply} {e : List Empty}
    (h : is_uri_in_list origin list supply = some (true, e, supply')) :
    ∃ entry ∈ entries list, entry_matches origin entry = true := by
  unfold is_uri_in_list at h
  obtain ⟨granted, e₁, t, e₂, -, h, -⟩ := Program.bind_eq_some.mp h
  cases granted with
  | false => simp at h
  | true => exact is_uri_in_list_loop_sound list 257 h

/-- With memory, `is_uri_in_list` is the search for an entry that matches. -/
theorem is_uri_in_list_plenty (origin list : Bytes) :
    is_uri_in_list origin list plenty =
      some ((entries list).any (entry_matches origin), [], plenty) := by
  unfold is_uri_in_list
  rw [Program.bind_of_some request_plenty]
  simp only [if_true]
  rw [is_uri_in_list_loop_plenty]
  simp

/-- **The list is sound.** An origin that `is_uri_in_list` accepts is justified by an entry. -/
theorem is_uri_in_list_sound {origin list : Bytes} (hmem : origin.length + list.length < 2 ^ 64)
    {supply supply' : Supply} {e : List Empty}
    (h : is_uri_in_list origin list supply = some (true, e, supply')) :
    ∃ entry ∈ entries list, Justifies entry origin := by
  obtain ⟨entry, hentry, hm⟩ := is_uri_in_list_accepts h
  have hle : entry.length ≤ list.length := length_le_of_mem_splitOn hentry
  exact ⟨entry, hentry, entry_matches_sound (by omega) hm⟩

/-- A subdomain of a wildcard entry behind another entry of the list. -/
theorem is_uri_in_list_sound_youtube :
    ∃ entry ∈ entries (bytes "https://youtube.com https://*.youtube.com package:*"),
      Justifies entry (bytes "https://www.youtube.com") :=
  is_uri_in_list_sound (by decide) (show is_uri_in_list _ _ plenty = some (true, [], plenty) from
    is_uri_in_list_plenty _ _)

/-! ## Wildcard entries -/

/-- The list accepts an origin, when memory is not short. -/
def Accepts (list origin : Bytes) : Prop :=
  is_uri_in_list origin list plenty = some (true, [], plenty)

/-- An entry of the list other than `entry` matches the origin. -/
def OtherEntryMatches (list entry origin : Bytes) : Prop :=
  ∃ other ∈ entries list, other ≠ entry ∧ entry_matches origin other = true

/-- A host with an optional port. -/
def with_port (host : Bytes) : Option Bytes → Bytes
  | none => host
  | some port => host ++ chr ':' :: port

/-- `https://` and a host with an optional port. -/
def https_uri (host : Bytes) (port : Option Bytes) : Bytes := gHttpsProto ++ with_port host port

/-- The host `L.D` of a subdomain. -/
def subdomain_host (subdomain domain : Bytes) : Bytes := subdomain ++ bytes "." ++ domain

/-- The host `*.D` of a wildcard entry. -/
def wildcard_host (domain : Bytes) : Bytes := bytes "*." ++ domain

/-- The list accepts what one of its entries matches. -/
theorem accepts_iff {list origin : Bytes} :
    Accepts list origin ↔ ∃ entry ∈ entries list, entry_matches origin entry = true := by
  unfold Accepts
  rw [is_uri_in_list_plenty]
  simp

/-- When a given entry matches exactly under `c`, the list accepts exactly under `c` or through
another entry. -/
theorem accepts_iff_of_entry {list entry origin : Bytes} {c : Prop} (hmem : entry ∈ entries list)
    (hmatch : entry_matches origin entry = true ↔ c) :
    Accepts list origin ↔ c ∨ OtherEntryMatches list entry origin := by
  rw [accepts_iff, ← hmatch]
  constructor
  · rintro ⟨other, hother, hm⟩
    by_cases heq : other = entry
    · exact .inl (heq ▸ hm)
    · exact .inr ⟨other, hother, heq, hm⟩
  · rintro (hm | ⟨other, hother, -, hm⟩)
    · exact ⟨entry, hmem, hm⟩
    · exact ⟨other, hother, hm⟩

/-- A wildcard matches what stands behind exactly one label. -/
theorem partsMatch_wildcard {subdomain rest : Bytes} (hs : subdomain ≠ []) (hr : rest ≠ []) :
    PartsMatch (subdomain_host subdomain rest) (wildcard_host rest) ↔ chr '.' ∉ subdomain := by
  have hlen : 0 < rest.length := List.length_pos_of_ne_nil hr
  have hw : bytes "*." <+: wildcard_host rest ∧ 2 < (wildcard_host rest).length := by
    refine ⟨List.prefix_append .., ?_⟩
    rw [wildcard_host, List.length_append, show (bytes "*.").length = 2 from rfl]
    omega
  have hdrop : (wildcard_host rest).drop 1 = bytes "." ++ rest := rfl
  unfold PartsMatch
  rw [if_pos hw, hdrop, subdomain_host, List.append_assoc]
  constructor
  · rintro ⟨-, -, label, -, hlabel, heq⟩
    rw [List.append_cancel_right heq]
    exact hlabel
  · intro h
    exact ⟨by simp [hs], by simp [wildcard_host, hr], subdomain, hs, h, rfl⟩

/-- A host without a colon and its port are what `split_port` finds. -/
theorem split_port_with_port {host : Bytes} {port : Option Bytes} (hh : chr ':' ∉ host)
    (hp : ∀ p, port = some p → chr ':' ∉ p) : split_port (with_port host port) = (host, port) := by
  cases port with
  | none => exact split_port_of_notMem hh
  | some p => exact split_port_append (hp p rfl) host

/-- What the test of an entry compares, for an origin and an entry with `https://`. -/
theorem entry_matches_https {oh h o' h' : Bytes}
    (hmem : (gHttpsProto ++ oh).length + (gHttpsProto ++ h).length < 2 ^ 64)
    (hparts : (oh.take (compared_lengths oh h).1, h.take (compared_lengths oh h).2) = (o', h')) :
    entry_matches (gHttpsProto ++ oh) (gHttpsProto ++ h) = true ↔ PartsMatch o' h' := by
  obtain ⟨rfl, rfl⟩ := Prod.mk.inj hparts
  have hpre : ∀ s, strncmp_eq (gHttpsProto ++ s) gHttpsProto gHttpsProto.length = true :=
    fun s => strncmp_eq_length.mpr (List.prefix_append ..)
  unfold entry_matches
  simp only [hpre, Bool.true_and, Bool.not_true, Bool.false_and, Bool.or_false]
  rw [host_matches_iff hmem]
  simp only [List.prefix_append, true_and, List.drop_left']

/-- A wildcard entry matches an origin below its domain exactly when one label stands before the
domain: without a port in the entry, with the port 443 in it and none in the origin, and with the
same port in both. -/
theorem wildcard_entry_matches {subdomain domain : Bytes} {oport port : Option Bytes}
    (hs : subdomain ≠ []) (hsc : chr ':' ∉ subdomain) (hd : domain ≠ []) (hdc : chr ':' ∉ domain)
    (hop : ∀ p, oport = some p → chr ':' ∉ p)
    (hport : port = none ∨ (port = some (bytes "443") ∧ oport = none) ∨ port = oport)
    (hmem : (https_uri (subdomain_host subdomain domain) oport).length +
      (https_uri (wildcard_host domain) port).length < 2 ^ 64) :
    entry_matches (https_uri (subdomain_host subdomain domain) oport)
      (https_uri (wildcard_host domain) port) = true ↔ chr '.' ∉ subdomain := by
  have hoh : chr ':' ∉ subdomain_host subdomain domain := by
    simp only [subdomain_host, List.append_assoc, List.mem_append, hsc, hdc, or_false, false_or]
    decide
  have hwh : chr ':' ∉ wildcard_host domain := by
    simp only [wildcard_host, List.mem_append, hdc, or_false]
    decide
  have hparts := compared_parts (with_port (subdomain_host subdomain domain) oport)
    (with_port (wildcard_host domain) port)
  rw [split_port_with_port hoh hop] at hparts
  rcases hport with rfl | ⟨rfl, rfl⟩ | rfl
  · rw [split_port_with_port hwh (by simp)] at hparts
    rw [← partsMatch_wildcard hs hd]
    exact entry_matches_https hmem hparts
  · rw [split_port_with_port hwh (by rintro p ⟨⟩; decide)] at hparts
    simp only [and_self, if_true] at hparts
    rw [← partsMatch_wildcard hs hd]
    exact entry_matches_https hmem hparts
  · rw [split_port_with_port hwh hop] at hparts
    cases port with
    | none =>
      rw [← partsMatch_wildcard hs hd]
      exact entry_matches_https hmem hparts
    | some p =>
      -- Both sides are compared with their port, which goes with the domain.
      simp only [reduceCtorEq, and_false, if_false] at hparts
      rw [← partsMatch_wildcard hs (by simp : domain ++ chr ':' :: p ≠ [])]
      refine (entry_matches_https hmem hparts).trans ?_
      simp [with_port, subdomain_host, wildcard_host]

/-- **Wildcard entries accept one label.** For the domain `D` and the subdomain `L`, a list with the
entry `https://*.D` accepts `https://L.D` and `https://L.D:P` exactly when `L` has no dot or other
entries accept them, and a list with `https://*.D:443` accepts `https://L.D` and `https://L.D:443`
exactly under the same condition. -/
theorem wildcard_accepts_iff {subdomain domain port list : Bytes} (hs : subdomain ≠ [])
    (hsc : chr ':' ∉ subdomain) (hd : domain ≠ []) (hdc : chr ':' ∉ domain) (hpc : chr ':' ∉ port)
    (hmem : ∀ p ∈ [none, some port, some (bytes "443")],
      (https_uri (subdomain_host subdomain domain) p).length + list.length < 2 ^ 64) :
    ((https_uri (wildcard_host domain) none ∈ entries list →
        Accepts list (https_uri (subdomain_host subdomain domain) none) ∧
          Accepts list (https_uri (subdomain_host subdomain domain) (some port))) ↔
      (https_uri (wildcard_host domain) none ∈ entries list → chr '.' ∉ subdomain ∨
        ∀ p ∈ [none, some port], OtherEntryMatches list (https_uri (wildcard_host domain) none)
          (https_uri (subdomain_host subdomain domain) p))) ∧
    ((https_uri (wildcard_host domain) (some (bytes "443")) ∈ entries list →
        Accepts list (https_uri (subdomain_host subdomain domain) none) ∧
          Accepts list (https_uri (subdomain_host subdomain domain) (some (bytes "443")))) ↔
      (https_uri (wildcard_host domain) (some (bytes "443")) ∈ entries list → chr '.' ∉ subdomain ∨
        ∀ p ∈ [none, some (bytes "443")],
          OtherEntryMatches list (https_uri (wildcard_host domain) (some (bytes "443")))
            (https_uri (subdomain_host subdomain domain) p))) := by
  have h443 : chr ':' ∉ bytes "443" := by decide
  have key : ∀ {oport port' : Option Bytes}, oport ∈ [none, some port, some (bytes "443")] →
      (port' = none ∨ (port' = some (bytes "443") ∧ oport = none) ∨ port' = oport) →
      https_uri (wildcard_host domain) port' ∈ entries list →
      (Accepts list (https_uri (subdomain_host subdomain domain) oport) ↔
        chr '.' ∉ subdomain ∨ OtherEntryMatches list (https_uri (wildcard_host domain) port')
          (https_uri (subdomain_host subdomain domain) oport)) := by
    intro oport port' hoport hport hentry
    have hle := length_le_of_mem_splitOn hentry
    have := hmem oport hoport
    refine accepts_iff_of_entry hentry
      (wildcard_entry_matches hs hsc hd hdc ?_ hport (by omega))
    simp only [List.mem_cons, List.not_mem_nil, or_false] at hoport
    rcases hoport with rfl | rfl | rfl <;> rintro p ⟨⟩
    · exact hpc
    · exact h443
  constructor
  · refine imp_congr_right fun hentry => ?_
    rw [key (by simp) (.inl rfl) hentry, key (by simp) (.inl rfl) hentry, ← or_and_left]
    simp
  · refine imp_congr_right fun hentry => ?_
    rw [key (by simp) (.inr (.inl ⟨rfl, rfl⟩)) hentry, key (by simp) (.inr (.inr rfl)) hentry,
      ← or_and_left]
    simp

/-- One of the shipped lists and a subdomain of one label. -/
theorem wildcard_accepts_iff_www :
    let list := bytes "https://youtube.com https://*.youtube.com package:*"
    let host := subdomain_host (bytes "www") (bytes "youtube.com")
    Accepts list (https_uri host none) ∧ Accepts list (https_uri host (some (bytes "8443"))) :=
  (@wildcard_accepts_iff (bytes "www") (bytes "youtube.com") (bytes "8443")
    (bytes "https://youtube.com https://*.youtube.com package:*") (by decide) (by decide)
    (by decide) (by decide) (by decide) (by decide)).1.mpr (fun _ => .inl (by decide)) (by decide)

/-- The same list refuses a subdomain of two labels, although its wildcard entry stands for every
subdomain. -/
theorem wildcard_refuses_two_labels :
    let list := bytes "https://youtube.com https://*.youtube.com package:*"
    https_uri (wildcard_host (bytes "youtube.com")) none ∈ entries list ∧
      ¬Accepts list (https_uri (subdomain_host (bytes "a.b") (bytes "youtube.com")) none) := by
  refine ⟨by decide, ?_⟩
  rw [accepts_iff]
  decide

end DialServer
