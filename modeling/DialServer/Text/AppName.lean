import DialServer.Source.UrlLib

/-!
# Application names in URIs

`parse_app_name` on every URI. Its contract asks for the text between the last two slashes, and for
`unknown` when there is no such text; the code returns what stands between the last slash and the
one before it, or the start of the URI. `MeetsContract` says when that is the same. The scan from
the last slash backwards is also followed by its places (`scan_back_at`), none of which is before
the start.
-/

namespace DialServer

open CLib Program

/-! ## The last slashes -/

/-- The backward scan stops at the slash before the name. -/
theorem scan_back_eq {m : Bytes} (h : chr '/' ∉ m) (before passed : Bytes) :
    scan_back (m ++ chr '/' :: before) passed = m.reverse ++ passed := by
  induction m generalizing passed with
  | nil => simp [scan_back]
  | cons c m ih =>
    rw [List.mem_cons, not_or] at h
    simp only [List.cons_append, scan_back, if_neg (Ne.symm h.1), ih h.2, List.reverse_cons,
      List.append_assoc, List.cons_append, List.nil_append]

/-- Without a slash it comes to the start. -/
theorem scan_back_start {m : Bytes} (h : chr '/' ∉ m) (passed : Bytes) :
    scan_back m passed = m.reverse ++ passed := by
  induction m generalizing passed with
  | nil => rfl
  | cons c m ih =>
    rw [List.mem_cons, not_or] at h
    simp only [scan_back, if_neg (Ne.symm h.1), ih h.2, List.reverse_cons, List.append_assoc,
      List.cons_append, List.nil_append]

/-- A text has no slash, or it splits at its last one. -/
theorem last_slash (u : Bytes) :
    chr '/' ∉ u ∨ ∃ before after, u = before ++ chr '/' :: after ∧ chr '/' ∉ after := by
  by_cases h : chr '/' ∈ u
  · obtain ⟨t, ht⟩ : ∃ t, strrchr u (chr '/') = some t :=
      Option.ne_none_iff_exists'.mp fun hnone => strrchr_eq_none.mp hnone h
    obtain ⟨before, after, rfl, hafter, rfl⟩ := strrchr_eq_some.mp ht
    exact .inr ⟨before, after, rfl, hafter⟩
  · exact .inl h

/-- What `parse_app_name` returns, when it has the memory: what stands before the last slash, back
to the slash before it or the start. -/
theorem parse_app_name_slash {before after : Bytes} (hafter : chr '/' ∉ after) (supply : Supply) :
    parse_app_name (some (before ++ chr '/' :: after)) supply =
      some (if supply 0 then
        some (if before = [] then unknown_str else scan_back before.reverse []) else none,
        [], supply.after 1) := by
  have hslash := strrchr_append hafter before
  have hlength : (before ++ chr '/' :: after).length - (chr '/' :: after).length =
      before.length := by
    rw [List.length_append, Nat.add_sub_cancel]
  unfold parse_app_name
  simp only [hslash]
  cases before with
  | nil => cases h : supply 0 <;> simp [bind_apply, request, h]
  | cons c before =>
    rw [if_neg (by simp; omega), hlength, List.take_left]
    cases h : supply 0 <;> simp [bind_apply, request, h]

/-- Without a slash the name is unknown. -/
theorem parse_app_name_unknown {u : Option Bytes} (h : ∀ uri, u = some uri → chr '/' ∉ uri)
    (supply : Supply) :
    parse_app_name u supply =
      some (if supply 0 then some unknown_str else none, [], supply.after 1) := by
  unfold parse_app_name
  cases u with
  | none => cases h0 : supply 0 <;> simp [bind_apply, request, h0]
  | some uri =>
    have hnone : strrchr uri (chr '/') = none := strrchr_eq_none.mpr (h uri rfl)
    simp only [hnone]
    cases h0 : supply 0 <;> simp [bind_apply, request, h0]

/-! ## The contract -/

/-- The URI has two slashes at least, and this text, which is not empty, between the last two. -/
def Between (u : Option Bytes) (n : Bytes) : Prop :=
  n ≠ [] ∧ ∃ p r, u = some (p ++ chr '/' :: n ++ chr '/' :: r) ∧ chr '/' ∉ n ∧ chr '/' ∉ r

/-- The name that the contract asks for. -/
def MeetsContract (u : Option Bytes) (name : Bytes) : Prop :=
  Between u name ∨ ((∀ n, ¬Between u n) ∧ name = unknown_str)

/-- The URIs for which the code does what the contract asks for: there is no text other than
`unknown` in front of the only slash, and the last two slashes are not next to each other. -/
def Parsable (u : Option Bytes) : Prop :=
  (∀ before after, u = some (before ++ chr '/' :: after) → chr '/' ∉ before → chr '/' ∉ after →
      before = [] ∨ before = unknown_str) ∧
    ∀ p r, u = some (p ++ chr '/' :: chr '/' :: r) → chr '/' ∈ r

/-- A text splits at its last slash in one way. -/
theorem last_slash_unique {b a b' a' : Bytes} (ha : chr '/' ∉ a) (ha' : chr '/' ∉ a')
    (h : b ++ chr '/' :: a = b' ++ chr '/' :: a') : b = b' ∧ a = a' := by
  have hsome : some (chr '/' :: a) = some (chr '/' :: a') := by
    rw [← strrchr_append ha b, h, strrchr_append ha' b']
  have heq : a = a' := by simpa using hsome
  subst heq
  exact ⟨List.append_cancel_right h, rfl⟩

/-- A name that a URI without a slash cannot have. -/
theorem not_between_of_notMem {u : Option Bytes} (h : ∀ uri, u = some uri → chr '/' ∉ uri)
    (n : Bytes) : ¬Between u n := by
  rintro ⟨-, p, r, rfl, -, -⟩
  exact h _ rfl (by simp)

/-- Behind the last slash but one a text stands between the last two, if it is not empty. -/
theorem between_iff {p m r n : Bytes} (hm : chr '/' ∉ m) (hr : chr '/' ∉ r) :
    Between (some (p ++ chr '/' :: m ++ chr '/' :: r)) n ↔ n = m ∧ m ≠ [] := by
  constructor
  · rintro ⟨hne, p', r', h, hn, hr'⟩
    obtain ⟨hbefore, -⟩ := last_slash_unique hr hr' (Option.some.inj h)
    obtain ⟨-, rfl⟩ := last_slash_unique hm hn hbefore
    exact ⟨rfl, hne⟩
  · rintro ⟨rfl, hne⟩
    exact ⟨hne, p, r, rfl, hm, hr⟩

/-- With one slash there is nothing between slashes. -/
theorem not_between_of_one {before after : Bytes} (hbefore : chr '/' ∉ before)
    (hafter : chr '/' ∉ after) (n : Bytes) : ¬Between (some (before ++ chr '/' :: after)) n := by
  rintro ⟨-, p, r, h, -, hr⟩
  obtain ⟨rfl, -⟩ := last_slash_unique hafter hr (Option.some.inj h)
  exact hbefore (by simp)

/-- The name that the code returns meets the contract if and only if the URI is parsable. -/
theorem meetsContract_iff (u : Option Bytes) (supply : Supply) (hmemory : supply 0 = true) :
    ∃ name, parse_app_name u supply = some (some name, [], supply.after 1) ∧
      (MeetsContract u name ↔ Parsable u) := by
  have hunknown (h : ∀ uri, u = some uri → chr '/' ∉ uri) : ∃ name,
      parse_app_name u supply = some (some name, [], supply.after 1) ∧
        (MeetsContract u name ↔ Parsable u) := by
    refine ⟨unknown_str, by rw [parse_app_name_unknown h, hmemory]; rfl, iff_of_true ?_ ?_⟩
    · exact .inr ⟨not_between_of_notMem h, rfl⟩
    · exact ⟨fun before after heq => absurd (h _ heq) (by simp),
        fun p r heq => absurd (h _ heq) (by simp)⟩
  cases u with
  | none => exact hunknown (by simp)
  | some uri =>
    rcases last_slash uri with hnone | ⟨before, after, rfl, hafter⟩
    · exact hunknown fun _ h => Option.some.inj h ▸ hnone
    refine ⟨_, by rw [parse_app_name_slash hafter, hmemory, if_pos rfl], ?_⟩
    rcases last_slash before with hone | ⟨p, m, rfl, hm⟩
    · -- One slash: the code takes what stands before it for a name.
      have hback : scan_back before.reverse [] = before := by
        rw [scan_back_start (by simpa using hone), List.reverse_reverse, List.append_nil]
      have hnot := not_between_of_one hone hafter
      have hparsable : Parsable (some (before ++ chr '/' :: after)) ↔
          before = [] ∨ before = unknown_str := by
        constructor
        · exact fun h => h.1 before after rfl hone hafter
        · refine fun h => ⟨fun b a heq hb ha => ?_, fun p r heq => ?_⟩
          · obtain ⟨rfl, -⟩ := last_slash_unique hafter ha (Option.some.inj heq)
            exact h
          · by_contra hr
            have heq' : before ++ chr '/' :: after = (p ++ [chr '/']) ++ chr '/' :: r := by
              simpa using Option.some.inj heq
            obtain ⟨rfl, -⟩ := last_slash_unique hafter hr heq'
            exact hone (by simp)
      rw [hback, hparsable, MeetsContract]
      by_cases hempty : before = []
      · subst hempty
        exact iff_of_true (.inr ⟨hnot, rfl⟩) (.inl rfl)
      · simp [hempty, hnot]
    · -- Two slashes: what is between the last two is the name, also when it is empty.
      have hback : scan_back (p ++ chr '/' :: m).reverse [] = m := by
        have hrev : (p ++ chr '/' :: m).reverse = m.reverse ++ chr '/' :: p.reverse := by simp
        rw [hrev, scan_back_eq (by simpa using hm), List.reverse_reverse, List.append_nil]
      have hparsable : Parsable (some (p ++ chr '/' :: m ++ chr '/' :: after)) ↔ m ≠ [] := by
        constructor
        · rintro ⟨-, htwo⟩ rfl
          exact hafter (htwo p after (by simp))
        · refine fun hne => ⟨fun b a heq hb ha => ?_, fun p' r heq => ?_⟩
          · obtain ⟨rfl, -⟩ := last_slash_unique hafter ha (Option.some.inj heq)
            exact absurd (by simp) hb
          · by_contra hr
            have heq' : p ++ chr '/' :: m ++ chr '/' :: after =
                (p' ++ [chr '/']) ++ chr '/' :: r := by
              simpa using Option.some.inj heq
            obtain ⟨hbefore, -⟩ := last_slash_unique hafter hr heq'
            obtain ⟨-, rfl⟩ := last_slash_unique hm (List.not_mem_nil) hbefore
            exact hne rfl
      rw [if_neg (by simp), hback, hparsable, MeetsContract]
      simp only [between_iff hm hafter, true_and]
      by_cases hempty : m = []
      · subst hempty
        simp [unknown_str]
        decide
      · simp [hempty]

/-! ## Places -/

/-- A read of a string at a place, which may be on either side of it. -/
def read_at (s : Bytes) (i : ℤ) : Option UInt8 := if i < 0 then none else char_at s i.toNat

/-- A read of the character behind a part of the string. -/
theorem read_at_append (p : Bytes) (c : UInt8) (rest : Bytes) :
    read_at (p ++ c :: rest) p.length = some c := by
  unfold read_at
  rw [if_neg (by omega), Int.toNat_natCast]
  have hdrop : (p ++ c :: rest).drop p.length = c :: rest := List.drop_left
  exact (char_at_drop hdrop).1

/-- The loop of `parse_app_name` with `begin` at a place, `none` when it reads outside of the
string. -/
def scan_back_at (uri : Bytes) : ℕ → ℤ → Option ℤ
  | 0, _ => none
  | fuel + 1, start =>
    if start = 0 then some start
    else
      (read_at uri (start - 1)).bind fun c =>
        if c = chr '/' then some (start - 1) else scan_back_at uri fuel (start - 1)

/-- One round of the loop, over the character in front of its place. -/
theorem scan_back_at_snoc (p : Bytes) (c : UInt8) (rest : Bytes) (fuel : ℕ) :
    scan_back_at (p ++ c :: rest) (fuel + 1) (p.length + 1) =
      if c = chr '/' then some ↑p.length else scan_back_at (p ++ c :: rest) fuel p.length := by
  rw [scan_back_at, if_neg (by omega), add_sub_cancel_right, read_at_append]
  rfl

/-- The loop comes to the last slash in front of its place. -/
theorem scan_back_at_slash {p m : Bytes} (hm : chr '/' ∉ m) (rest : Bytes) {fuel : ℕ}
    (hfuel : m.length < fuel) :
    scan_back_at (p ++ chr '/' :: m ++ rest) fuel (p ++ chr '/' :: m).length = some ↑p.length := by
  obtain ⟨fuel, rfl⟩ : ∃ n, fuel = n + 1 := ⟨fuel - 1, by omega⟩
  induction m using List.reverseRecOn generalizing rest fuel with
  | nil =>
    have h := scan_back_at_snoc p (chr '/') rest fuel
    simpa using h
  | append_singleton m c ih =>
    rw [List.length_append, List.length_singleton] at hfuel
    have hc : c ≠ chr '/' := fun h => hm (by simp [h])
    have h := scan_back_at_snoc (p ++ chr '/' :: m) c rest fuel
    obtain ⟨fuel, rfl⟩ : ∃ n, fuel = n + 1 := ⟨fuel - 1, by omega⟩
    rw [if_neg hc, ih (fun h => hm (by simp [h])) (c :: rest) fuel (by omega)] at h
    simpa [add_assoc] using h

/-- Without a slash it comes to the start. -/
theorem scan_back_at_start {m : Bytes} (hm : chr '/' ∉ m) (rest : Bytes) {fuel : ℕ}
    (hfuel : m.length < fuel) : scan_back_at (m ++ rest) fuel m.length = some 0 := by
  obtain ⟨fuel, rfl⟩ : ∃ n, fuel = n + 1 := ⟨fuel - 1, by omega⟩
  induction m using List.reverseRecOn generalizing rest fuel with
  | nil => simp [scan_back_at]
  | append_singleton m c ih =>
    rw [List.length_append, List.length_singleton] at hfuel
    have hc : c ≠ chr '/' := fun h => hm (by simp [h])
    have h := scan_back_at_snoc m c rest fuel
    obtain ⟨fuel, rfl⟩ : ∃ n, fuel = n + 1 := ⟨fuel - 1, by omega⟩
    rw [if_neg hc, ih (fun h => hm (by simp [h])) (c :: rest) fuel (by omega)] at h
    simpa using h

/-- The name in front of a slash at a place, by the places that are read for it. -/
def name_at (uri : Bytes) (slash : ℕ) : Option Bytes :=
  (scan_back_at uri (slash + 1) slash).bind fun start =>
    (read_at uri start).map fun c =>
      -- The slash that the loop has stopped at is skipped.
      let start := (if c = chr '/' then start + 1 else start).toNat
      (uri.drop start).take (slash - start)

/-- No place outside of the string is read, and the name is the one that `scan_back` gives. -/
theorem name_at_eq {before : Bytes} (hne : before ≠ []) (after : Bytes) :
    name_at (before ++ chr '/' :: after) before.length =
      some (scan_back before.reverse []) := by
  rcases last_slash before with hnone | ⟨p, m, rfl, hm⟩
  · obtain ⟨c, rest, rfl⟩ := List.exists_cons_of_ne_nil hne
    have hc : c ≠ chr '/' := fun h => hnone (by simp [h])
    have hread : read_at (c :: rest ++ chr '/' :: after) 0 = some c :=
      read_at_append [] c (rest ++ chr '/' :: after)
    unfold name_at
    rw [scan_back_at_start hnone _ (Nat.lt_succ_self _), Option.bind_some, hread,
      scan_back_start (fun h => hnone (List.mem_reverse.mp h))]
    simp [hc]
  · have hrev : (p ++ chr '/' :: m).reverse = m.reverse ++ chr '/' :: p.reverse := by simp
    have hread : read_at (p ++ chr '/' :: m ++ chr '/' :: after) p.length = some (chr '/') := by
      rw [List.append_assoc]
      exact read_at_append p (chr '/') (m ++ chr '/' :: after)
    unfold name_at
    rw [scan_back_at_slash hm _ (by simp; omega), Option.bind_some, hread, hrev,
      scan_back_eq (fun h => hm (List.mem_reverse.mp h))]
    have hstart : ((p.length : ℤ) + 1).toNat = (p ++ [chr '/']).length := by simp
    have hname : p ++ chr '/' :: m ++ chr '/' :: after =
        (p ++ [chr '/']) ++ (m ++ chr '/' :: after) := by simp
    have hlength : (p ++ chr '/' :: m).length - (p ++ [chr '/']).length = m.length := by
      simp only [List.length_append, List.length_cons, List.length_nil]
      omega
    simp only [Option.map_some, if_true, hstart, hlength, hname]
    rw [List.drop_left, List.take_left, List.reverse_reverse, List.append_nil]

/-- **The contract of `parse_app_name`.** With memory it returns a name for every URI and for none,
and that meets the contract if and only if the URI is parsable; the scan that finds it reads no
place outside of the URI. -/
theorem parse_app_name_contract_iff (u : Option Bytes) {supply : Supply}
    (hmemory : supply 0 = true) :
    (∃ name, parse_app_name u supply = some (some name, [], supply.after 1) ∧
        (MeetsContract u name ↔ Parsable u)) ∧
      ∀ before after, u = some (before ++ chr '/' :: after) → chr '/' ∉ after → before ≠ [] →
        name_at (before ++ chr '/' :: after) before.length = some (scan_back before.reverse []) :=
  ⟨meetsContract_iff u supply hmemory, fun _ after _ _ hne => name_at_eq hne after⟩

/-- The resource of the dial data of YouTube. -/
theorem parse_app_name_youtube :
    parse_app_name (some (bytes "/apps/YouTube/dial_data")) plenty =
        some (some (bytes "YouTube"), [], plenty) ∧
      MeetsContract (some (bytes "/apps/YouTube/dial_data")) (bytes "YouTube") := by
  have hrun : parse_app_name (some (bytes "/apps/YouTube/dial_data")) plenty =
      some (some (bytes "YouTube"), [], plenty) := by
    rfl
  have hsplit : bytes "/apps/YouTube/dial_data" =
      bytes "/apps" ++ chr '/' :: bytes "YouTube" ++ chr '/' :: bytes "dial_data" := by
    rfl
  obtain ⟨name, hname, hiff⟩ :=
    (@parse_app_name_contract_iff (some (bytes "/apps/YouTube/dial_data")) plenty rfl).1
  obtain ⟨rfl, -⟩ : bytes "YouTube" = name ∧ plenty = plenty.after 1 := by
    simpa using hrun.symm.trans hname
  refine ⟨hrun, .inl ⟨by decide, bytes "/apps", bytes "dial_data", ?_, by decide, by decide⟩⟩
  rw [hsplit]

/-- With one slash what stands before it is taken for a name, and between two slashes next to each
other the name is empty. -/
theorem parse_app_name_not_unknown :
    (parse_app_name (some (bytes "YouTube/dial_data")) plenty =
        some (some (bytes "YouTube"), [], plenty) ∧
      ¬MeetsContract (some (bytes "YouTube/dial_data")) (bytes "YouTube")) ∧
    (parse_app_name (some (bytes "/apps//dial_data")) plenty = some (some [], [], plenty) ∧
      ¬MeetsContract (some (bytes "/apps//dial_data")) []) := by
  have hone : bytes "YouTube/dial_data" = bytes "YouTube" ++ chr '/' :: bytes "dial_data" := rfl
  refine ⟨⟨rfl, ?_⟩, rfl, ?_⟩
  · rintro (hbetween | ⟨-, hunknown⟩)
    · rw [hone] at hbetween
      exact not_between_of_one (by decide) (by decide) _ hbetween
    · exact absurd hunknown (by decide)
  · rintro (⟨hne, -⟩ | ⟨-, hunknown⟩)
    · exact hne rfl
    · exact absurd hunknown (by decide)

end DialServer
