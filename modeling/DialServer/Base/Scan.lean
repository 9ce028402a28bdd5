import DialServer.Base.CString

/-!
# Conversions of `scanf` and `printf`

The conversions `%s` with and without a width, `%[...]` and `%.*s`, on the characters that are left
to read. A conversion that fails is `none`; one that succeeds returns what it stored and the rest of
the input.
-/

namespace CLib

/-- `%<limit>s`, without a limit for `none`: skip white space, then read at least one and at most
`limit` characters up to the next white space. -/
def scan_s (limit : Option ℕ) (input : Bytes) : Option (Bytes × Bytes) :=
  let s := input.dropWhile isspace
  if s = [] then none
  else
    let word := s.takeWhile (fun c => !isspace c)
    let word := match limit with
      | none => word
      | some n => word.take n
    some (word, s.drop word.length)

/-- `%[set]`: the longest non-empty run of characters of the set, without skipping white space. -/
def scan_set (set : UInt8 → Bool) (input : Bytes) : Option (Bytes × Bytes) :=
  let run := input.takeWhile set
  if run = [] then none else some (run, input.drop run.length)

/-- `%.*s`: at most `precision` characters. -/
def print_s (precision : ℕ) (s : Bytes) : Bytes := s.take precision

/-- White space before a `%s` does not matter. -/
theorem scan_s_cons_space {c : UInt8} (h : isspace c = true) (limit : Option ℕ) (s : Bytes) :
    scan_s limit (c :: s) = scan_s limit s := by
  simp [scan_s, h]

/-- A `%s` at the end of the input fails. -/
@[simp] theorem scan_s_nil (limit : Option ℕ) : scan_s limit [] = none := by
  simp [scan_s]

/-- A word that fits the limit is read whole, up to the white space or the end after it. -/
theorem scan_s_word {w rest : Bytes} {limit : Option ℕ} (hw : w ≠ [])
    (hns : ∀ c ∈ w, isspace c = false) (hlim : ∀ n, limit = some n → w.length ≤ n)
    (hrest : ∀ c r, rest = c :: r → isspace c = true) :
    scan_s limit (w ++ rest) = some (w, rest) := by
  have hdrop : (w ++ rest).dropWhile isspace = w ++ rest := by
    cases w with
    | nil => exact absurd rfl hw
    | cons c w => simp [hns c (by simp)]
  have htake : (w ++ rest).takeWhile (fun c => !isspace c) = w := by
    rw [List.takeWhile_append_of_pos (by simpa using hns)]
    -- The word ends where the input ends, or at white space.
    cases rest with
    | nil => simp
    | cons c r => simp [hrest c r rfl]
  have hne : w ++ rest ≠ [] := by simp [hw]
  unfold scan_s
  simp only [hdrop, htake, hne, if_false]
  cases limit with
  | none => simp
  | some n => simp [List.take_of_length_le (hlim n rfl)]

/-- A `%s` that succeeds: behind the white space stands what it stored and then the rest. It stored
no white space, no more than the limit, and something unless the limit is zero. -/
theorem scan_s_eq_some {limit : Option ℕ} {s w rest : Bytes} (h : scan_s limit s = some (w, rest)) :
    s.dropWhile isspace = w ++ rest ∧ (∀ c ∈ w, isspace c = false) ∧
      (∀ n, limit = some n → w.length ≤ n) ∧ (limit ≠ some 0 → w ≠ []) := by
  unfold scan_s at h
  simp only at h
  split_ifs at h with hs
  simp only [Option.some.injEq, Prod.mk.injEq] at h
  obtain ⟨rfl, rfl⟩ := h
  have hall : ∀ c ∈ (s.dropWhile isspace).takeWhile (fun c => !isspace c), isspace c = false := by
    intro c hc
    simpa using List.mem_takeWhile_imp hc
  have hsplit : ∀ w, w <+: (s.dropWhile isspace).takeWhile (fun c => !isspace c) →
      s.dropWhile isspace = w ++ (s.dropWhile isspace).drop w.length := fun w hw =>
    (List.prefix_iff_eq_append.mp (hw.trans (List.takeWhile_prefix _))).symm
  have hne : (s.dropWhile isspace).takeWhile (fun c => !isspace c) ≠ [] := by
    -- The first character behind the white space is none itself.
    have hhead := List.head_dropWhile_not isspace (l := s) hs
    obtain ⟨c, t, hd⟩ := List.exists_cons_of_ne_nil hs
    simp only [hd, List.head_cons] at hhead ⊢
    simp [hhead]
  cases limit with
  | none => exact ⟨hsplit _ (List.prefix_refl _), hall, by simp, fun _ => hne⟩
  | some n =>
    refine ⟨hsplit _ (List.take_prefix _ _), fun c hc => hall c (List.mem_of_mem_take hc), ?_, ?_⟩
    · rintro m ⟨⟩
      exact List.length_take_le _ _
    · intro hpos
      rw [Ne, List.take_eq_nil_iff, not_or]
      exact ⟨fun hn => hpos (congrArg some hn), hne⟩

/-- What a `%s` stores is free of white space and within the limit. -/
theorem scan_s_stored {limit : Option ℕ} {s w rest : Bytes} (h : scan_s limit s = some (w, rest)) :
    (∀ c ∈ w, isspace c = false) ∧ ∀ n, limit = some n → w.length ≤ n :=
  ⟨(scan_s_eq_some h).2.1, (scan_s_eq_some h).2.2.1⟩

/-- What a `%s` stores is a part of the input. -/
theorem scan_s_sublist {limit : Option ℕ} {s w rest : Bytes} (h : scan_s limit s = some (w, rest)) :
    w.Sublist s := by
  have hdrop := List.dropWhile_sublist isspace (l := s)
  rw [(scan_s_eq_some h).1] at hdrop
  exact (List.sublist_append_left w rest).trans hdrop

/-- A `%s` without a limit that succeeds stores something. -/
theorem scan_s_ne_nil {s w rest : Bytes} (h : scan_s none s = some (w, rest)) : w ≠ [] :=
  (scan_s_eq_some h).2.2.2 (by simp)

/-- A `%s` that succeeds with a positive limit consumes something. -/
theorem scan_s_length_lt {limit : Option ℕ} {s w rest : Bytes} (h : scan_s limit s = some (w, rest))
    (hpos : limit ≠ some 0) : rest.length < s.length := by
  obtain ⟨hsplit, -, -, hne⟩ := scan_s_eq_some h
  have hw : 0 < w.length := List.length_pos_of_ne_nil (hne hpos)
  calc rest.length < (w ++ rest).length := by rw [List.length_append]; omega
    _ = (s.dropWhile isspace).length := by rw [hsplit]
    _ ≤ s.length := (List.dropWhile_sublist _).length_le

/-- What a `%[...]` stores is the start of the input, up to a character outside the set. -/
theorem scan_set_eq_some {set : UInt8 → Bool} {s run rest : Bytes}
    (h : scan_set set s = some (run, rest)) :
    s = run ++ rest ∧ run ≠ [] ∧ ∀ c ∈ run, set c = true := by
  unfold scan_set at h
  simp only at h
  split_ifs at h with hrun
  simp only [Option.some.injEq, Prod.mk.injEq] at h
  obtain ⟨rfl, rfl⟩ := h
  exact ⟨(List.prefix_iff_eq_append.mp (List.takeWhile_prefix set)).symm, hrun,
    fun c hc => List.mem_takeWhile_imp hc⟩

/-- A run of the set is read whole, up to the character outside the set or the end after it. -/
theorem scan_set_run {set : UInt8 → Bool} {run rest : Bytes} (hne : run ≠ [])
    (hrun : ∀ c ∈ run, set c = true) (hrest : ∀ c r, rest = c :: r → set c = false) :
    scan_set set (run ++ rest) = some (run, rest) := by
  have htake : (run ++ rest).takeWhile set = run := by
    rw [List.takeWhile_append_of_pos hrun]
    cases rest with
    | nil => simp
    | cons c r => simp [hrest c r rfl]
  simp [scan_set, htake, hne]

end CLib
