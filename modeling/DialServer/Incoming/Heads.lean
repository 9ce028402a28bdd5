import DialServer.Source.Incoming

/-!
# The head of a request

Where the head of a request ends: behind the first empty line. `get_request_len` finds this place,
and `read_request` reads until it has found it. A control character that it has seen before makes
it give up, which it does when a segment ends between the two; in a segment that has both it goes
on to the empty line.
-/

namespace DialServer

open CLib

/-! ## The end of the head -/

/-- The length of a text up to its first empty line, if it has one. -/
def head_length : Bytes → Option ℕ
  | [] => none
  | c :: s =>
    if bytes "\n\n" <+: c :: s then some 2
    else if bytes "\n\r\n" <+: c :: s then some 3
    else (head_length s).map (· + 1)

/-- No control character is seen in a text, of which the last character is not looked at. -/
def Clean (s : Bytes) : Prop := ∀ c ∈ s.dropLast, is_control c = false

instance (s : Bytes) : Decidable (Clean s) := inferInstanceAs (Decidable (∀ c ∈ s.dropLast, _))

/-- The head lies in the text. -/
theorem head_length_le {s : Bytes} {n : ℕ} (h : head_length s = some n) :
    2 ≤ n ∧ n ≤ s.length := by
  induction s generalizing n with
  | nil => cases h
  | cons c s ih =>
    unfold head_length at h
    split_ifs at h with h₂ h₃
    · cases h
      exact ⟨le_rfl, h₂.length_le⟩
    · cases h
      exact ⟨by decide, h₃.length_le⟩
    · obtain ⟨m, hm, rfl⟩ := Option.map_eq_some_iff.mp h
      obtain ⟨hle, hlength⟩ := ih hm
      rw [List.length_cons]
      omega

/-- A text that is long enough begins as a longer one does. -/
theorem prefix_append_iff {p s : Bytes} (h : p.length ≤ s.length) (t : Bytes) :
    p <+: s ++ t ↔ p <+: s :=
  ⟨fun hp => List.prefix_of_prefix_length_le hp (List.prefix_append s t) h,
    fun hp => hp.trans (List.prefix_append s t)⟩

/-- More characters do not change where the head ends. -/
theorem head_length_append {s : Bytes} {n : ℕ} (h : head_length s = some n) (t : Bytes) :
    head_length (s ++ t) = some n := by
  induction s generalizing n with
  | nil => cases h
  | cons c s ih =>
    unfold head_length at h
    rw [List.cons_append]
    unfold head_length
    rw [← List.cons_append]
    split_ifs at h with h₂ h₃
    · cases h
      rw [if_pos (h₂.trans (List.prefix_append ..))]
    · cases h
      rw [if_neg, if_pos (h₃.trans (List.prefix_append ..))]
      rwa [prefix_append_iff (h₃.length_le.trans' (by decide))]
    · obtain ⟨m, hm, rfl⟩ := Option.map_eq_some_iff.mp h
      have hlength : 3 ≤ (c :: s).length := by
        have := head_length_le hm
        rw [List.length_cons]
        omega
      rw [if_neg, if_neg, ih hm]
      · rfl
      · rw [prefix_append_iff (p := bytes "\n\r\n") hlength]
        exact h₃
      · rw [prefix_append_iff (p := bytes "\n\n") (hlength.trans' (by decide))]
        exact h₂

/-- The part of a text that holds its head has the same head. -/
theorem head_length_take {s : Bytes} {n : ℕ} (h : head_length s = some n) {m : ℕ}
    (hm : head_length (s.take m) ≠ none) : head_length (s.take m) = some n := by
  obtain ⟨k, hk⟩ := Option.ne_none_iff_exists'.mp hm
  have := head_length_append hk (s.drop m)
  rw [List.take_append_drop, h] at this
  rw [hk, this]

/-- The head ends in every part of a text that reaches there. -/
theorem head_length_take_of_le {s : Bytes} {n : ℕ} (h : head_length s = some n) {m : ℕ}
    (hm : n ≤ m) : head_length (s.take m) = some n := by
  induction s generalizing n m with
  | nil => cases h
  | cons c s ih =>
    have hpos := (head_length_le h).1
    obtain ⟨m, rfl⟩ : ∃ k, m = k + 1 := ⟨m - 1, by omega⟩
    unfold head_length at h
    rw [List.take_succ_cons]
    unfold head_length
    rw [← List.take_succ_cons]
    split_ifs at h with h₂ h₃
    · cases h
      rw [if_pos (List.prefix_take_iff.mpr ⟨h₂, hm⟩)]
    · cases h
      rw [if_neg fun h => h₂ (List.prefix_take_iff.mp h).1,
        if_pos (List.prefix_take_iff.mpr ⟨h₃, hm⟩)]
    · obtain ⟨k, hk, rfl⟩ := Option.map_eq_some_iff.mp h
      rw [if_neg fun h => h₂ (List.prefix_take_iff.mp h).1,
        if_neg fun h => h₃ (List.prefix_take_iff.mp h).1, ih hk (by omega)]
      rfl

/-! ## `get_request_len` -/

/-- Two line feeds. -/
theorem begins_lf_lf {c : UInt8} {s : Bytes} :
    bytes "\n\n" <+: c :: s ↔ c = chr '\n' ∧ s.head? = some (chr '\n') := by
  have hbytes : bytes "\n\n" = [chr '\n', chr '\n'] := rfl
  rw [hbytes, List.cons_prefix_cons, eq_comm]
  refine and_congr_right fun _ => ?_
  cases s with
  | nil => simp
  | cons d s => simp [List.cons_prefix_cons, eq_comm]

/-- Two line feeds with a carriage return between them. -/
theorem begins_lf_cr_lf {c d : UInt8} {s : Bytes} :
    bytes "\n\r\n" <+: c :: d :: s ↔
      c = chr '\n' ∧ d = chr '\r' ∧ s.head? = some (chr '\n') := by
  have hbytes : bytes "\n\r\n" = [chr '\n', chr '\r', chr '\n'] := rfl
  rw [hbytes, List.cons_prefix_cons, List.cons_prefix_cons, eq_comm, @eq_comm _ (chr '\r')]
  refine and_congr_right fun _ => and_congr_right fun _ => ?_
  cases s with
  | nil => simp
  | cons e s => simp [List.cons_prefix_cons, eq_comm]

/-- The head does not end behind a character that is not a line feed. -/
theorem head_length_cons {c : UInt8} (hc : c ≠ chr '\n') (s : Bytes) :
    head_length (c :: s) = (head_length s).map (· + 1) := by
  have h₂ : ¬bytes "\n\n" <+: c :: s := fun h => hc (begins_lf_lf.mp h).1
  have h₃ : ¬bytes "\n\r\n" <+: c :: s := fun h => hc (List.cons_prefix_cons.mp h).1.symm
  rw [head_length, if_neg h₂, if_neg h₃]

/-- The first character is one that is looked at, when it is not the last one. -/
theorem clean_cons {c d : UInt8} {s : Bytes} :
    Clean (c :: d :: s) ↔ is_control c = false ∧ Clean (d :: s) := by
  unfold Clean
  rw [List.dropLast_cons_cons, List.forall_mem_cons]

/-- A control character is no line feed. -/
theorem ne_of_is_control {c : UInt8} (hc : is_control c = true) : c ≠ chr '\n' := by
  rintro rfl
  exact absurd hc (by decide)

/-- The loop finds the end of the head, or it reports whether it has seen a control character. -/
theorem get_request_len_loop_eq (len : ℤ) (pos : ℕ) (s : Bytes) :
    get_request_len_loop len pos s =
      (head_length s).elim (if Clean s then len else -1) fun n => pos + n := by
  induction s generalizing len pos with
  | nil =>
    have hclean : Clean [] := fun c hc => by cases hc
    rw [head_length, Option.elim_none, if_pos hclean]
    rfl
  | cons c s ih =>
    cases s with
    | nil =>
      -- The last character is not looked at.
      have hclean : Clean [c] := fun c hc => by cases hc
      have hnone : head_length [c] = none := Option.eq_none_iff_forall_not_mem.mpr fun n hn => by
        have hle := head_length_le hn
        rw [List.length_singleton] at hle
        omega
      rw [hnone, Option.elim_none, if_pos hclean]
      rfl
    | cons d buf =>
      rw [get_request_len_loop]
      by_cases hcontrol : is_control c = true
      · rw [if_pos hcontrol, ih, head_length_cons (ne_of_is_control hcontrol)]
        cases head_length (d :: buf) with
        | none => simp [clean_cons, hcontrol]
        | some n => simp [add_comm, add_left_comm]
      rw [if_neg hcontrol]
      by_cases h₂ : c = chr '\n' ∧ d = chr '\n'
      · have hprefix : bytes "\n\n" <+: c :: d :: buf :=
          begins_lf_lf.mpr ⟨h₂.1, congrArg some h₂.2⟩
        rw [if_pos h₂, head_length, if_pos hprefix]
        rfl
      have hother : ¬bytes "\n\n" <+: c :: d :: buf := fun h =>
        h₂ ⟨(begins_lf_lf.mp h).1, Option.some.inj (begins_lf_lf.mp h).2⟩
      rw [if_neg h₂]
      by_cases h₃ : c = chr '\n' ∧ d = chr '\r' ∧ buf.head? = some (chr '\n')
      · rw [if_pos h₃, head_length, if_neg hother, if_pos (begins_lf_cr_lf.mpr h₃)]
        rfl
      · have hhead : head_length (c :: d :: buf) = (head_length (d :: buf)).map (· + 1) := by
          rw [head_length, if_neg hother, if_neg fun h => h₃ (begins_lf_cr_lf.mp h)]
        rw [if_neg h₃, ih, hhead]
        cases head_length (d :: buf) with
        | none => simp [clean_cons, hcontrol]
        | some n => simp [add_comm, add_left_comm]

/-- What `get_request_len` returns. -/
theorem get_request_len_eq (s : Bytes) :
    get_request_len s = (head_length s).elim (if Clean s then 0 else -1) fun n => (n : ℤ) := by
  unfold get_request_len
  rw [get_request_len_loop_eq]
  simp

/-- It returns a length exactly for a text with a head. -/
theorem get_request_len_eq_iff {s : Bytes} {n : ℕ} (hn : 0 < n) :
    get_request_len s = n ↔ head_length s = some n := by
  rw [get_request_len_eq]
  cases head_length s with
  | none =>
    rw [Option.elim_none]
    refine iff_of_false (fun h => ?_) (by simp)
    split_ifs at h
    omega
  | some m => simp

/-- It asks for more exactly for a clean text without a head. -/
theorem get_request_len_eq_zero {s : Bytes} :
    get_request_len s = 0 ↔ head_length s = none ∧ Clean s := by
  rw [get_request_len_eq]
  cases hs : head_length s with
  | none => by_cases hclean : Clean s <;> simp [hclean]
  | some n =>
    have := (head_length_le hs).1
    simp
    omega

/-- What it returns is not longer than the text. -/
theorem get_request_len_le (s : Bytes) : get_request_len s ≤ s.length := by
  rw [get_request_len_eq]
  cases hs : head_length s with
  | none =>
    rw [Option.elim_none]
    split_ifs <;> omega
  | some n =>
    have := (head_length_le hs).2
    rw [Option.elim_some]
    omega

end DialServer
