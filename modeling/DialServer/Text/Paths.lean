import DialServer.Source.Mongoose

/-!
# Paths

The protection of `mongoose.c` against directory disclosure, which removes `..` and excessive
slashes behind a slash or backslash. It looks at the text once, after the percent signs have been
decoded. What it lets through has no slash with `..` behind it, whatever it is given; and a text
without such places, and without one slash behind another, goes through as it is.
-/

namespace DialServer

open CLib

/-- A slash, or a backslash, with `..` behind it. -/
def LeavesDirectory (s : Bytes) : Prop :=
  ∃ c, is_slash c = true ∧ [c, chr '.', chr '.'] <:+: s

/-- One slash or backslash behind another. -/
def DoublesSlash (s : Bytes) : Prop :=
  ∃ c d, is_slash c = true ∧ is_slash d = true ∧ [c, d] <:+: s

/-- Pairs of dots are skipped up to where there is none. -/
theorem skip_double_dots_spec : ∀ s : Bytes, ¬[chr '.', chr '.'] <+: skip_double_dots s
  | c :: d :: s => by
    unfold skip_double_dots
    split_ifs with hdots
    · exact skip_double_dots_spec s
    · intro hprefix
      obtain ⟨hc, hprefix'⟩ := List.cons_prefix_cons.mp hprefix
      exact hdots ⟨hc.symm, (List.cons_prefix_cons.mp hprefix').1.symm⟩
  | [] => by simp [skip_double_dots]
  | [c] => by simp [skip_double_dots]

/-- Without a pair of dots nothing is skipped. -/
theorem skip_double_dots_of_not {s : Bytes} (h : ¬[chr '.', chr '.'] <+: s) :
    skip_double_dots s = s := by
  match s, h with
  | [], _ => rfl
  | [c], _ => rfl
  | c :: d :: s, h =>
    refine if_neg fun hdots => h ?_
    rw [hdots.1, hdots.2]
    exact ⟨s, rfl⟩

/-- The first character stays. -/
theorem remove_double_dots_head (s : Bytes) :
    (remove_double_dots_and_double_slashes s).head? = s.head? := by
  cases s with
  | nil => simp [remove_double_dots_nil]
  | cons c s =>
    rw [remove_double_dots_cons]
    split_ifs <;> rfl

/-- A text that does not begin with a pair of dots does not begin with one afterwards. -/
theorem remove_double_dots_prefix {s : Bytes} (h : ¬[chr '.', chr '.'] <+: s) :
    ¬[chr '.', chr '.'] <+: remove_double_dots_and_double_slashes s := by
  intro hdots
  cases s with
  | nil => simp [remove_double_dots_nil] at hdots
  | cons c s =>
    have hdot : is_slash (chr '.') = false := by decide
    obtain rfl : c = chr '.' := by
      have hhead := remove_double_dots_head (c :: s)
      obtain ⟨rest, hrest⟩ := hdots
      rw [← hrest] at hhead
      simpa using hhead.symm
    rw [remove_double_dots_cons, if_neg (by simp [hdot])] at hdots
    -- The second dot would be the first character of the rest.
    obtain ⟨rest, hrest⟩ := (List.cons_prefix_cons.mp hdots).2
    have hhead := remove_double_dots_head s
    rw [← hrest] at hhead
    cases s with
    | nil => simp at hhead
    | cons d s =>
      obtain rfl : chr '.' = d := by simpa using hhead
      exact h ⟨s, rfl⟩

/-- No slash is left with `..` behind it. -/
theorem remove_double_dots_leaves (s : Bytes) :
    ¬LeavesDirectory (remove_double_dots_and_double_slashes s) := by
  rintro ⟨slash, hslash, hinfix⟩
  induction s using remove_double_dots_and_double_slashes.induct with
  | case1 => simp [remove_double_dots_nil] at hinfix
  | case2 c s hc ih =>
    rw [remove_double_dots_cons, if_pos hc, List.infix_cons_iff] at hinfix
    rcases hinfix with hprefix | hinfix
    · exact remove_double_dots_prefix (skip_double_dots_spec _) (List.cons_prefix_cons.mp hprefix).2
    · exact ih hinfix
  | case3 c s hc ih =>
    rw [remove_double_dots_cons, if_neg hc, List.infix_cons_iff] at hinfix
    rcases hinfix with hprefix | hinfix
    · exact hc ((List.cons_prefix_cons.mp hprefix).1 ▸ hslash)
    · exact ih hinfix

/-- What is behind a pair of dots is a part of the text. -/
theorem skip_double_dots_suffix : ∀ s : Bytes, skip_double_dots s <:+ s
  | c :: d :: s => by
    unfold skip_double_dots
    split_ifs
    · exact (skip_double_dots_suffix s).trans ((List.suffix_cons d s).trans (List.suffix_cons c _))
    · exact List.suffix_refl _
  | [] => List.suffix_refl _
  | [_] => List.suffix_refl _

/-- Characters are only removed. -/
theorem remove_double_dots_sublist (s : Bytes) :
    (remove_double_dots_and_double_slashes s).Sublist s := by
  induction s using remove_double_dots_and_double_slashes.induct with
  | case1 => simp [remove_double_dots_nil]
  | case2 c s hc ih =>
    rw [remove_double_dots_cons, if_pos hc]
    exact (ih.trans ((skip_double_dots_suffix _).sublist.trans
      (List.dropWhile_sublist is_slash))).cons_cons c
  | case3 c s hc ih =>
    rw [remove_double_dots_cons, if_neg hc]
    exact ih.cons_cons c

/-- Such a place is at the beginning of a text, or further behind. -/
theorem leavesDirectory_cons {c : UInt8} {s : Bytes} :
    LeavesDirectory (c :: s) ↔
      (is_slash c = true ∧ [chr '.', chr '.'] <+: s) ∨ LeavesDirectory s := by
  constructor
  · rintro ⟨slash, hslash, hinfix⟩
    rcases List.infix_cons_iff.mp hinfix with hprefix | hinfix
    · obtain ⟨rfl, hdots⟩ := List.cons_prefix_cons.mp hprefix
      exact .inl ⟨hslash, hdots⟩
    · exact .inr ⟨slash, hslash, hinfix⟩
  · rintro (⟨hc, hdots⟩ | ⟨slash, hslash, hinfix⟩)
    · exact ⟨c, hc, (List.cons_prefix_cons.mpr ⟨rfl, hdots⟩).isInfix⟩
    · exact ⟨slash, hslash, List.infix_cons_iff.mpr (.inr hinfix)⟩

/-- The same for slashes. -/
theorem doublesSlash_cons {c : UInt8} {s : Bytes} :
    DoublesSlash (c :: s) ↔
      (is_slash c = true ∧ ∃ d, s.head? = some d ∧ is_slash d = true) ∨ DoublesSlash s := by
  constructor
  · rintro ⟨slash, d, hslash, hd, hinfix⟩
    rcases List.infix_cons_iff.mp hinfix with hprefix | hinfix
    · obtain ⟨rfl, rest, rfl⟩ := List.cons_prefix_cons.mp hprefix
      exact .inl ⟨hslash, d, rfl, hd⟩
    · exact .inr ⟨slash, d, hslash, hd, hinfix⟩
  · rintro (⟨hc, d, hhead, hd⟩ | ⟨slash, d, hslash, hd, hinfix⟩)
    · obtain ⟨rest, rfl⟩ := List.head?_eq_some_iff.mp hhead
      exact ⟨c, d, hc, hd, [], rest, rfl⟩
    · exact ⟨slash, d, hslash, hd, List.infix_cons_iff.mpr (.inr hinfix)⟩

/-- Nothing is skipped exactly when the text begins neither with a slash nor with a pair of dots. -/
theorem skipped_eq_self_iff (s : Bytes) :
    skip_double_dots (s.dropWhile is_slash) = s ↔
      (¬∃ d, s.head? = some d ∧ is_slash d = true) ∧ ¬[chr '.', chr '.'] <+: s := by
  constructor
  · intro hself
    have hdrop : s.dropWhile is_slash = s := by
      refine (List.dropWhile_suffix is_slash).eq_of_length_le ?_
      have hlength := skip_double_dots_length (s.dropWhile is_slash)
      rwa [hself] at hlength
    refine ⟨?_, fun hdots => ?_⟩
    · rintro ⟨d, hhead, hd⟩
      obtain ⟨rest, rfl⟩ := List.head?_eq_some_iff.mp hhead
      have hlength := (List.dropWhile_suffix is_slash (l := rest)).length_le
      rw [List.dropWhile_cons_of_pos hd] at hdrop
      rw [hdrop, List.length_cons] at hlength
      omega
    · rw [← hself] at hdots
      exact skip_double_dots_spec _ hdots
  · rintro ⟨hhead, hdots⟩
    have hdrop : s.dropWhile is_slash = s := by
      cases s with
      | nil => rfl
      | cons d rest => exact List.dropWhile_cons_of_neg fun hd => hhead ⟨d, rfl, hd⟩
    rw [hdrop, skip_double_dots_of_not hdots]

/-- A text goes through as it is exactly when there is nothing to remove. -/
theorem remove_double_dots_eq_self_iff (s : Bytes) :
    remove_double_dots_and_double_slashes s = s ↔ ¬LeavesDirectory s ∧ ¬DoublesSlash s := by
  induction s using remove_double_dots_and_double_slashes.induct with
  | case1 => simp [remove_double_dots_nil, LeavesDirectory, DoublesSlash]
  | case2 c s hc ih =>
    rw [remove_double_dots_cons, if_pos hc, List.cons_eq_cons]
    simp only [true_and, leavesDirectory_cons, doublesSlash_cons, hc, not_or]
    have hskip := skipped_eq_self_iff s
    constructor
    · intro hself
      -- Nothing is removed from the rest, so that nothing was skipped either.
      have hskipped : skip_double_dots (s.dropWhile is_slash) = s := by
        refine ((skip_double_dots_suffix _).trans (List.dropWhile_suffix _)).eq_of_length_le ?_
        have hlength := (remove_double_dots_sublist (skip_double_dots
          (s.dropWhile is_slash))).length_le
        rwa [hself] at hlength
      obtain ⟨hhead, hdots⟩ := hskip.mp hskipped
      rw [hskipped] at ih hself
      exact ⟨⟨hdots, (ih.mp hself).1⟩, hhead, (ih.mp hself).2⟩
    · rintro ⟨⟨hdots, hleaves⟩, hhead, hdoubles⟩
      have hskipped := hskip.mpr ⟨hhead, hdots⟩
      rw [hskipped] at ih ⊢
      exact ih.mpr ⟨hleaves, hdoubles⟩
  | case3 c s hc ih =>
    rw [remove_double_dots_cons, if_neg hc, List.cons_eq_cons]
    simp only [true_and, leavesDirectory_cons, doublesSlash_cons, hc, Bool.false_eq_true, false_and,
      false_or]
    exact ih

/-- **No request leaves a directory.** Whatever URI arrives, encoded or not, the path that the
handlers see has no slash or backslash with `..` behind it. It is what is left of the decoded path,
and it is the decoded path itself if and only if that has no such place and no slash or backslash
behind another. -/
theorem paths_stay_inside (ri : mg_request_info) :
    let decoded := cstr (url_decode (split_query ri.uri).1)
    ¬LeavesDirectory (normalise ri).uri ∧ (normalise ri).uri.Sublist decoded ∧
      ((normalise ri).uri = decoded ↔ ¬LeavesDirectory decoded ∧ ¬DoublesSlash decoded) :=
  ⟨remove_double_dots_leaves _, remove_double_dots_sublist _, remove_double_dots_eq_self_iff _⟩

end DialServer
