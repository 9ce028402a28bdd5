import Mathlib

/-!
# Quoted literals

The value of a literal between quotes in which a backslash stands in front of a character that is
meant to be taken otherwise. What such a character stands for is left open (`unescape`), for the
results here do not depend on it: a text that is put between quotes as it is has itself for a value
exactly when it has no quote and no backslash in it, and no other value as long as it.
-/

namespace CLib

variable {α : Type} [DecidableEq α]

/-- What a literal stands for, behind its opening quote. Nothing may follow the closing one. -/
def literal_body (quote backslash : α) (unescape : α → α) : List α → Option (List α)
  | [] => none
  | [c] => if c = quote then some [] else none
  | c :: d :: s =>
    if c = quote then none
    else if c = backslash then
      (literal_body quote backslash unescape s).map (unescape d :: ·)
    else (literal_body quote backslash unescape (d :: s)).map (c :: ·)

/-- What a literal stands for. -/
def literal_value (quote backslash : α) (unescape : α → α) : List α → Option (List α)
  | c :: s => if c = quote then literal_body quote backslash unescape s else none
  | [] => none

variable {quote backslash : α} {unescape : α → α}

/-- A text without quotes and backslashes stands for itself. -/
theorem literal_value_plain {s : List α} (hquote : quote ∉ s) (hbackslash : backslash ∉ s) :
    literal_value quote backslash unescape (quote :: (s ++ [quote])) = some s := by
  rw [literal_value, if_pos rfl]
  induction s with
  | nil => simp [literal_body]
  | cons c s ih =>
    rw [List.mem_cons, not_or] at hquote hbackslash
    have hrec := ih hquote.2 hbackslash.2
    obtain ⟨d, rest, hrest⟩ := List.exists_cons_of_ne_nil (l := s ++ [quote]) (by simp)
    rw [List.cons_append, hrest, literal_body, if_neg (Ne.symm hquote.1),
      if_neg (Ne.symm hbackslash.1), ← hrest, hrec]
    rfl

/-- The value is not longer than the text between the quotes, and when it is as long, the text has
no quotes and no backslashes, and is the value. The induction is on the length, since an escape
takes two characters at once. -/
theorem literal_body_length {s v : List α}
    (h : literal_body quote backslash unescape (s ++ [quote]) = some v) :
    v.length ≤ s.length ∧ (s.length ≤ v.length → quote ∉ s ∧ backslash ∉ s ∧ v = s) := by
  induction hn : s.length using Nat.strong_induction_on generalizing s v with
  | _ n ih =>
    subst hn
    match s, h with
    | [], h =>
      obtain rfl : [] = v := by simpa [literal_body] using h
      simp
    | [c], h =>
      rw [List.singleton_append, literal_body] at h
      split_ifs at h with hquote hbackslash
      · -- The quote behind a backslash is not the closing one.
        simp [literal_body] at h
      · obtain ⟨w, hw, rfl⟩ := Option.map_eq_some_iff.mp h
        obtain rfl : [] = w := by simpa [literal_body] using hw
        simp [Ne.symm hquote, Ne.symm hbackslash]
    | c :: d :: s, h =>
      rw [List.cons_append, List.cons_append, literal_body] at h
      split_ifs at h with hquote hbackslash
      · obtain ⟨w, hw, rfl⟩ := Option.map_eq_some_iff.mp h
        obtain ⟨hlength, -⟩ := ih s.length (by simp only [List.length_cons]; omega) hw rfl
        simp only [List.length_cons]
        exact ⟨by omega, fun hle => absurd hle (by omega)⟩
      · obtain ⟨w, hw, rfl⟩ := Option.map_eq_some_iff.mp h
        have hw' : literal_body quote backslash unescape ((d :: s) ++ [quote]) = some w := hw
        obtain ⟨hlength, hfull⟩ := ih (d :: s).length (by simp) hw' rfl
        refine ⟨by simpa using hlength, fun hle => ?_⟩
        obtain ⟨hq, hb, rfl⟩ := hfull (by simpa using hle)
        exact ⟨List.not_mem_cons_of_ne_of_not_mem (Ne.symm hquote) hq,
          List.not_mem_cons_of_ne_of_not_mem (Ne.symm hbackslash) hb, rfl⟩

/-- Put between quotes, a text has a value that is at least as long only if it is that value, and
has nothing in it that would have to be escaped. -/
theorem literal_value_eq_some_iff {s v : List α} (hlength : s.length ≤ v.length) :
    literal_value quote backslash unescape (quote :: (s ++ [quote])) = some v ↔
      v = s ∧ quote ∉ s ∧ backslash ∉ s := by
  constructor
  · intro hvalue
    rw [literal_value, if_pos rfl] at hvalue
    obtain ⟨hquote, hbackslash, rfl⟩ := (literal_body_length hvalue).2 hlength
    exact ⟨rfl, hquote, hbackslash⟩
  · rintro ⟨rfl, hquote, hbackslash⟩
    exact literal_value_plain hquote hbackslash

end CLib
