import Mathlib

/-!
# Lines of a text

The lines of a text whose line end is a pair of characters, as in the head of an HTTP message. The
text behind the last line end is a line too, so that a text always has a line, and texts that a line
end joins have the lines of the one and then those of the other.
-/

namespace CLib

variable {α : Type} [DecidableEq α]

/-- The pieces of a text between the line ends `cr lf`. -/
def lines (cr lf : α) : List α → List (List α)
  | [] => [[]]
  | [c] => [[c]]
  | c :: d :: s =>
    if c = cr ∧ d = lf then [] :: lines cr lf s
    else (lines cr lf (d :: s)).modifyHead (c :: ·)

variable {cr lf : α}

/-- A text has a line. -/
theorem lines_ne_nil (s : List α) : lines cr lf s ≠ [] := by
  induction s using lines.induct cr lf with
  | case1 => simp [lines]
  | case2 c => simp [lines]
  | case3 c d s h ih => simp [lines, h]
  | case4 c d s h ih => simpa [lines, h] using ih

/-- A character in front of a text that is not the first of a line end joins its first line. -/
theorem lines_cons {c : α} (hc : c ≠ cr) (s : List α) :
    lines cr lf (c :: s) = (lines cr lf s).modifyHead (c :: ·) := by
  cases s with
  | nil => rfl
  | cons d s => simp [lines, hc]

/-- So does a text without line ends. -/
theorem lines_append {p : List α} (hp : cr ∉ p) (s : List α) :
    lines cr lf (p ++ s) = (lines cr lf s).modifyHead (p ++ ·) := by
  induction p with
  | nil =>
    rw [List.nil_append]
    cases lines cr lf s <;> simp
  | cons c p ih =>
    rw [List.mem_cons, not_or] at hp
    rw [List.cons_append, lines_cons (Ne.symm hp.1), ih hp.2, List.modifyHead_modifyHead]
    rfl

/-- A text without line ends is one line. -/
theorem lines_of_notMem {s : List α} (hs : cr ∉ s) : lines cr lf s = [s] := by
  have h : lines cr lf (s ++ []) = (lines cr lf []).modifyHead (s ++ ·) := lines_append hs []
  simpa [lines] using h

/-- A line end separates the lines before it from those behind it. -/
theorem lines_sep (h : cr ≠ lf) (s t : List α) :
    lines cr lf (s ++ cr :: lf :: t) = lines cr lf s ++ lines cr lf t := by
  induction s using lines.induct cr lf with
  | case1 => simp [lines]
  | case2 c => simp [lines, h]
  | case3 c d s hcd ih => simp [lines, hcd, ih]
  | case4 c d s hcd ih =>
    have hne : lines cr lf (d :: s) ≠ [] := lines_ne_nil _
    obtain ⟨line, rest, hline⟩ := List.exists_cons_of_ne_nil hne
    rw [List.cons_append, List.cons_append, lines, if_neg hcd, lines, if_neg hcd,
      ← List.cons_append, ih, hline]
    rfl

end CLib
