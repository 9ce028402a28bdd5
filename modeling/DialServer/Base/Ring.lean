import Mathlib

/-!
# A ring buffer

A queue in an array of `n` cells with two counters: `head` counts what has been put in and `tail`
what has been taken out, and a counter modulo `n` is the cell. The counters are brought down
together when `tail` has passed the end of the array. `contents` is the queue that the ring stands
for; `put` and `take` act on it as on a list, as long as the ring is not full and not empty.
-/

namespace CLib

/-- An array used as a queue. -/
structure Ring (α : Type) (n : ℕ) where
  cells : Fin n → α
  head : ℕ
  tail : ℕ

namespace Ring

variable {α : Type} {n : ℕ}

/-- A ring in which nothing has been put. -/
def empty (n : ℕ) (blank : α) : Ring α n := ⟨fun _ => blank, 0, 0⟩

/-- Nothing is in the ring. -/
def IsEmpty (r : Ring α n) : Prop := r.head = r.tail

/-- As much is in the ring as it has cells. -/
def IsFull (r : Ring α n) : Prop := r.tail + n ≤ r.head

instance (r : Ring α n) : Decidable r.IsEmpty := inferInstanceAs (Decidable (_ = _))

instance (r : Ring α n) : Decidable r.IsFull := inferInstanceAs (Decidable (_ ≤ _))

/-- The counters, brought down while `tail` is behind the end of the array. -/
def wrap [NeZero n] (r : Ring α n) : Ring α n :=
  if n < r.tail then wrap { r with head := r.head - n, tail := r.tail - n } else r
termination_by r.tail
decreasing_by
  have hpos := NeZero.pos n
  omega

section Operations

variable [NeZero n]

/-- Put one in. -/
def put (r : Ring α n) (x : α) : Ring α n :=
  { r with cells := Function.update r.cells (Fin.ofNat n r.head) x, head := r.head + 1 }

/-- The next to be taken. -/
def front (r : Ring α n) : α := r.cells (Fin.ofNat n r.tail)

/-- Take one out. -/
def take (r : Ring α n) : Ring α n := wrap { r with tail := r.tail + 1 }

/-- What is in the ring, the next to be taken first. -/
def contents (r : Ring α n) : List α :=
  (List.range' r.tail (r.head - r.tail)).map fun i => r.cells (Fin.ofNat n i)

end Operations

/-- The counters of a ring in use. They stay below twice the size of the array. -/
structure Valid (r : Ring α n) : Prop where
  tail_le_head : r.tail ≤ r.head
  head_le : r.head ≤ r.tail + n
  tail_le : r.tail ≤ n

/-- A new ring is valid. -/
theorem valid_empty (blank : α) : (empty n blank).Valid := ⟨le_rfl, Nat.zero_le _, Nat.zero_le _⟩

variable [NeZero n]

/-- How much is in the ring. -/
theorem length_contents (r : Ring α n) : r.contents.length = r.head - r.tail := by
  unfold contents
  rw [List.length_map, List.length_range']

/-- Putting one in keeps the ring valid. -/
theorem Valid.put {r : Ring α n} (h : r.Valid) (hroom : ¬r.IsFull) (x : α) : (r.put x).Valid where
  tail_le_head := h.tail_le_head.trans (Nat.le_succ _)
  head_le := Nat.succ_le_of_lt (not_le.mp hroom)
  tail_le := h.tail_le

/-- Two counters less than `n` apart are different cells. -/
theorem ofNat_ne {i j : ℕ} (hlt : i < j) (hnear : j < i + n) : Fin.ofNat n i ≠ Fin.ofNat n j := by
  intro heq
  have hmod : i ≡ j [MOD n] := congrArg Fin.val heq
  have hdvd : n ∣ j - i := (Nat.modEq_iff_dvd' hlt.le).mp hmod
  have hle := Nat.le_of_dvd (by omega) hdvd
  omega

/-- What is put in stands behind what is there. -/
theorem contents_put {r : Ring α n} (h : r.Valid) (hroom : ¬r.IsFull) (x : α) :
    (r.put x).contents = r.contents ++ [x] := by
  have hcount : r.head + 1 - r.tail = r.head - r.tail + 1 := by
    have := h.tail_le_head
    omega
  have hlast : r.tail + (r.head - r.tail) = r.head := by
    have := h.tail_le_head
    omega
  unfold contents Ring.put
  simp only
  rw [hcount, List.range'_1_concat, List.map_append, hlast, List.map_singleton,
    Function.update_self]
  congr 1
  apply List.map_congr_left
  intro i hi
  rw [List.mem_range'_1] at hi
  -- The other cells are not the one that is written.
  refine Function.update_of_ne (ofNat_ne ?_ ?_) ..
  · omega
  · have := not_le.mp hroom
    omega

/-- To bring the counters down changes neither the contents nor their number. -/
theorem wrap_spec (r : Ring α n) (h : r.tail ≤ r.head) (hle : r.head ≤ r.tail + n) :
    r.wrap.Valid ∧ r.wrap.contents = r.contents := by
  induction r using wrap.induct with
  | case1 r hlong ih =>
    rw [wrap, if_pos hlong]
    obtain ⟨hvalid, hcontents⟩ := ih (by simp only; omega) (by simp only; omega)
    refine ⟨hvalid, hcontents.trans ?_⟩
    have hcount : r.head - n - (r.tail - n) = r.head - r.tail := by omega
    unfold contents
    simp only
    rw [hcount, List.range'_eq_map_range, List.range'_eq_map_range, List.map_map, List.map_map]
    apply List.map_congr_left
    intro i _
    -- A counter and the counter brought down are one cell.
    have hcell : Fin.ofNat n (r.tail - n + i) = Fin.ofNat n (r.tail + i) := by
      apply Fin.ext
      show (r.tail - n + i) % n = (r.tail + i) % n
      have hsum : r.tail + i = r.tail - n + i + n := by omega
      rw [hsum, Nat.add_mod_right]
    simp only [Function.comp_apply]
    rw [hcell]
  | case2 r hshort =>
    rw [wrap, if_neg hshort]
    exact ⟨⟨h, hle, not_lt.mp hshort⟩, rfl⟩

/-- A ring is empty exactly when it has no contents. -/
theorem Valid.isEmpty_iff {r : Ring α n} (h : r.Valid) : r.IsEmpty ↔ r.contents = [] := by
  have := h.tail_le_head
  rw [← List.length_eq_zero_iff, length_contents]
  unfold IsEmpty
  omega

/-- A ring is full exactly when it has as many contents as cells. -/
theorem Valid.isFull_iff {r : Ring α n} (h : r.Valid) : r.IsFull ↔ r.contents.length = n := by
  have := h.head_le
  have := h.tail_le_head
  rw [length_contents]
  unfold IsFull
  omega

/-- What is taken out is the first of the contents, and the rest stays. -/
theorem Valid.take {r : Ring α n} (h : r.Valid) (hready : ¬r.IsEmpty) :
    r.take.Valid ∧ r.contents = r.front :: r.take.contents := by
  have hlt : r.tail < r.head := lt_of_le_of_ne h.tail_le_head (Ne.symm hready)
  obtain ⟨hvalid, hcontents⟩ := wrap_spec { r with tail := r.tail + 1 } hlt (by
    have := h.head_le
    simp only
    omega)
  refine ⟨hvalid, ?_⟩
  have hcount : r.head - r.tail = r.head - (r.tail + 1) + 1 := by omega
  rw [Ring.take, hcontents]
  unfold contents front
  simp only
  rw [hcount, List.range'_succ, List.map_cons]

/-- Behind a take there is room. -/
theorem Valid.not_isFull_take {r : Ring α n} (h : r.Valid) (hready : ¬r.IsEmpty) :
    ¬r.take.IsFull := by
  obtain ⟨hvalid, hcontents⟩ := h.take hready
  have hfits : r.contents.length ≤ n := by
    have := h.head_le
    rw [length_contents]
    omega
  rw [hcontents, List.length_cons] at hfits
  rw [hvalid.isFull_iff]
  omega

end Ring

end CLib
