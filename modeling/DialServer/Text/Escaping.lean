import DialServer.Source.UrlLib

/-!
# XML escaping

`xml_escape` is the escaped form of a text, without bounds. What `xmlencode` writes is always a part
of it, and all of it exactly when the text fits (`XmlFits`): an entity has to end before the bound,
while a character that needs no entity may take the last place.
-/

namespace DialServer

open CLib

/-- The escaped form of a character. -/
def xml_char (c : UInt8) : Bytes := (xml_entity c).getD [c]

/-- The escaped form of a text. -/
def xml_escape (s : Bytes) : Bytes := s.flatMap xml_char

/-- The escaped form of a text ends before the bound when it begins behind `current_size`
characters, or it ends at the bound and not in an entity. -/
def EndsInTime (max_size current_size : ℕ) (s : Bytes) : Prop :=
  ∀ c, s.getLast? = some c → current_size + (xml_escape s).length < max_size ∨
    (current_size + (xml_escape s).length = max_size ∧ xml_entity c = none)

/-- The escaped form of a text fits into a bound: it is shorter, or it is as long and does not end
in an entity. Nothing fits any bound. -/
def XmlFits (s : Bytes) (max_size : ℕ) : Prop :=
  ∀ c, s.getLast? = some c → (xml_escape s).length < max_size ∨
    ((xml_escape s).length = max_size ∧ xml_entity c = none)

/-- The escaped form of a text is that of its first character and then that of the rest. -/
theorem xml_escape_cons (c : UInt8) (s : Bytes) :
    xml_escape (c :: s) = xml_char c ++ xml_escape s := rfl

/-- A character without an entity is not escaped. -/
theorem xml_char_of_none {c : UInt8} (h : xml_entity c = none) : xml_char c = [c] := by
  rw [xml_char, h, Option.getD_none]

/-- A character with an entity is escaped to it. -/
theorem xml_char_of_some {c : UInt8} {entity : Bytes} (h : xml_entity c = some entity) :
    xml_char c = entity := by
  rw [xml_char, h, Option.getD_some]

/-- No character is escaped to nothing. -/
theorem xml_char_ne_nil (c : UInt8) : xml_char c ≠ [] := by
  unfold xml_char xml_entity
  split_ifs <;> simp [bytes]

/-- A text is never longer than its escaped form. -/
theorem length_le_xml_escape (s : Bytes) : s.length ≤ (xml_escape s).length := by
  induction s with
  | nil => exact Nat.zero_le _
  | cons c s ih =>
    have := List.length_pos_of_ne_nil (xml_char_ne_nil c)
    rw [xml_escape_cons, List.length_append, List.length_cons]
    omega

/-- What the loop of `xmlencode` writes is the escaped form of a part of the text. -/
theorem xmlencode_loop_kept (max_size current_size : ℕ) (src : Bytes) :
    ∃ kept, kept.Sublist src ∧ xmlencode_loop max_size current_size src = xml_escape kept := by
  induction src generalizing current_size with
  | nil => exact ⟨[], List.Sublist.refl _, rfl⟩
  | cons c src ih =>
    rw [xmlencode_loop]
    split_ifs with hroom
    · cases hc : xml_entity c with
      | none =>
        have hchar : xml_char c = [c] := xml_char_of_none hc
        obtain ⟨kept, hkept, heq⟩ := ih (current_size + 1)
        refine ⟨c :: kept, hkept.cons_cons c, ?_⟩
        rw [xml_escape_cons, hchar, ← heq]
        rfl
      | some entity =>
        have hchar : xml_char c = entity := xml_char_of_some hc
        simp only
        split_ifs with hlong
        · obtain ⟨kept, hkept, heq⟩ := ih current_size
          exact ⟨kept, hkept.cons c, heq⟩
        · obtain ⟨kept, hkept, heq⟩ := ih (current_size + entity.length)
          refine ⟨c :: kept, hkept.cons_cons c, ?_⟩
          rw [xml_escape_cons, hchar, ← heq, smartstrncpy, List.nil_append,
            List.take_of_length_le (by omega)]
    · exact ⟨[], List.nil_sublist _, rfl⟩

/-- So it is a part of the escaped form. -/
theorem xmlencode_loop_sublist (max_size current_size : ℕ) (s : Bytes) :
    (xmlencode_loop max_size current_size s).Sublist (xml_escape s) := by
  obtain ⟨kept, hkept, heq⟩ := xmlencode_loop_kept max_size current_size s
  rw [heq]
  exact hkept.flatMap xml_char

/-- A text ends in time when its first character does and so does the rest behind it. -/
theorem endsInTime_cons (max_size current_size : ℕ) (c : UInt8) (s : Bytes) :
    EndsInTime max_size current_size (c :: s) ↔
      (current_size + (xml_char c).length < max_size ∨
        (current_size + (xml_char c).length = max_size ∧ xml_entity c = none)) ∧
      EndsInTime max_size (current_size + (xml_char c).length) s := by
  unfold EndsInTime
  cases s with
  | nil => simp [xml_escape]
  | cons d s =>
    obtain ⟨last, hlast⟩ : ∃ last, (d :: s).getLast? = some last :=
      ⟨_, List.getLast?_eq_some_getLast (by simp)⟩
    have hpos := length_le_xml_escape (d :: s)
    rw [List.getLast?_cons_cons, xml_escape_cons c, List.length_append, ← Nat.add_assoc, hlast]
    simp only [Option.some.injEq, forall_eq', List.length_cons] at hpos ⊢
    -- The first character is not the last one, so that it ends before the bound if the text does.
    refine (and_iff_right_of_imp fun h => .inl ?_).symm
    rcases h with h | ⟨h, -⟩ <;> omega

/-- The loop writes all of the escaped form exactly when that ends in time. -/
theorem xmlencode_loop_eq_iff (max_size current_size : ℕ) (s : Bytes) :
    xmlencode_loop max_size current_size s = xml_escape s ↔ EndsInTime max_size current_size s := by
  induction s generalizing current_size with
  | nil => simp [xmlencode_loop, xml_escape, EndsInTime]
  | cons c s ih =>
    have hne := List.length_pos_of_ne_nil (xml_char_ne_nil c)
    rw [endsInTime_cons, ← ih, xml_escape_cons]
    rw [xmlencode_loop]
    by_cases hroom : current_size < max_size
    · rw [if_pos hroom]
      cases hc : xml_entity c with
      | none =>
        have hchar : xml_char c = [c] := xml_char_of_none hc
        simp only [hchar, List.length_singleton, List.cons_append, List.nil_append, List.cons.injEq,
          true_and, and_true]
        exact (and_iff_right_of_imp fun _ => by omega).symm
      | some entity =>
        have hchar : xml_char c = entity := xml_char_of_some hc
        rw [hchar] at hne ⊢
        simp only [reduceCtorEq, and_false, or_false]
        by_cases hlong : current_size + entity.length ≥ max_size
        · -- The entity is left out, and what follows cannot make up for it.
          rw [if_pos hlong]
          refine iff_of_false (fun heq => ?_) (fun h => absurd h.1 (by omega))
          have hle := (xmlencode_loop_sublist max_size current_size s).length_le
          rw [heq, List.length_append] at hle
          omega
        · rw [if_neg hlong, smartstrncpy, List.nil_append, List.take_of_length_le (by omega),
            List.append_cancel_left_eq]
          exact (and_iff_right_of_imp fun _ => by omega).symm
    · -- No room is left, and nothing more is written.
      rw [if_neg hroom]
      refine iff_of_false (fun heq => ?_) (fun h => absurd h.1 (by omega))
      have hlen := congrArg List.length heq
      rw [List.length_nil, List.length_append] at hlen
      omega

/-- `xmlencode` writes all of the escaped form exactly when it fits. -/
theorem xmlencode_eq_iff (s : Bytes) (max_size : ℕ) :
    xmlencode s max_size = xml_escape s ↔ XmlFits s max_size := by
  rw [xmlencode, xmlencode_loop_eq_iff, EndsInTime, XmlFits]
  simp only [Nat.zero_add]

/-- Whether a text fits is found out by a run of `xmlencode`. -/
instance (s : Bytes) (max_size : ℕ) : Decidable (XmlFits s max_size) :=
  decidable_of_iff _ (xmlencode_eq_iff s max_size)

/-- What `xmlencode` writes is a part of the escaped form, whatever the bound is. -/
theorem xmlencode_sublist (s : Bytes) (max_size : ℕ) :
    (xmlencode s max_size).Sublist (xml_escape s) :=
  xmlencode_loop_sublist max_size 0 s

end DialServer
