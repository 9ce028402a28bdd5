import Mathlib

/-!
# Streams in segments

A stream that arrives in segments, from which a reader takes what has arrived, up to some length. A
segment that is longer than that is cut, and what is left of it arrives next. `receive` reads into a
buffer until a test succeeds on what is in it, the buffer is full, or nothing arrives. No character
is lost, and a test that more characters do not change has the result that it has on the stream
itself, however the stream is cut into segments.
-/

namespace CLib

variable {α : Type}

/-- What arrives next, at most `len` characters, and what is left. Nothing arrives at the end, and
when the segment is empty. -/
def recv : List (List α) → ℕ → List α × List (List α)
  | [], _ => ([], [])
  | segment :: pending, len =>
    if segment.length ≤ len then (segment, pending)
    else (segment.take len, segment.drop len :: pending)

/-- No segment is empty, so that nothing arrives only at the end. -/
def Live (pending : List (List α)) : Prop := ∀ segment ∈ pending, segment ≠ []

/-- What arrives of a segment. -/
theorem recv_cons (segment : List α) (pending : List (List α)) (len : ℕ) :
    recv (segment :: pending) len =
      if segment.length ≤ len then (segment, pending)
      else (segment.take len, segment.drop len :: pending) := rfl

/-- What arrives is taken from the front of the stream. -/
theorem recv_append (pending : List (List α)) (len : ℕ) :
    (recv pending len).1 ++ (recv pending len).2.flatten = pending.flatten := by
  cases pending with
  | nil => rfl
  | cons segment pending =>
    rw [recv_cons]
    split_ifs
    · rfl
    · simp only [List.flatten_cons, ← List.append_assoc, List.take_append_drop]

/-- It is not longer than what was asked for. -/
theorem length_recv_le (pending : List (List α)) (len : ℕ) : (recv pending len).1.length ≤ len := by
  cases pending with
  | nil => exact Nat.zero_le _
  | cons segment pending =>
    rw [recv_cons]
    split_ifs with h
    · exact h
    · exact List.length_take_le ..

/-- What is left has no empty segment. -/
theorem Live.recv {pending : List (List α)} (h : Live pending) (len : ℕ) :
    Live (recv pending len).2 := by
  cases pending with
  | nil => exact h
  | cons segment pending =>
    obtain ⟨-, hpending⟩ := List.forall_mem_cons.mp h
    rw [recv_cons]
    split_ifs with hlen
    · exact hpending
    · refine List.forall_mem_cons.mpr ⟨?_, hpending⟩
      rw [ne_eq, List.drop_eq_nil_iff]
      exact hlen

/-- Nothing arrives only at the end. -/
theorem Live.eq_nil_of_recv {pending rest : List (List α)} (h : Live pending) {len : ℕ}
    (hlen : 0 < len) (hnothing : CLib.recv pending len = ([], rest)) : pending = [] := by
  cases pending with
  | nil => rfl
  | cons segment pending =>
    obtain ⟨hsegment, -⟩ := List.forall_mem_cons.mp h
    rw [recv_cons] at hnothing
    split_ifs at hnothing with hle
    · exact absurd (congrArg Prod.fst hnothing) hsegment
    · rcases List.take_eq_nil_iff.mp (congrArg Prod.fst hnothing) with hzero | hempty
      · omega
      · exact absurd hempty hsegment

/-- Read until a test succeeds on what is in the buffer of `size` characters, it is full, or nothing
arrives. -/
def receive (done : List α → Bool) (size : ℕ) (buf : List α) (pending : List (List α)) :
    List α × List (List α) :=
  if buf.length < size then
    match recv pending (size - buf.length) with
    | ([], pending) => (buf, pending)
    | (c :: read, pending) =>
      if done (buf ++ c :: read) then (buf ++ c :: read, pending)
      else receive done size (buf ++ c :: read) pending
  else (buf, pending)
termination_by size - buf.length
decreasing_by
  simp only [List.length_append, List.length_cons]
  omega

section Receive

variable {done : List α → Bool} {size : ℕ} {buf : List α} {pending rest : List (List α)}

/-- The end of the stream. -/
theorem receive_nothing (hroom : buf.length < size)
    (hrecv : recv pending (size - buf.length) = ([], rest)) :
    receive done size buf pending = (buf, rest) := by
  rw [receive, if_pos hroom, hrecv]

/-- Something arrives. -/
theorem receive_more {c : α} {read : List α} (hroom : buf.length < size)
    (hrecv : recv pending (size - buf.length) = (c :: read, rest)) :
    receive done size buf pending =
      if done (buf ++ c :: read) then (buf ++ c :: read, rest)
      else receive done size (buf ++ c :: read) rest := by
  rw [receive, if_pos hroom, hrecv]

/-- A full buffer. -/
theorem receive_full (hfull : ¬buf.length < size) :
    receive done size buf pending = (buf, pending) := by
  rw [receive, if_neg hfull]

end Receive

/-- How reading ends: the buffer holds the front of the stream, and either the test has succeeded on
it or it holds all that fits. -/
structure Received (done : List α → Bool) (size : ℕ) (stream : List α)
    (r : List α × List (List α)) : Prop where
  kept : r.1 ++ r.2.flatten = stream
  fits : r.1.length ≤ size
  live : Live r.2
  ends : done r.1 = true ∨ r.1 = stream.take size

/-- No character is lost. -/
theorem received_receive {done : List α → Bool} {size : ℕ} {buf : List α}
    {pending : List (List α)} (hlive : Live pending) (hbuf : buf.length ≤ size) :
    Received done size (buf ++ pending.flatten) (receive done size buf pending) := by
  fun_induction receive done size buf pending with
  | case1 buf pending hroom rest hrecv =>
    have hend := hlive.eq_nil_of_recv (by omega) hrecv
    subst hend
    cases hrecv
    refine ⟨rfl, hbuf, hlive, .inr ?_⟩
    rw [List.flatten_nil, List.append_nil, List.take_of_length_le hbuf]
  | case2 buf pending hroom c read rest hrecv hdone =>
    have happend := recv_append pending (size - buf.length)
    have hlength := length_recv_le pending (size - buf.length)
    have hrest := hlive.recv (size - buf.length)
    rw [hrecv] at happend hlength hrest
    refine ⟨?_, ?_, hrest, .inl hdone⟩
    · rw [List.append_assoc, happend]
    · simp only [List.length_append] at hlength ⊢
      omega
  | case3 buf pending hroom c read rest hrecv hdone ih =>
    have happend := recv_append pending (size - buf.length)
    have hlength := length_recv_le pending (size - buf.length)
    have hrest := hlive.recv (size - buf.length)
    rw [hrecv] at happend hlength hrest
    have hreceived := ih hrest (by simp only [List.length_append] at hlength ⊢; omega)
    rw [List.append_assoc, happend] at hreceived
    exact hreceived
  | case4 buf pending hfull =>
    refine ⟨rfl, hbuf, hlive, .inr ?_⟩
    rw [List.take_append_of_le_length (by omega), List.take_of_length_le hbuf]

/-- A test that a longer text passes when a shorter one does. -/
def Stable (good : List α → Prop) : Prop := ∀ s t, good s → good (s ++ t)

/-- What is in the buffer and still arrives becomes a good text: the part that fits is one, and no
segment ends where the test stops the reading on a text that is not good. -/
structure Becomes (done : List α → Bool) (good : List α → Prop) (size : ℕ) (buf : List α)
    (pending : List (List α)) : Prop where
  fits : good ((buf ++ pending.flatten).take size)
  unbroken : ∀ k, (buf ++ (pending.take k).flatten).length < size →
    done (buf ++ (pending.take k).flatten) = true → good (buf ++ (pending.take k).flatten)

section Becomes

variable {done : List α → Bool} {good : List α → Prop} {size : ℕ} {buf read : List α}
  {pending rest : List (List α)}

/-- A full buffer. -/
theorem becomes_full (hfull : buf.length = size) :
    Becomes done good size buf pending ↔ good buf := by
  have hstream : (buf ++ pending.flatten).take size = buf := by
    rw [List.take_append_of_le_length hfull.ge, List.take_of_length_le hfull.le]
  constructor
  · exact fun h => hstream ▸ h.fits
  · refine fun h => ⟨hstream.symm ▸ h, fun k hlt => ?_⟩
    rw [List.length_append] at hlt
    omega

/-- A buffer on which the test succeeds. -/
theorem becomes_done (hstable : Stable good) (hfits : buf.length ≤ size) (hdone : done buf = true) :
    Becomes done good size buf pending ↔ good buf := by
  constructor
  · intro h
    rcases Nat.lt_or_eq_of_le hfits with hlt | heq
    · -- The segments up to here end with this text.
      simpa using h.unbroken 0 (by simpa using hlt) (by simpa using hdone)
    · exact (becomes_full heq).mp h
  · refine fun h => ⟨?_, fun k _ _ => hstable _ _ h⟩
    rw [List.take_append, List.take_of_length_le hfits]
    exact hstable _ _ h

/-- Reading does not change what becomes of it, when the test has not succeeded before. -/
theorem becomes_recv (hroom : buf.length < size)
    (hrecv : recv pending (size - buf.length) = (read, rest)) (hopen : ¬done buf = true) :
    Becomes done good size buf pending ↔ Becomes done good size (buf ++ read) rest := by
  cases pending with
  | nil =>
    cases hrecv
    rw [List.append_nil]
  | cons segment pending =>
    rw [recv_cons] at hrecv
    split_ifs at hrecv with hle
    · -- The whole segment is read.
      cases hrecv
      constructor
      · refine fun h => ⟨?_, fun k hlt hdone => ?_⟩
        · simpa using h.fits
        · have := h.unbroken (k + 1)
          simp only [List.take_succ_cons, List.flatten_cons, ← List.append_assoc] at this
          exact this hlt hdone
      · refine fun h => ⟨by simpa using h.fits, fun k hlt hdone => ?_⟩
        cases k with
        | zero => exact absurd (by simpa using hdone) hopen
        | succ k =>
          simp only [List.take_succ_cons, List.flatten_cons, ← List.append_assoc] at hlt hdone ⊢
          exact h.unbroken k hlt hdone
    · -- A part of the segment fills the buffer.
      cases hrecv
      have hfull : (buf ++ segment.take (size - buf.length)).length = size := by
        rw [List.length_append, List.length_take]
        omega
      have hstream : (buf ++ (segment :: pending).flatten).take size =
          buf ++ segment.take (size - buf.length) := by
        rw [List.take_append, List.take_of_length_le hroom.le, List.flatten_cons,
          List.take_append_of_le_length (by omega)]
      rw [becomes_full hfull]
      constructor
      · exact fun h => hstream ▸ h.fits
      · refine fun h => ⟨hstream.symm ▸ h, fun k hlt hdone => ?_⟩
        cases k with
        | zero => exact absurd (by simpa using hdone) hopen
        | succ k =>
          simp only [List.take_succ_cons, List.flatten_cons, List.length_append] at hlt
          omega

/-- Reading ends with a good text exactly when what is in the buffer and arrives becomes one. -/
theorem good_receive_iff (hstable : Stable good) (hgood : ∀ s, good s → done s = true)
    (hlive : Live pending) (hbuf : buf.length ≤ size) (hopen : ¬done buf = true) :
    good (receive done size buf pending).1 ↔ Becomes done good size buf pending := by
  fun_induction receive done size buf pending with
  | case1 buf pending hroom rest hrecv =>
    have hend := hlive.eq_nil_of_recv (by omega) hrecv
    subst hend
    refine iff_of_false (fun h => hopen (hgood _ h)) fun h => hopen (hgood _ ?_)
    simpa [List.take_of_length_le hbuf] using h.fits
  | case2 buf pending hroom c read rest hrecv hdone =>
    have hlength := length_recv_le pending (size - buf.length)
    rw [hrecv] at hlength
    rw [becomes_recv hroom hrecv hopen, becomes_done hstable _ hdone]
    simp only [List.length_append] at hlength ⊢
    omega
  | case3 buf pending hroom c read rest hrecv hdone ih =>
    have hlength := length_recv_le pending (size - buf.length)
    have hrest := hlive.recv (size - buf.length)
    rw [hrecv] at hlength hrest
    rw [becomes_recv hroom hrecv hopen]
    refine ih hrest ?_ hdone
    simp only [List.length_append] at hlength ⊢
    omega
  | case4 buf pending hfull => rw [becomes_full (by omega)]

end Becomes

end CLib
