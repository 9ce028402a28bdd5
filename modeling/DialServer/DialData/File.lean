import DialServer.Source.DialData

/-!
# The format of the data file

`print_dial_data` writes a line for each pair and `fscanf_pairs` reads words two at a time. Reading
gives the pairs back, cut to the limit of both formats, when no key has white space within the
limit (`fscanf_pairs_print`); whatever the file, no key that is read has white space.
-/

namespace DialServer

open CLib Program

/-- A pair cut to the characters that the file keeps. -/
def cut_pair (d : DIALData) : DIALData :=
  ⟨d.key.take DIAL_KEY_OR_VALUE_MAX_LEN, d.value.take DIAL_KEY_OR_VALUE_MAX_LEN⟩

/-- A text without white space and terminators. -/
def IsWord (s : Bytes) : Prop := s ≠ [] ∧ ∀ c ∈ s, isspace c = false ∧ c ≠ 0

/-- What the reader goes by, without the proofs for its termination. -/
theorem fscanf_pairs_eq (value file : Bytes) : fscanf_pairs value file =
    match scan_s (some DIAL_KEY_OR_VALUE_MAX_LEN) file with
    | none => []
    | some (key, rest) =>
      match scan_s (some DIAL_KEY_OR_VALUE_MAX_LEN) rest with
      | none => ⟨cstr key, value⟩ :: fscanf_pairs value []
      | some (value', rest') => ⟨cstr key, cstr value'⟩ :: fscanf_pairs (cstr value') rest' := by
  rw [fscanf_pairs]
  split
  · simp [*]
  · split <;> simp [*]

/-- An empty file has no pairs. -/
@[simp] theorem fscanf_pairs_nil (value : Bytes) : fscanf_pairs value [] = [] := by
  rw [fscanf_pairs_eq, scan_s_nil]

/-- White space between lines does not matter. -/
theorem fscanf_pairs_cons_space {c : UInt8} (h : isspace c = true) (value file : Bytes) :
    fscanf_pairs value (c :: file) = fscanf_pairs value file := by
  rw [fscanf_pairs_eq, scan_s_cons_space h, ← fscanf_pairs_eq]

/-- A word within the limit, with white space behind it. -/
theorem scan_s_field {w : Bytes} (hw : IsWord (w.take DIAL_KEY_OR_VALUE_MAX_LEN)) {c : UInt8}
    (hc : isspace c = true) (rest : Bytes) :
    scan_s (some DIAL_KEY_OR_VALUE_MAX_LEN) (print_s DIAL_KEY_OR_VALUE_MAX_LEN w ++ c :: rest) =
      some (w.take DIAL_KEY_OR_VALUE_MAX_LEN, c :: rest) := by
  refine scan_s_word hw.1 (fun c hc => (hw.2 c hc).1) ?_ ?_
  · rintro n ⟨⟩
    exact List.length_take_le ..
  · rintro _ _ ⟨⟩
    exact hc

/-- A word is the whole of its buffer. -/
theorem IsWord.cstr_eq {w : Bytes} (h : IsWord w) : cstr w = w :=
  cstr_of_notMem fun hmem => (h.2 0 hmem).2 rfl

/-- A line is read back as the pair that it was written for. -/
theorem fscanf_pairs_line {d : DIALData} (hkey : IsWord (cut_pair d).key)
    (hvalue : IsWord (cut_pair d).value) (value rest : Bytes) :
    fscanf_pairs value (print_pair d ++ rest) =
      cut_pair d :: fscanf_pairs (cut_pair d).value rest := by
  have hblank : isspace (chr ' ') = true := rfl
  have hnewline : isspace (chr '\n') = true := rfl
  have hline : print_pair d ++ rest = print_s DIAL_KEY_OR_VALUE_MAX_LEN d.key ++
      chr ' ' :: (print_s DIAL_KEY_OR_VALUE_MAX_LEN d.value ++ chr '\n' :: rest) := by
    simp [print_pair]
  have hkey_cstr : cstr (d.key.take DIAL_KEY_OR_VALUE_MAX_LEN) =
      d.key.take DIAL_KEY_OR_VALUE_MAX_LEN := hkey.cstr_eq
  have hvalue_cstr : cstr (d.value.take DIAL_KEY_OR_VALUE_MAX_LEN) =
      d.value.take DIAL_KEY_OR_VALUE_MAX_LEN := hvalue.cstr_eq
  calc fscanf_pairs value (print_pair d ++ rest)
      = cut_pair d :: fscanf_pairs (cut_pair d).value (chr '\n' :: rest) := by
        rw [hline, fscanf_pairs_eq, scan_s_field hkey hblank]
        simp only [scan_s_cons_space hblank, scan_s_field hvalue hnewline, hkey_cstr, hvalue_cstr,
          cut_pair]
    _ = cut_pair d :: fscanf_pairs (cut_pair d).value rest := by
        rw [fscanf_pairs_cons_space hnewline]

/-- **Round trip.** Pairs of words are read back as they were written. -/
theorem fscanf_pairs_print {data : List DIALData}
    (h : ∀ d ∈ data, IsWord (cut_pair d).key ∧ IsWord (cut_pair d).value) (value : Bytes) :
    fscanf_pairs value (print_dial_data data) = data.map cut_pair := by
  -- The buffer of the value changes with each line, so that the induction is over all its contents.
  induction data generalizing value with
  | nil => exact fscanf_pairs_nil value
  | cons d data ih =>
    obtain ⟨⟨hkey, hvalue⟩, hdata⟩ := List.forall_mem_cons.mp h
    rw [print_dial_data, List.flatMap_cons, fscanf_pairs_line hkey hvalue, List.map_cons]
    exact congrArg _ (ih hdata _)

/-- What a buffer holds is a part of what was stored there. -/
theorem cstr_is_part (s : Bytes) : cstr s <+: s := List.takeWhile_prefix _

/-- A buffer of the reader is free of white space and within the limit. -/
theorem scan_s_buffer {s w rest : Bytes}
    (h : scan_s (some DIAL_KEY_OR_VALUE_MAX_LEN) s = some (w, rest)) :
    (∀ c ∈ cstr w, isspace c = false) ∧ (cstr w).length ≤ DIAL_KEY_OR_VALUE_MAX_LEN := by
  obtain ⟨hspace, hlimit⟩ := scan_s_stored h
  exact ⟨fun c hc => hspace c ((cstr_is_part w).mem hc),
    (cstr_is_part w).length_le.trans (hlimit _ rfl)⟩

/-- Whatever the file, what is read are pairs within the limit, and no key has white space. -/
theorem fscanf_pairs_read {value file : Bytes} (hvalue : value.length ≤ DIAL_KEY_OR_VALUE_MAX_LEN) :
    ∀ d ∈ fscanf_pairs value file, (∀ c ∈ d.key, isspace c = false) ∧ cut_pair d = d := by
  have hcut : ∀ {key value : Bytes}, key.length ≤ DIAL_KEY_OR_VALUE_MAX_LEN →
      value.length ≤ DIAL_KEY_OR_VALUE_MAX_LEN → cut_pair ⟨key, value⟩ = ⟨key, value⟩ := by
    intro key value hkey hvalue
    simp [cut_pair, List.take_of_length_le hkey, List.take_of_length_le hvalue]
  induction hn : file.length using Nat.strong_induction_on generalizing value file with
  | _ n ih =>
    rw [fscanf_pairs_eq]
    cases hk : scan_s (some DIAL_KEY_OR_VALUE_MAX_LEN) file with
    | none => simp
    | some r =>
      obtain ⟨key, rest⟩ := r
      obtain ⟨hspace, hkey⟩ := scan_s_buffer hk
      cases hv : scan_s (some DIAL_KEY_OR_VALUE_MAX_LEN) rest with
      | none =>
        -- The file ends behind a key, which is paired with the value of the call before.
        simp only [hv, fscanf_pairs_nil, List.forall_mem_singleton]
        exact ⟨hspace, hcut hkey hvalue⟩
      | some r =>
        obtain ⟨value', rest'⟩ := r
        have hvalue' := (scan_s_buffer hv).2
        have hlt := scan_s_length_lt hk (by decide)
        have hlt' := scan_s_length_lt hv (by decide)
        simp only [hv, List.forall_mem_cons]
        exact ⟨⟨hspace, hcut hkey hvalue'⟩, ih rest'.length (by omega) hvalue' rfl⟩

end DialServer
