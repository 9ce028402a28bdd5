import DialServer.DialData.Pairs
import DialServer.Status.AdditionalData

/-!
# The places of the report

Where `handle_app_status` writes in its buffer. `smartstrncpy` puts its terminator behind the
characters it copies, and each call is given all that is left of the buffer for the characters
alone. So the terminator is behind the buffer as soon as the buffer is full, which it is if and only
if what is printed has as many characters as the buffer.
-/

set_option maxRecDepth 8000

namespace DialServer

open CLib Program

/-! ## The writes -/

/-- The places that `smartstrncpy` writes, in order: those of the characters, that of the terminator
of the source when the loop comes to it, and that of the terminator behind the loop. -/
def smartstrncpy_writes : ℕ → Bytes → ℕ → List ℕ
  | dest, _, 0 => [dest]
  | dest, [], _ + 1 => [dest, dest]
  | dest, _ :: src, max_chars + 1 => dest :: smartstrncpy_writes (dest + 1) src max_chars

/-- A call of `smartstrncpy` on the buffer `dial_data`, with the places it writes. The pointer is
behind the text that it is given, and so it is behind the text that is returned. -/
def copy (p src : Bytes) : Program Supply ℕ Bytes := fun supply =>
  some (smartstrncpy p src (DIAL_DATA_SIZE - p.length),
    smartstrncpy_writes p.length src (DIAL_DATA_SIZE - p.length), supply)

/-- A part of the loop that does not write to the buffer. -/
def elsewhere {α : Type} (q : Alloc α) : Program Supply ℕ α :=
  Program.within id (fun supply _ => supply) q

/-- The loop of `handle_app_status` over the dial data, with the places it writes. -/
def additional_data_writes : List DIALData → Bytes → Program Supply ℕ (Option Bytes)
  | [], p => return some p
  | first :: rest, p => do
    let p ← copy p (bytes "    <")
    if !(← elsewhere request) then return none
    else
      match ← elsewhere (url_decode_xml_encode first.key first.key.length) with
      | none => return none
      | some encoded_key =>
        if !(← elsewhere request) then return none
        else
          match ← elsewhere (url_decode_xml_encode first.value first.value.length) with
          | none => return none
          | some encoded_value =>
            let p ← copy p encoded_key
            let p ← copy p (bytes ">")
            let p ← copy p encoded_value
            let p ← copy p (bytes "</")
            let p ← copy p encoded_key
            let p ← copy p (bytes ">")
            additional_data_writes rest p

/-- Without the places, a copy is a value. -/
theorem silenced_copy (p src : Bytes) :
    silenced (copy p src) = pure (smartstrncpy p src (DIAL_DATA_SIZE - p.length)) := rfl

/-- Without the places, a part that writes none is what it was. -/
theorem silenced_elsewhere {α : Type} (q : Alloc α) : silenced (elsewhere q) = q := by
  funext supply
  simp only [silenced, elsewhere, within, id_eq]
  cases q supply with
  | none => rfl
  | some r => exact congrArg some (Prod.ext rfl (Prod.ext (Subsingleton.elim _ _) rfl))

/-- Without the places, the loop is the loop of `handle_app_status`. -/
theorem silenced_additional_data_writes (data : List DIALData) (p : Bytes) :
    silenced (additional_data_writes data p) = additional_data_loop data p := by
  induction data generalizing p with
  | nil => rfl
  | cons first rest ih =>
    rw [additional_data_writes, additional_data_loop, silenced_bind, silenced_copy, ret_bind,
      silenced_bind, silenced_elsewhere]
    apply congrArg
    funext granted
    cases granted with
    | false => rfl
    | true =>
      show silenced (elsewhere _ >>= _) = _ >>= _
      rw [silenced_bind, silenced_elsewhere]
      apply congrArg
      funext encoded_key
      cases encoded_key with
      | none => rfl
      | some encoded_key =>
        show silenced (elsewhere _ >>= _) = _ >>= _
        rw [silenced_bind, silenced_elsewhere]
        apply congrArg
        funext granted
        cases granted with
        | false => rfl
        | true =>
          show silenced (elsewhere _ >>= _) = _ >>= _
          rw [silenced_bind, silenced_elsewhere]
          apply congrArg
          funext encoded_value
          cases encoded_value with
          | none => rfl
          | some encoded_value =>
            simp only [silenced_bind, silenced_copy, ret_bind, ih]
/-- The texts that one pair adds. -/
def element_parts (name content : Bytes) : List Bytes :=
  [bytes "    <", name, bytes ">", content, bytes "</", name, bytes ">"]

/-- Calls of `smartstrncpy` one after another. -/
def copies : List Bytes → Bytes → Program Supply ℕ Bytes
  | [], p => return p
  | src :: srcs, p => do
    let p ← copy p src
    copies srcs p

/-- The texts of a pair are an element. -/
theorem element_parts_flatten (name content : Bytes) :
    (element_parts name content).flatten = element name content := by
  simp [element_parts, element]

/-- A request outside the buffer. -/
theorem elsewhere_request (supply : Supply) :
    elsewhere request supply = some (supply 0, [], supply.after 1) := rfl

/-- A part that is decoded and escaped outside the buffer. -/
theorem elsewhere_part (src : Bytes) (supply : Supply) :
    elsewhere (url_decode_xml_encode src src.length) supply =
      some (if supply 0 then some (encoded src) else none, [], supply.after 1) := by
  unfold elsewhere within url_decode_xml_encode
  cases h : supply 0 <;> simp [bind_apply, request, h, encoded]

section Round

variable (first : DIALData) (rest : List DIALData) (p : Bytes) {supply : Supply}

/-- A round of the loop with memory. -/
theorem additional_data_writes_granted (h : ∀ i < 4, supply i = true) :
    additional_data_writes (first :: rest) p supply =
      (do
        let p ← copies (element_parts (encoded first.key) (encoded first.value)) p
        additional_data_writes rest p : Program Supply ℕ (Option Bytes)) (supply.after 4) := by
  have hafter (i : ℕ) (hi : i < 4) : supply.after i 0 = true := by
    rw [Supply.after, Nat.zero_add]
    exact h i hi
  have hnext (i : ℕ) : (supply.after i).after 1 = supply.after (i + 1) := by
    funext n
    simp only [Supply.after]
    congr 1
    omega
  have hopen (supply : Supply) : copy p (bytes "    <") supply = some (_, _, supply) := rfl
  rw [additional_data_writes, bind_of_some (hopen supply), bind_of_quiet (elsewhere_request supply),
    h 0 (by omega)]
  simp only [Bool.not_true, Bool.false_eq_true, if_false]
  rw [bind_of_quiet (elsewhere_part first.key _), hafter 1 (by omega), hnext]
  simp only [if_true]
  rw [bind_of_quiet (elsewhere_request _), hafter 2 (by omega), hnext]
  simp only [Bool.not_true, Bool.false_eq_true, if_false]
  rw [bind_of_quiet (elsewhere_part first.value _), hafter 3 (by omega), hnext]
  simp only [if_true, copies, element_parts, bind_bind, ret_bind]
  rw [bind_of_some (hopen _)]

/-- A round that lacks memory leaves the start of a tag. -/
theorem additional_data_writes_refused (h : ¬∀ i < 4, supply i = true) :
    ∃ supply', additional_data_writes (first :: rest) p supply = some (none,
      smartstrncpy_writes p.length (bytes "    <") (DIAL_DATA_SIZE - p.length), supply') := by
  have hopen : copy p (bytes "    <") supply = some (_, _, supply) := rfl
  rw [additional_data_writes, bind_of_some hopen, bind_of_quiet (elsewhere_request supply)]
  cases h0 : supply 0 with
  | false => exact ⟨supply.after 1, by simp⟩
  | true =>
    simp only [Bool.not_true, Bool.false_eq_true, if_false]
    rw [bind_of_quiet (elsewhere_part first.key _)]
    cases h1 : supply.after 1 0 with
    | false => exact ⟨(supply.after 1).after 1, by simp⟩
    | true =>
      simp only [if_true]
      rw [bind_of_quiet (elsewhere_request _)]
      cases h2 : (supply.after 1).after 1 0 with
      | false => exact ⟨((supply.after 1).after 1).after 1, by simp⟩
      | true =>
        simp only [Bool.not_true, Bool.false_eq_true, if_false]
        rw [bind_of_quiet (elsewhere_part first.value _)]
        cases h3 : ((supply.after 1).after 1).after 1 0 with
        | false => exact ⟨(((supply.after 1).after 1).after 1).after 1, by simp⟩
        | true =>
          refine absurd (fun i hi => ?_) h
          interval_cases i
          · exact h0
          · exact h1
          · exact h2
          · exact h3

end Round

/-! ## The bound -/

/-- `smartstrncpy` writes all places from the pointer it is given to the one it returns. -/
theorem mem_smartstrncpy_writes (dest : ℕ) (src : Bytes) (max_chars i : ℕ) :
    i ∈ smartstrncpy_writes dest src max_chars ↔
      dest ≤ i ∧ i ≤ dest + min max_chars src.length := by
  induction max_chars generalizing dest src with
  | zero =>
    rw [smartstrncpy_writes, List.mem_singleton]
    omega
  | succ max_chars ih =>
    cases src with
    | nil =>
      rw [smartstrncpy_writes, List.mem_pair, List.length_nil]
      omega
    | cons c src =>
      rw [smartstrncpy_writes, List.mem_cons, ih, List.length_cons]
      omega

/-- Calls one after another take what fits, write nothing behind the end of it, and write there. -/
theorem copies_apply (srcs : List Bytes) {p : Bytes} (hp : p.length ≤ DIAL_DATA_SIZE)
    (supply : Supply) :
    ∃ w, copies srcs p supply = some ((p ++ srcs.flatten).take DIAL_DATA_SIZE, w, supply) ∧
      (∀ i ∈ w, i ≤ ((p ++ srcs.flatten).take DIAL_DATA_SIZE).length) ∧
      (srcs ≠ [] → ((p ++ srcs.flatten).take DIAL_DATA_SIZE).length ∈ w) := by
  induction srcs generalizing p with
  | nil =>
    rw [List.flatten_nil, List.append_nil, List.take_of_length_le hp]
    exact ⟨[], rfl, by simp, by simp⟩
  | cons src srcs ih =>
    set q := (p ++ src).take DIAL_DATA_SIZE with hq
    obtain ⟨w, hrun, hle, hlast⟩ := @ih q (List.length_take_le ..)
    have hcopy : copy p src supply =
        some (q, smartstrncpy_writes p.length src (DIAL_DATA_SIZE - p.length), supply) := by
      rw [copy, smartstrncpy_eq_take hp]
    have hresult : (q ++ srcs.flatten).take DIAL_DATA_SIZE =
        (p ++ (src :: srcs).flatten).take DIAL_DATA_SIZE := by
      rw [hq, take_append_take, List.flatten_cons, List.append_assoc]
    have hmono : q.length ≤ ((p ++ (src :: srcs).flatten).take DIAL_DATA_SIZE).length := by
      simp only [hq, List.length_take, List.length_append, List.flatten_cons]
      omega
    have hlength : q.length = p.length + min (DIAL_DATA_SIZE - p.length) src.length := by
      simp only [hq, List.length_take, List.length_append]
      omega
    rw [hresult] at hrun hle hlast
    refine ⟨smartstrncpy_writes p.length src (DIAL_DATA_SIZE - p.length) ++ w, ?_, ?_, fun _ => ?_⟩
    · rw [copies, bind_of_some hcopy, hrun]
      rfl
    · intro i hi
      rcases List.mem_append.mp hi with hi | hi
      · rw [mem_smartstrncpy_writes, ← hlength] at hi
        exact hi.2.trans hmono
      · exact hle i hi
    · rw [List.mem_append]
      cases srcs with
      | nil =>
        -- The last call returns the place of its terminator.
        left
        rw [mem_smartstrncpy_writes, ← hlength, List.flatten_cons, List.flatten_nil,
          List.append_nil, ← hq]
        exact ⟨by omega, le_rfl⟩
      | cons src' srcs => exact .inr (hlast (by simp))

/-- What is printed for a list is an element and what is printed for the rest. -/
theorem printed_cons (first : DIALData) (rest : List DIALData) :
    printed (first :: rest) = element (encoded first.key) (encoded first.value) ++ printed rest :=
  rfl

/-- Nothing is written behind the end of what fits. -/
theorem additional_data_writes_le {data : List DIALData} {p : Bytes}
    (hp : p.length ≤ DIAL_DATA_SIZE) {supply supply' : Supply} {r : Option Bytes} {w : List ℕ}
    (h : additional_data_writes data p supply = some (r, w, supply')) :
    (∀ i ∈ w, i ≤ ((p ++ printed data).take DIAL_DATA_SIZE).length) ∧
      ∀ q, r = some q → q = (p ++ printed data).take DIAL_DATA_SIZE := by
  induction data generalizing p supply w with
  | nil =>
    simp only [additional_data_writes, pure_apply, Option.some.injEq, Prod.mk.injEq] at h
    obtain ⟨rfl, rfl, -⟩ := h
    refine ⟨by simp, fun q hq => ?_⟩
    rw [printed, List.flatMap_nil, List.append_nil, List.take_of_length_le hp]
    exact (Option.some.inj hq).symm
  | cons first rest ih =>
    by_cases hgranted : ∀ i < 4, supply i = true
    · rw [additional_data_writes_granted first rest p hgranted] at h
      obtain ⟨w₁, hcopies, hle₁, -⟩ :=
        copies_apply (element_parts (encoded first.key) (encoded first.value)) hp (supply.after 4)
      rw [element_parts_flatten] at hcopies hle₁
      rw [bind_of_some hcopies] at h
      obtain ⟨⟨r', w₂, s⟩, hrest, heq⟩ := Option.map_eq_some_iff.mp h
      obtain ⟨rfl, rfl, rfl⟩ : r' = r ∧ w₁ ++ w₂ = w ∧ s = supply' := by simpa using heq
      obtain ⟨hle₂, hresult⟩ := ih (List.length_take_le ..) hrest
      rw [take_append_take, List.append_assoc, ← printed_cons] at hle₂ hresult
      refine ⟨fun i hi => ?_, hresult⟩
      rcases List.mem_append.mp hi with hi | hi
      · refine (hle₁ i hi).trans ?_
        simp only [printed_cons, List.length_take, List.length_append]
        omega
      · exact hle₂ i hi
    · -- The round gives up behind its first call.
      obtain ⟨s, hrun⟩ := additional_data_writes_refused first rest p hgranted
      rw [h, Option.some.injEq, Prod.mk.injEq, Prod.mk.injEq] at hrun
      obtain ⟨rfl, rfl, -⟩ := hrun
      refine ⟨fun i hi => ?_, by simp⟩
      rw [mem_smartstrncpy_writes] at hi
      have hopen : (bytes "    <").length ≤ (printed (first :: rest)).length := by
        rw [printed_cons, element]
        simp only [List.length_append]
        omega
      rw [List.length_take, List.length_append]
      omega

/-- With memory the end of what fits is written. -/
theorem additional_data_writes_plenty {data : List DIALData} (hne : data ≠ []) {p : Bytes}
    (hp : p.length ≤ DIAL_DATA_SIZE) :
    ∃ r w, additional_data_writes data p plenty = some (r, w, plenty) ∧
      ((p ++ printed data).take DIAL_DATA_SIZE).length ∈ w := by
  induction data generalizing p with
  | nil => exact absurd rfl hne
  | cons first rest ih =>
    obtain ⟨w₁, hcopies, -, hlast₁⟩ :=
      copies_apply (element_parts (encoded first.key) (encoded first.value)) hp plenty
    rw [element_parts_flatten] at hcopies hlast₁
    have hround := @additional_data_writes_granted first rest p plenty fun _ _ => rfl
    have hafter : plenty.after 4 = plenty := rfl
    rw [hafter, bind_of_some hcopies] at hround
    rw [hround]
    cases rest with
    | nil =>
      refine ⟨_, _, rfl, ?_⟩
      have hnil : printed [] = [] := rfl
      simp only [printed_cons, hnil, List.append_nil]
      exact hlast₁ (by simp [element_parts])
    | cons second rest =>
      obtain ⟨r, w₂, hrest, hlast⟩ := @ih (by simp)
        ((p ++ element (encoded first.key) (encoded first.value)).take DIAL_DATA_SIZE)
        (List.length_take_le ..)
      rw [take_append_take, List.append_assoc, ← printed_cons] at hlast
      rw [hrest]
      exact ⟨r, w₁ ++ w₂, rfl, List.mem_append_right _ hlast⟩

/-- All places that `handle_app_status` writes for a list are in its buffer, whatever memory there
is, and so is the one that `p` ends at. -/
def InBounds (data : List DIALData) : Prop :=
  ∀ supply r w supply', additional_data_writes data [] supply = some (r, w, supply') →
    (∀ i ∈ w, i < DIAL_DATA_SIZE) ∧ ∀ p, r = some p → p.length < DIAL_DATA_SIZE

/-- The characters that are printed: nine for a pair, its key twice and its value once. -/
theorem printed_length (data : List DIALData) : (printed data).length =
    (data.map fun d => 9 + 2 * (encoded d.key).length + (encoded d.value).length).sum := by
  induction data with
  | nil => rfl
  | cons d data ih =>
    have hopen : (bytes "    <").length = 5 := rfl
    have hclose : (bytes ">").length = 1 := rfl
    have hend : (bytes "</").length = 2 := rfl
    rw [printed_cons, List.length_append, ih, List.map_cons, List.sum_cons, element]
    simp only [List.length_append, hopen, hclose, hend]
    omega

/-- Where what is printed fills the buffer, a terminator is written behind it. -/
theorem not_inBounds_of_full {data : List DIALData}
    (hfull : DIAL_DATA_SIZE ≤ (printed data).length) : ¬InBounds data := by
  intro h
  have hne : data ≠ [] := by
    rintro rfl
    exact absurd hfull (by decide)
  obtain ⟨r, w, hrun, hlast⟩ := @additional_data_writes_plenty data hne [] (Nat.zero_le _)
  have hlt := (h plenty r w plenty hrun).1 _ hlast
  rw [List.nil_append, List.length_take] at hlt
  omega

/-- **The report stays in its buffer** if and only if what is printed is shorter than the buffer. -/
theorem report_in_bounds_iff (data : List DIALData) :
    InBounds data ↔
      (data.map fun d => 9 + 2 * (encoded d.key).length + (encoded d.value).length).sum <
        DIAL_DATA_SIZE := by
  rw [← printed_length]
  constructor
  · intro h
    by_contra hfull
    exact not_inBounds_of_full (Nat.le_of_not_lt hfull) h
  · intro hshort supply r w supply' hrun
    obtain ⟨hle, hresult⟩ := additional_data_writes_le (Nat.zero_le _) hrun
    rw [List.nil_append, List.take_of_length_le hshort.le] at hle hresult
    exact ⟨fun i hi => (hle i hi).trans_lt hshort, fun p hp => hresult p hp ▸ hshort⟩

/-! ## A request that fills the buffer -/

/-- A part without escapes and characters that are escaped is printed as it is. -/
theorem encoded_plain {src : Bytes}
    (h : ∀ c ∈ src, c ≠ chr '+' ∧ c ≠ chr '%' ∧ c ≠ 0 ∧ xml_entity c = none) :
    encoded src = src := by
  have hdecode : url_decoded src = some src :=
    url_decoded_plain fun c hc => ⟨(h c hc).1, (h c hc).2.1⟩
  have hzero : (0 : UInt8) ∉ src := fun hmem => (h 0 hmem).2.2.1 rfl
  have hescape : xml_escape src = src := by
    have hchar : ∀ c ∈ src, xml_char c = [c] := fun c hc => xml_char_of_none (h c hc).2.2.2
    rw [xml_escape, List.flatMap_congr hchar, List.flatMap_singleton']
  have hfits : XmlFits src (2 * src.length) := by
    intro c hlast
    have hpos := List.length_pos_of_mem (List.mem_of_getLast? hlast)
    rw [hescape]
    exact .inl (by omega)
  rw [encoded, urldecode_eq hdecode, cstr_of_notMem hzero, (xmlencode_eq_iff _ _).mpr hfits,
    hescape]

/-- A pair that takes a whole payload. -/
def long_pair : DIALData := ⟨List.replicate 4094 (chr 'a'), bytes "1"⟩

/-- It can be printed. -/
theorem long_pair_printable : PrintablePair long_pair := by
  have hkey : ∀ c ∈ long_pair.key, c = chr 'a' := fun c hc => (List.mem_replicate.mp hc).2
  have hletter : isprint (chr 'a') = true ∧ chr 'a' ≠ chr '&' ∧ chr 'a' ≠ chr '=' := by decide
  have hlength : long_pair.key.length = 4094 := List.length_replicate
  constructor
  · exact List.ne_nil_of_length_pos (hlength ▸ by omega)
  · exact fun c hc => hkey c hc ▸ hletter.1
  · exact fun hmem => hletter.2.1 (hkey _ hmem).symm
  · exact fun hmem => hletter.2.2 (hkey _ hmem).symm
  · show (List.replicate 4094 (chr 'a')).head? ≠ some (chr '?')
    rw [List.head?_replicate]
    decide
  all_goals decide

/-- What is printed for it is longer than the buffer. -/
theorem long_pair_printed : DIAL_DATA_SIZE ≤ (printed [long_pair]).length := by
  have hkey : encoded long_pair.key = long_pair.key := by
    refine encoded_plain fun c hc => ?_
    obtain rfl : c = chr 'a' := (List.mem_replicate.mp hc).2
    decide
  have hlength : long_pair.key.length = 4094 := List.length_replicate
  rw [printed_length, List.map_singleton, List.sum_singleton, hkey, hlength]
  show 8192 ≤ _
  omega

/-- A request with this pair is accepted, and the next report of the application writes behind its
buffer. -/
theorem accepted_pair_fills_buffer :
    ∃ e t, handle_dial_data (with_body (pair_token long_pair))
        (data_request (bytes "POST") none) (bytes "YouTube") none true youtube_server =
          some ((), e, t) ∧
      answer e = some (bytes "200") ∧ dial_data_of t (bytes "YouTube") = some [long_pair] ∧
      ¬InBounds [long_pair] := by
  have hregistered : bytes "YouTube" ∈ youtube_server.apps.map DIALApp.name := by decide
  have hlength : (pair_token long_pair).length = DIAL_DATA_MAX_PAYLOAD := by
    rw [pair_token, List.length_append, List.length_cons]
    exact congrArg (· + 2) List.length_replicate
  have hreceives : Receives (with_body (pair_token long_pair)) (pair_token long_pair) :=
    ⟨rfl, rfl, by simp [with_body], by simp [with_body]⟩
  have hbody : dial_data_body (with_body (pair_token long_pair))
      (data_request (bytes "POST") none) true = pair_token long_pair := by
    rw [dial_data_body, if_pos rfl, mg_read_received hreceives, List.take_of_length_le hlength.le]
  have hgood : isBadPayload (pair_token long_pair) = false := by
    have hchar : ∀ c : UInt8, isprint c = true →
        (c &&& 0x80 = 0x80 || c = 0x7f || c ≤ 0x1f) = false := by
      decide
    unfold isBadPayload
    rw [List.any_eq_false]
    intro c hc
    simp [hchar c (long_pair_printable.token.printable c hc)]
  obtain ⟨⟨⟩, e, t, h, -⟩ := returns_handle_dial_data (with_body (pair_token long_pair))
    (data_request (bytes "POST") none) (bytes "YouTube") none true youtube_server ⟨rfl, rfl⟩
  refine ⟨e, t, h, ?_⟩
  cases handle_dial_data_cases h with
  | refused hrefused =>
    rw [hbody, hgood] at hrefused
    rcases hrefused with hsupply | habsent | hlong | hbad
    · exact absurd hsupply (by decide)
    · exact absurd hregistered habsent
    · exact absurd hlong.1 (by decide)
    · exact absurd hbad (by decide)
  | @replaced e' data supply _ _ _ _ hanswer hparse =>
    have hquery : Query ([long_pair].map pair_token) (pair_token long_pair) :=
      ⟨_, .last _, .inl rfl⟩
    have hread := parse_params_query (List.cons_ne_nil _ _)
      (List.forall_mem_singleton.mpr long_pair_printable) hquery
    have hafter : youtube_server.supply.after 1 = plenty := rfl
    rw [hbody, cstr_of_notMem (zero_notMem_of_isBadPayload hgood), hafter, hread] at hparse
    obtain rfl : [long_pair].reverse = data := congrArg (fun r => r.1) (Option.some.inj hparse)
    exact ⟨hanswer, dial_data_of_modify hregistered rfl, not_inBounds_of_full long_pair_printed⟩

end DialServer
