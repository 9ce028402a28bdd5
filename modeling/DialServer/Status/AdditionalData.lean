import DialServer.DialData.Replace
import DialServer.Text.Decoding
import DialServer.Text.Escaping

/-!
# The additional data of a status answer

A status request prints the dial data into a buffer, each key and value URL-decoded and
XML-escaped within a bound of its own, and the buffer into an answer of bounded length. What is
printed is always a part of the full report, and all of it if and only if each part fits its bound
and the report fits the answer.
-/

set_option maxRecDepth 8000

namespace DialServer

open CLib Program

variable {W : Type}

/-! ## The report -/

/-- The text that a URL-encoded part of a pair stands for, when it is well formed. -/
def decoded (src : Bytes) : Bytes := (url_decoded src).getD []

/-- The escapes are well formed and none of them stands for a terminator. -/
def Decodable (src : Bytes) : Prop := (url_decoded src).isSome ∧ 0 ∉ decoded src

/-- An element with a name and a content. -/
def element (name content : Bytes) : Bytes :=
  bytes "    <" ++ name ++ bytes ">" ++ content ++ bytes "</" ++ name ++ bytes ">"

/-- The full report of the dial data: an element for each pair. -/
def report (data : List DIALData) : Bytes :=
  data.flatMap fun d => element (xml_escape (decoded d.key)) (xml_escape (decoded d.value))

/-- What `url_decode_xml_encode` leaves of a part. -/
def encoded (src : Bytes) : Bytes := xmlencode (cstr (urldecode src src.length).1) (2 * src.length)

/-- What is printed for the dial data. -/
def printed (data : List DIALData) : Bytes :=
  data.flatMap fun d => element (encoded d.key) (encoded d.value)

/-- The escaped text of a part fits the bound that it is given, twice the length of the part. -/
def PartFits (src : Bytes) : Prop := XmlFits (decoded src) (2 * src.length)

/-- Whether a part can be decoded is found out by decoding it. -/
instance (src : Bytes) : Decidable (Decodable src) :=
  inferInstanceAs (Decidable (_ ∧ _))

/-- Whether a part fits is a question about its decoded text. -/
instance (src : Bytes) : Decidable (PartFits src) :=
  inferInstanceAs (Decidable (XmlFits _ _))

/-- What is left of a part comes from the whole of its decoded text, if it can be decoded. -/
theorem encoded_eq {src : Bytes} (h : Decodable src) :
    encoded src = xmlencode (decoded src) (2 * src.length) := by
  obtain ⟨hsome, hzero⟩ := h
  obtain ⟨dst, hdst⟩ := Option.isSome_iff_exists.mp hsome
  have hdecoded : decoded src = dst := by simp [decoded, hdst]
  rw [hdecoded] at hzero ⊢
  rw [encoded, urldecode_eq hdst, cstr_of_notMem hzero]

/-- A part is never longer than its full form, and as long only if it fits. -/
theorem encoded_length {src : Bytes} (h : Decodable src) :
    (encoded src).length ≤ (xml_escape (decoded src)).length ∧
      ((encoded src).length = (xml_escape (decoded src)).length ↔ PartFits src) ∧
      (PartFits src → encoded src = xml_escape (decoded src)) := by
  have hsub := xmlencode_sublist (decoded src) (2 * src.length)
  rw [encoded_eq h, PartFits, ← xmlencode_eq_iff]
  exact ⟨hsub.length_le, ⟨hsub.eq_of_length, congrArg List.length⟩, id⟩

/-- What is printed is no longer than the report, and is the report if and only if all parts fit. -/
theorem printed_eq_iff {data : List DIALData}
    (h : ∀ d ∈ data, Decodable d.key ∧ Decodable d.value) :
    (printed data).length ≤ (report data).length ∧
      ((printed data).length = (report data).length →
        ∀ d ∈ data, PartFits d.key ∧ PartFits d.value) ∧
      ((∀ d ∈ data, PartFits d.key ∧ PartFits d.value) → printed data = report data) := by
  induction data with
  | nil => simp [printed, report]
  | cons d data ih =>
    obtain ⟨⟨hkey, hvalue⟩, hdata⟩ := List.forall_mem_cons.mp h
    obtain ⟨hkey_le, hkey_iff, hkey_eq⟩ := encoded_length hkey
    obtain ⟨hvalue_le, hvalue_iff, hvalue_eq⟩ := encoded_length hvalue
    obtain ⟨hle, hfits, heq⟩ := ih hdata
    have hprinted : printed (d :: data) =
        element (encoded d.key) (encoded d.value) ++ printed data := rfl
    have hreport : report (d :: data) =
        element (xml_escape (decoded d.key)) (xml_escape (decoded d.value)) ++ report data := rfl
    simp only [List.forall_mem_cons]
    rw [hprinted, hreport]
    refine ⟨?_, fun hlen => ?_, fun hall => ?_⟩
    · simp only [element, List.length_append]
      omega
    · -- No part is longer than its full form, so that equal sums have equal terms.
      simp only [element, List.length_append] at hlen
      exact ⟨⟨hkey_iff.mp (by omega), hvalue_iff.mp (by omega)⟩, hfits (by omega)⟩
    · rw [hkey_eq hall.1.1, hvalue_eq hall.1.2, heq hall.2]

/-! ## The buffer -/

/-- An append to the buffer of the report takes what fits into it. -/
theorem smartstrncpy_eq_take {p : Bytes} {size : ℕ} (h : p.length ≤ size) (src : Bytes) :
    smartstrncpy p src (size - p.length) = (p ++ src).take size := by
  rw [smartstrncpy, List.take_append, List.take_of_length_le h]

/-- What is cut before an append is cut after it. -/
theorem take_append_take (a b : Bytes) (size : ℕ) :
    (a.take size ++ b).take size = (a ++ b).take size := by
  rw [List.take_append, List.take_append, List.take_take, Nat.min_self, List.length_take]
  rcases Nat.le_total a.length size with h | h
  · rw [Nat.min_eq_right h]
  · rw [Nat.min_eq_left h, Nat.sub_self, Nat.sub_eq_zero_of_le h]

/-- What `url_decode_xml_encode` returns with memory. -/
theorem url_decode_xml_encode_eq_some {src dst : Bytes} {supply supply' : Supply} {e : List Empty}
    (h : url_decode_xml_encode src src.length supply = some (some dst, e, supply')) :
    dst = encoded src := by
  obtain ⟨granted, e₁, t, e₂, h₁, h₂, -⟩ := bind_eq_some.mp h
  cases granted with
  | false => simp at h₂
  | true =>
    simp only [if_true, pure_apply, Option.some.injEq, Prod.mk.injEq] at h₂
    exact h₂.1.symm

/-- The appends of one pair. -/
theorem append_element {p : Bytes} {size : ℕ} (hp : p.length ≤ size) (key value : Bytes) :
    (let p := smartstrncpy p (bytes "    <") (size - p.length)
     let p := smartstrncpy p key (size - p.length)
     let p := smartstrncpy p (bytes ">") (size - p.length)
     let p := smartstrncpy p value (size - p.length)
     let p := smartstrncpy p (bytes "</") (size - p.length)
     let p := smartstrncpy p key (size - p.length)
     smartstrncpy p (bytes ">") (size - p.length)) = (p ++ element key value).take size := by
  have hcut : ∀ s : Bytes, (s.take size).length ≤ size := fun s => List.length_take_le ..
  simp only
  rw [smartstrncpy_eq_take hp, smartstrncpy_eq_take (hcut _), smartstrncpy_eq_take (hcut _),
    smartstrncpy_eq_take (hcut _), smartstrncpy_eq_take (hcut _), smartstrncpy_eq_take (hcut _),
    smartstrncpy_eq_take (hcut _)]
  simp only [take_append_take, element, List.append_assoc]

/-- The loop of `handle_app_status` prints into the buffer what fits. -/
theorem additional_data_loop_eq_some {data : List DIALData} {p q : Bytes} {supply supply' : Supply}
    {e : List Empty} (hp : p.length ≤ DIAL_DATA_SIZE)
    (h : additional_data_loop data p supply = some (some q, e, supply')) :
    q = (p ++ printed data).take DIAL_DATA_SIZE := by
  induction data generalizing p supply e with
  | nil =>
    simp only [additional_data_loop, pure_apply, Option.some.injEq, Prod.mk.injEq] at h
    rw [printed, List.flatMap_nil, List.append_nil, List.take_of_length_le hp]
    exact h.1.symm
  | cons d data ih =>
    unfold additional_data_loop at h
    obtain ⟨granted, e₁, s₁, e₂, h₁, h, rfl⟩ := bind_eq_some.mp h
    cases granted with
    | false => simp at h
    | true =>
      obtain ⟨encoded_key, e₃, s₂, e₄, hkey, h, rfl⟩ := bind_eq_some.mp h
      cases encoded_key with
      -- Without memory for a part the loop returns nothing, and so it has all of it here.
      | none => simp at h
      | some encoded_key =>
        obtain ⟨granted, e₅, s₃, e₆, h₂, h, rfl⟩ := bind_eq_some.mp h
        cases granted with
        | false => simp at h
        | true =>
          obtain ⟨encoded_value, e₇, s₄, e₈, hvalue, h, rfl⟩ := bind_eq_some.mp h
          cases encoded_value with
          | none => simp at h
          | some encoded_value =>
            obtain rfl := url_decode_xml_encode_eq_some hkey
            obtain rfl := url_decode_xml_encode_eq_some hvalue
            -- The seven appends are one, and the rest of the list follows in the buffer.
            have happend := append_element hp (encoded d.key) (encoded d.value)
            simp only at h happend
            rw [happend] at h
            rw [ih (List.length_take_le ..) h, take_append_take, List.append_assoc]
            rfl

/-! ## The answer -/

/-- The version that the client names in its query. -/
def client_version (request_info : mg_request_info) (s : System W) : Option Bytes :=
  (parse_param request_info.query_string (bytes "clientDialVer") s.supply).bind fun r => r.1

/-- The answer to a status request up to the additional data, for what the status callback returns.
-/
def answered_head (request_info : mg_request_info) (app_name : Bytes)
    (origin_header : Option Bytes) (app : DIALApp W) (s : System W) : Bytes :=
  let (state, canStop, _) :=
    app.callbacks.status_cb app_name app.run_id (some false) app.callback_data s.world
  let below_2_09 := client_below_2_09 s.platform (client_version request_info s)
  status_head origin_header app.name (canStop.getD false)
    (if below_2_09 && state = .kDIALStatusHide then .kDIALStatusStopped else state)

/-- A status request of a registered application that is answered 200 writes one text. -/
theorem handle_app_status_writes {request_info : mg_request_info} {app_name : Bytes}
    {origin_header : Option Bytes} {app : DIALApp W} {s t : System W} {e : List Event}
    (hfound : s.apps[find_app s.apps app_name]? = some app)
    (h : handle_app_status request_info app_name origin_header s = some ((), e, t))
    (hanswer : answer e = some (bytes "200")) (text : Bytes) :
    .write text ∈ e ↔ text = mg_printf (answered_head request_info app_name origin_header app s ++
      (printed app.dial_data).take DIAL_DATA_SIZE ++ additional_data_end ++
      bytes "\n</service>\r\n") := by
  obtain ⟨version, e₁, r, e₂, h₁, h₂, rfl⟩ := bind_eq_some.mp h
  obtain ⟨_, supply, hversion, rfl, rfl⟩ := within_eq_some.mp h₁
  have hclient : client_version request_info s = version := by
    rw [client_version, hversion]
    rfl
  obtain ⟨platform, e₃, r, e₄, h₃, h₄, rfl⟩ := bind_eq_some.mp h₂
  simp only [read_apply, Option.some.injEq, Prod.mk.injEq] at h₃
  obtain ⟨rfl, rfl, rfl⟩ := h₃
  obtain ⟨taken, e₅, r, e₆, h₅, h₆, rfl⟩ := bind_eq_some.mp h₄
  rcases ds_lock_cases h₅ with ⟨-, rfl, rfl, rfl⟩ | ⟨-, -, rfl, rfl, rfl⟩
  · -- A refused lock is answered 500.
    obtain ⟨hcode, -⟩ := http_error_answer rfl h₆
    exact absurd (hcode.symm.trans hanswer) (by decide)
  simp only [Bool.not_true, Bool.false_eq_true, if_false] at h₆
  obtain ⟨⟨pos, found⟩, e₇, r, e₈, h₇, h₈, rfl⟩ := bind_eq_some.mp h₆
  simp only [get_app, hfound, read_apply, Option.some.injEq, Prod.mk.injEq] at h₇
  obtain ⟨⟨rfl, rfl⟩, rfl, rfl⟩ := h₇
  simp only [status_app] at h₈
  obtain ⟨dial_data, e₉, r, e₁₀, h₉, h₁₀, rfl⟩ := bind_eq_some.mp h₈
  obtain ⟨_, supply', hloop, rfl, rfl⟩ := within_eq_some.mp h₉
  cases dial_data with
  | none =>
    -- So is a report without memory.
    obtain ⟨⟨⟩, e₁₁, r, e₁₂, h₁₁, h₁₂, rfl⟩ := bind_eq_some.mp h₁₀
    obtain ⟨hcode, -⟩ := http_error_answer rfl h₁₁
    exact absurd ((answer_append_of_some hcode e₁₂).symm.trans hanswer) (by decide)
  | some dial_data =>
    obtain rfl := additional_data_loop_eq_some (Nat.zero_le _) hloop
    unfold answered_head
    rw [hclient]
    obtain ⟨⟨state, canStop, world⟩, hcb⟩ : ∃ result,
        app.callbacks.status_cb app_name app.run_id (some false) app.callback_data s.world =
          result := ⟨_, rfl⟩
    simp only [call_status_cb, set_app, get_state, reply, ds_unlock, bind_apply, emit_apply,
      read_apply, modify_apply, pure_apply, hcb, state_modify hfound, Option.some.injEq,
      Prod.mk.injEq, true_and] at h₁₀ ⊢
    obtain ⟨rfl, -⟩ := h₁₀
    simp [status_response]

/-- A report that is not empty ends with a tag. -/
theorem report_getLast? (data : List DIALData) :
    report data = [] ∨ (report data).getLast? = some (chr '>') := by
  induction data with
  | nil => exact .inl rfl
  | cons d data ih =>
    right
    have hcons : report (d :: data) =
        element (xml_escape (decoded d.key)) (xml_escape (decoded d.value)) ++ report data := rfl
    have helement : ∀ name content : Bytes, (element name content).getLast? = some (chr '>') := by
      intro name content
      rw [element, List.getLast?_append]
      rfl
    rw [hcons]
    rcases ih with hnil | hlast
    · rw [hnil, List.append_nil, helement]
    · rw [List.getLast?_append, hlast, Option.some_or]

/-- The closing tag of the additional data does not follow a beginning of the report. -/
theorem eq_report_of_prefix {data : List DIALData} {p : Bytes}
    (hlen : p.length ≤ (report data).length)
    (h : report data ++ additional_data_end <+:
      p ++ additional_data_end ++ bytes "\n</service>\r\n") : p = report data := by
  have hp : p <+: p ++ additional_data_end ++ bytes "\n</service>\r\n" := by
    rw [List.append_assoc]
    exact List.prefix_append ..
  have hreport : report data <+: p ++ additional_data_end ++ bytes "\n</service>\r\n" :=
    (List.prefix_append ..).trans h
  obtain ⟨x, hx⟩ := List.prefix_of_prefix_length_le hp hreport hlen
  -- What the report has beyond `p` is a beginning of the closing tag.
  have hrest : x ++ additional_data_end <+: additional_data_end ++ bytes "\n</service>\r\n" := by
    rwa [← hx, List.append_assoc, List.append_assoc, List.prefix_append_right_inj] at h
  have hshort : x.length ≤ 13 := by
    have hle := hrest.length_le
    have htail : (bytes "\n</service>\r\n").length = 13 := rfl
    simp only [List.length_append, htail] at hle
    omega
  have hstart : x <+: additional_data_end.take 13 := by
    refine List.prefix_of_prefix_length_le ((List.prefix_append ..).trans hrest)
      ((List.take_prefix ..).trans (List.prefix_append ..)) ?_
    have hlength : (additional_data_end.take 13).length = 13 := rfl
    omega
  have hno_tag : chr '>' ∉ additional_data_end.take 13 := by decide
  by_cases hnil : x = []
  · rw [← hx, hnil, List.append_nil]
  · rcases report_getLast? data with hempty | hlast
    · rw [hempty] at hx
      exact absurd (List.append_eq_nil_iff.mp hx).2 hnil
    · rw [← hx, List.getLast?_append_of_ne_nil _ hnil] at hlast
      exact absurd (hstart.mem (List.mem_of_getLast? hlast)) hno_tag

/-- **The status answer reports the dial data.** For dial data whose escapes are well formed and
stand for no terminator, an answer 200 to a status request has the full report between its tags if
and only if the escaped text of each part fits twice the length of the part, and the answer up to
the end of the report fits the buffer of `mg_printf`. -/
theorem status_reports_iff {request_info : mg_request_info} {app_name : Bytes}
    {origin_header : Option Bytes} {app : DIALApp W} {s t : System W} {e : List Event}
    (hfound : s.apps[find_app s.apps app_name]? = some app)
    (hdecodable : ∀ d ∈ app.dial_data, Decodable d.key ∧ Decodable d.value)
    (h : handle_app_status request_info app_name origin_header s = some ((), e, t))
    (hanswer : answer e = some (bytes "200")) :
    (∃ text, .write text ∈ e ∧ answered_head request_info app_name origin_header app s ++
        report app.dial_data ++ additional_data_end <+: text) ↔
      (∀ d ∈ app.dial_data, PartFits d.key ∧ PartFits d.value) ∧
        (answered_head request_info app_name origin_header app s).length +
          (report app.dial_data).length + additional_data_end.length ≤ BUFSIZ - 1 := by
  obtain ⟨hle, hfits, heq⟩ := printed_eq_iff hdecodable
  simp only [handle_app_status_writes hfound h hanswer, exists_eq_left]
  constructor
  · -- The printed text ends where the closing tag begins, and can only be the report there. It is
    -- no longer than what is printed for each part, so that each part is printed in full.
    intro hprefix
    have hwhole := hprefix.trans (List.take_prefix ..)
    have hlength := hprefix.length_le.trans (List.length_take_le ..)
    simp only [List.append_assoc, List.prefix_append_right_inj] at hwhole
    rw [← List.append_assoc] at hwhole
    have hcut_le := List.length_take_le' DIAL_DATA_SIZE (printed app.dial_data)
    have hcut := eq_report_of_prefix (hcut_le.trans hle) hwhole
    refine ⟨hfits (le_antisymm hle ?_), ?_⟩
    · rw [← hcut]
      exact hcut_le
    · simpa [Nat.add_assoc] using hlength
  · -- A report that fits the answer fits the buffer of the report as well.
    rintro ⟨hall, hroom⟩
    have hcut : (printed app.dial_data).take DIAL_DATA_SIZE = report app.dial_data := by
      rw [heq hall, List.take_of_length_le]
      simp only [BUFSIZ, DIAL_DATA_SIZE] at hroom ⊢
      omega
    rw [hcut, mg_printf_append (by simpa only [List.length_append] using hroom)]
    exact List.prefix_append ..

/-- A pair that is reported. -/
theorem status_reports_pair :
    ∃ e t text, handle_app_status status_request (bytes "YouTube") none
        (youtube_with [⟨bytes "v", bytes "1"⟩]) = some ((), e, t) ∧ .write text ∈ e ∧
      answered_head status_request (bytes "YouTube") none
        { youtube_app with dial_data := [⟨bytes "v", bytes "1"⟩] }
        (youtube_with [⟨bytes "v", bytes "1"⟩]) ++
        bytes "    <v>1</v>" ++ additional_data_end <+: text := by
  obtain ⟨e, t, h, hanswer⟩ : ∃ e t,
      handle_app_status status_request (bytes "YouTube") none
        (youtube_with [⟨bytes "v", bytes "1"⟩]) = some ((), e, t) ∧
      answer e = some (bytes "200") :=
    ⟨_, _, rfl, rfl⟩
  have hreport : report [⟨bytes "v", bytes "1"⟩] = bytes "    <v>1</v>" := by decide
  obtain ⟨text, htext, hprefix⟩ := (@status_reports_iff _ status_request (bytes "YouTube") none
    { youtube_app with dial_data := [⟨bytes "v", bytes "1"⟩] }
    (youtube_with [⟨bytes "v", bytes "1"⟩]) t e rfl (by decide) h hanswer).mpr
    ⟨by decide, by decide⟩
  exact ⟨e, t, text, h, htext, hreport ▸ hprefix⟩

/-- The entity of a single character does not fit twice the length of the character. -/
theorem entity_not_reported :
    ∃ e files e' t,
      handle_dial_data (with_body (bytes "v=<")) (data_request (bytes "POST") none)
        (bytes "YouTube") none true youtube_server =
          some ((), e, { youtube_with [⟨bytes "v", bytes "<"⟩] with files }) ∧
      answer e = some (bytes "200") ∧
      handle_app_status status_request (bytes "YouTube") none
        { youtube_with [⟨bytes "v", bytes "<"⟩] with files } = some ((), e', t) ∧
      answer e' = some (bytes "200") ∧
      ¬∃ text, .write text ∈ e' ∧ answered_head status_request (bytes "YouTube") none
        { youtube_app with dial_data := [⟨bytes "v", bytes "<"⟩] }
        { youtube_with [⟨bytes "v", bytes "<"⟩] with files } ++
        bytes "    <v>&lt;</v>" ++ additional_data_end <+: text := by
  obtain ⟨e, files, hpost, hanswer⟩ : ∃ e files,
      handle_dial_data (with_body (bytes "v=<")) (data_request (bytes "POST") none)
        (bytes "YouTube") none true youtube_server =
          some ((), e, { youtube_with [⟨bytes "v", bytes "<"⟩] with files }) ∧
      answer e = some (bytes "200") :=
    ⟨_, _, rfl, rfl⟩
  obtain ⟨e', t, hstatus, hanswer'⟩ : ∃ e' t,
      handle_app_status status_request (bytes "YouTube") none
        { youtube_with [⟨bytes "v", bytes "<"⟩] with files } = some ((), e', t) ∧
      answer e' = some (bytes "200") :=
    ⟨_, _, rfl, rfl⟩
  refine ⟨e, files, e', t, hpost, hanswer, hstatus, hanswer', ?_⟩
  rintro ⟨text, htext, hprefix⟩
  have hwrites := (@handle_app_status_writes _ status_request (bytes "YouTube") none
    { youtube_app with dial_data := [⟨bytes "v", bytes "<"⟩] }
    { youtube_with [⟨bytes "v", bytes "<"⟩] with files } t e' rfl hstatus hanswer' text).mp htext
  have hhead : answered_head status_request (bytes "YouTube") none
      { youtube_app with dial_data := [⟨bytes "v", bytes "<"⟩] }
      { youtube_with [⟨bytes "v", bytes "<"⟩] with files } =
    status_head none (bytes "YouTube") false .kDIALStatusStopped := rfl
  rw [hwrites, hhead] at hprefix
  exact absurd hprefix (by decide)

end DialServer
