import DialServer.Device.Calls
import DialServer.Source.Handlers
import DialServer.Text.Encoding
import DialServer.Text.Query

/-!
# Launching Netflix

The text with which Netflix is launched. With the longest payload that a start admits, every
character of it escaped, and the longest parameter for the additional data, the text still fits into
`sQueryParam` by both tests of `netflix_start`, so that neither of its error returns is taken; and
what is launched can read the payload back out of the text.
-/

namespace DialServer

open CLib Program DIALStatus

/-- The text that a launch of Netflix carries. -/
def netflix_param (payload additionalDataUrl : Bytes) : Bytes :=
  bytes "source_type=12&dial=" ++ url_encoded payload ++
    if additionalDataUrl = [] then [] else bytes "&" ++ additionalDataUrl

/-- A `strcat` for which the buffer has room. -/
theorem strcat_fits {size : ℕ} {dest src : Bytes} (h : dest.length + src.length < size) :
    strcat size dest src = return dest ++ src :=
  if_pos h

/-- The encoding, with memory. -/
theorem alloc_url_encode {d : Device} (hsupply : d.supply = plenty) (str : Bytes) :
    alloc_device (url_encode str) d = some (some (url_encoded str), [], d) := by
  have hencode : url_encode str d.supply = some (some (url_encoded str), [], plenty) := by
    rw [hsupply]
    rfl
  exact within_eq_some.mpr ⟨[], plenty, hencode, rfl, by rw [← hsupply]⟩

/-- The payload is added, when the buffer has room for three times its characters. -/
theorem add_payload_eq {d : Device} (hsupply : d.supply = plenty) {sQueryParam payload : Bytes}
    (h : sQueryParam.length + 3 * payload.length < sQueryParam_size) :
    add_payload sQueryParam payload d =
      some (some (sQueryParam ++ url_encoded payload), [], d) := by
  have hfits : sQueryParam.length + (url_encoded payload).length < sQueryParam_size := by
    have := url_encoded_length payload
    omega
  unfold add_payload
  split_ifs with hempty
  · rw [bind_of_some (alloc_url_encode hsupply payload)]
    simp only [if_pos hfits, strcat_fits hfits]
    rfl
  · obtain rfl : payload = [] := List.length_eq_zero_iff.mp (not_not.mp hempty)
    simp [url_encoded]

/-- So is the parameter for the additional data, with an ampersand in front of it. -/
theorem add_additional_eq {sQueryParam additionalDataUrl : Bytes}
    (h : sQueryParam.length + 2 + additionalDataUrl.length < sQueryParam_size) (d : Device) :
    add_additional sQueryParam additionalDataUrl d = some (some (sQueryParam ++
      if additionalDataUrl = [] then [] else bytes "&" ++ additionalDataUrl), [], d) := by
  have hamp : (bytes "&").length = 1 := rfl
  have hfirst : sQueryParam.length + (bytes "&").length < sQueryParam_size := by omega
  have hsecond : (sQueryParam ++ bytes "&").length + additionalDataUrl.length <
      sQueryParam_size := by
    rw [List.length_append]
    omega
  unfold add_additional
  by_cases hempty : additionalDataUrl = []
  · simp [hempty]
  · have hne : additionalDataUrl.length ≠ 0 := fun h => hempty (List.length_eq_zero_iff.mp h)
    rw [if_pos hne, if_pos (by omega), if_neg hempty, strcat_fits hfirst, ret_bind,
      strcat_fits hsecond, ret_bind, pure_apply, List.append_assoc]

/-- The text is the parameter of the name `dial`, and then the rest. -/
theorem parse_param_dial (payload additionalDataUrl : Bytes) :
    parse_param (some (netflix_param payload additionalDataUrl)) (bytes "dial") plenty =
      some (some (url_encoded payload), [], plenty) := by
  -- The name first occurs where it is meant to be.
  set rest := url_encoded payload ++
    if additionalDataUrl = [] then [] else bytes "&" ++ additionalDataUrl with hrest
  have htext : netflix_param payload additionalDataUrl =
      bytes "source_type=12&" ++ (bytes "dial=" ++ rest) := by
    rw [hrest, netflix_param, ← List.append_assoc, ← List.append_assoc]
    rfl
  have hstart : strstr (netflix_param payload additionalDataUrl) (bytes "dial") =
      some (bytes "dial=" ++ rest) := by
    rw [htext]
    rfl
  have hvalue : found_value (bytes "dial=" ++ rest) = rest.takeWhile (· ≠ chr '&') := rfl
  have hresult : rest.takeWhile (· ≠ chr '&') = url_encoded payload := by
    refine takeWhile_amp (ampersand_notMem_url_encoded payload) fun c t hct => ?_
    split_ifs at hct
    exact (List.cons.inj hct).1.symm
  have hafter : plenty.after 1 = plenty := rfl
  rw [parse_param_found hstart rfl, hvalue, hresult, hafter]

/-- Activating the current application is no error. -/
theorem start_current_status {build : Build} {url : Bytes} {d d' : Device} {status : DIALStatus}
    {e : List (ManagerCall × Reply)} (h : start_current build url d = some (status, e, d')) :
    status ≠ kDIALStatusError := by
  obtain ⟨app, e₁, t, e₂, -, h, -⟩ := bind_eq_some.mp h
  obtain ⟨ret, e₃, t', e₄, -, h, -⟩ := bind_eq_some.mp h
  split_ifs at h
  · obtain ⟨rfl, -, -⟩ : kDIALStatusRunning = status ∧ [] = e₄ ∧ t' = d' := by simpa using h
    simp
  · obtain ⟨rfl, -, -⟩ : kDIALStatusStopped = status ∧ [] = e₄ ∧ t' = d' := by simpa using h
    simp

/-- **A launch of Netflix delivers the whole request.** With memory, a start with a payload and a
parameter for the additional data of any admitted length is the activation of the application with
the whole text; it fits into the buffer, and the payload can be read back out of it. -/
theorem netflix_delivers (build : Build) (appname : Bytes) {payload additionalDataUrl : Bytes}
    (hpayload : payload.length ≤ DIAL_MAX_PAYLOAD)
    (hadditional : additionalDataUrl.length ≤ DIAL_MAX_ADDITIONALURL - 1) {d : Device}
    (hsupply : d.supply = plenty) :
    netflix_start build appname payload additionalDataUrl d =
        (do
          matchAppInfo appname
          start_current build (netflix_param payload additionalDataUrl)) d ∧
      (∀ status e d', netflix_start build appname payload additionalDataUrl d =
        some (status, e, d') → status ≠ kDIALStatusError) ∧
      (netflix_param payload additionalDataUrl).length < sQueryParam_size ∧
      ∃ value, parse_param (some (netflix_param payload additionalDataUrl)) (bytes "dial") plenty =
          some (some value, [], plenty) ∧
        ∀ max_size, payload.length ≤ max_size →
          urldecode value max_size = (payload, payload.length) := by
  have hmax : DIAL_MAX_PAYLOAD = 4096 := rfl
  have hurl : DIAL_MAX_ADDITIONALURL = 1024 := rfl
  have hsize : sQueryParam_size = 13352 := rfl
  have hencoded := url_encoded_length payload
  have hprefix : (bytes "source_type=12&dial=").length = 20 := rfl
  have hstart : netflix_start build appname payload additionalDataUrl d =
      (do
        matchAppInfo appname
        start_current build (netflix_param payload additionalDataUrl)) d := by
    have hdefault : strcat sQueryParam_size (defaultLaunchParam.take (sQueryParam_size - 1))
        (bytes "&dial=") = return bytes "source_type=12&dial=" := by
      rfl
    have hdial : add_payload (bytes "source_type=12&dial=") payload d =
        some (some (bytes "source_type=12&dial=" ++ url_encoded payload), [], d) :=
      add_payload_eq hsupply (by omega)
    have hroom : (bytes "source_type=12&dial=" ++ url_encoded payload).length + 2 +
        additionalDataUrl.length < sQueryParam_size := by
      rw [List.length_append]
      omega
    unfold netflix_start
    rw [hdefault, ret_bind, bind_of_some hdial]
    simp only
    rw [bind_of_some (add_additional_eq hroom d)]
    simp [netflix_param]
  refine ⟨hstart, ?_, ?_, url_encoded payload, parse_param_dial payload additionalDataUrl, ?_⟩
  · intro status e d' hrun
    rw [hstart] at hrun
    obtain ⟨⟨⟩, e₁, t, e₂, -, hcurrent, -⟩ := bind_eq_some.mp hrun
    exact start_current_status hcurrent
  · unfold netflix_param
    rw [List.length_append, List.length_append]
    split_ifs
    · simp only [List.length_nil]
      omega
    · have hamp : (bytes "&").length = 1 := rfl
      rw [List.length_append]
      omega
  · intro max_size hmax_size
    obtain ⟨-, hloop⟩ := urldecode_loop_eq (url_decoded_encoded payload)
    unfold urldecode
    rw [hloop max_size hmax_size]
    rfl

/-- The longest payload, of characters that are all escaped, with the parameter that a start of
Netflix has. -/
theorem netflix_delivers_longest :
    (netflix_param (List.replicate DIAL_MAX_PAYLOAD (chr '&'))
        (additional_data_param true 56789 (bytes "Netflix"))).length < sQueryParam_size ∧
      ∃ value, parse_param (some (netflix_param (List.replicate DIAL_MAX_PAYLOAD (chr '&'))
          (additional_data_param true 56789 (bytes "Netflix")))) (bytes "dial") plenty =
            some (some value, [], plenty) ∧
        urldecode value DIAL_MAX_PAYLOAD =
          (List.replicate DIAL_MAX_PAYLOAD (chr '&'), DIAL_MAX_PAYLOAD) := by
  have hlength : (List.replicate DIAL_MAX_PAYLOAD (chr '&')).length = DIAL_MAX_PAYLOAD :=
    List.length_replicate
  obtain ⟨-, -, hfits, value, hparse, hvalue⟩ :=
    netflix_delivers .appman (bytes "Netflix") hlength.le
      (show (additional_data_param true 56789 (bytes "Netflix")).length ≤
        DIAL_MAX_ADDITIONALURL - 1 by decide)
      (show configured_device.supply = plenty from rfl)
  have hdecoded := hvalue DIAL_MAX_PAYLOAD hlength.le
  exact ⟨hfits, value, hparse, hdecoded.trans (congrArg (Prod.mk _) hlength)⟩

end DialServer
