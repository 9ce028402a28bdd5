import DialServer.Base.Literal
import DialServer.Device.Calls
import DialServer.Source.Handlers

/-!
# Launching YouTube

The deep link with which YouTube is launched. What it should stand for is the configured URL with
all parameters behind a question mark. `youtube_start` prints the URL into a buffer of 512
characters, in one of three ways, and `activateApp` puts it between quotes as it is; `Deliverable`
is exactly when that comes to the same.
-/

set_option maxRecDepth 8000

namespace DialServer

open CLib Program DIALStatus

/-- The argument of a deep link. -/
def deep_link_of : ManagerCall → Option Bytes
  | .SetDeepLink _ url => some url
  | .deeplink _ launchURL => some launchURL
  | _ => none

/-- The arguments of the deep links among calls. -/
def deep_links (made : List (ManagerCall × Reply)) : List Bytes :=
  (made.map Prod.fst).filterMap deep_link_of

/-- The parameters of a launch, joined with ampersands. -/
def youtube_query (payload additionalDataUrl : Bytes) : Bytes :=
  [chr '&'].intercalate ([additionalDataUrl, payload].filter (· ≠ []) ++ [bytes "inApp=true"])

/-- The URL with all parameters, as a launch of YouTube is to deliver it. -/
def whole_url (url payload additionalDataUrl : Bytes) : Bytes :=
  url ++ bytes "?" ++ youtube_query payload additionalDataUrl

/-- A start of YouTube makes one deep link, and that is a literal for the whole URL. -/
def DeliversLaunch (unescape : UInt8 → UInt8) (build : Build)
    (appname url payload additionalDataUrl : Bytes) (d : Device) : Prop :=
  ∃ status made d', youtube_start build appname payload additionalDataUrl d =
      some (status, made, d') ∧
    ∃ literal, deep_links made = [literal] ∧
      literal_value (chr '"') (chr '\\') unescape literal =
        some (whole_url url payload additionalDataUrl ++ bytes "&launch=dial")

/-- The condition under which it does: there is a payload, the whole URL fits into the buffer, and
nothing in it would have to be escaped. -/
structure Deliverable (url payload additionalDataUrl : Bytes) : Prop where
  payload_ne : payload ≠ []
  fits : (whole_url url payload additionalDataUrl).length ≤ 511
  plain : ∀ c ∈ whole_url url payload additionalDataUrl, c ≠ chr '"' ∧ c ≠ chr '\\'

/-- Calls of other kinds are no deep links. -/
theorem deep_links_eq_nil {kinds : List ManagerCallKind} (h : .link ∉ kinds)
    {made : List (ManagerCall × Reply)} (hmade : ∀ x ∈ made, x.1.kind ∈ kinds) :
    deep_links made = [] := by
  refine List.filterMap_eq_nil_iff.mpr fun c hc => ?_
  obtain ⟨x, hx, rfl⟩ := List.mem_map.mp hc
  have hkind := hmade x hx
  cases hcall : x.1 <;> simp only [hcall, ManagerCall.kind] at hkind
  all_goals first | rfl | exact absurd hkind h

/-- The deep links of one call after another. -/
theorem deep_links_append (made made' : List (ManagerCall × Reply)) :
    deep_links (made ++ made') = deep_links made ++ deep_links made' := by
  simp [deep_links]

section Start

variable {app : appInfo} {appname callsign url payload additionalDataUrl : Bytes} {d d₁ : Device}

/-- The activation of YouTube makes one deep link. -/
theorem activateApp_deep_links (build : Build) (h : Ready app callsign (bytes "YouTube") d)
    (text : Bytes) :
    ∃ made d', activateApp build (some callsign) text d = some (0, made, d') ∧
      deep_links made = [launch_url text] := by
  obtain ⟨⟨⟩, e₁, t₁, h₁, hready⟩ := bring_up_app_proceeds build text d h
  obtain ⟨-, hkinds⟩ := bring_up_app_acts build (some callsign) text d _ e₁ t₁ h₁
  obtain ⟨e₂, t₂, h₂, -, hlink⟩ := hready.link_app_eq build text
  have hfocus : focus_app build (some callsign) t₂ =
      some (0, [(focus_call build callsign, t₂.replies 0)], t₂.next) := by
    unfold focus_app
    rw [deref_some, ret_bind, bind_of_some (call_apply _ _)]
    rfl
  refine ⟨e₁ ++ (e₂ ++ [(focus_call build callsign, t₂.replies 0)]), t₂.next, ?_, ?_⟩
  · rw [activateApp_active build (some callsign) text h.active]
    exact bind_eq_some.mpr ⟨(), e₁, t₁, _, h₁,
      bind_eq_some.mpr ⟨(), e₂, t₂, _, h₂, hfocus, rfl⟩, rfl⟩
  · rw [deep_links_append, deep_links_append, deep_links_eq_nil (by decide) hkinds]
    unfold deep_links
    rw [hlink, if_pos rfl]
    cases build <;> rfl

/-- So does a start. -/
theorem youtube_start_deep_links (build : Build)
    (hmatch : matchAppInfo appname d = some ((), [], d₁))
    (h : Ready app callsign (bytes "YouTube") d₁) :
    ∃ made d', youtube_start build appname payload additionalDataUrl d =
        some (kDIALStatusRunning, made, d') ∧
      deep_links made = [launch_url (youtube_url app.url payload additionalDataUrl)] := by
  have hcurrent : get_current d₁ = some (app, [], d₁) :=
    get_current_eq_some.mpr ⟨h.current, rfl, rfl⟩
  obtain ⟨made, d', hactivate, hlink⟩ :=
    activateApp_deep_links build h (youtube_url app.url payload additionalDataUrl)
  have hstart : start_current build (youtube_url app.url payload additionalDataUrl) d₁ =
      some (kDIALStatusRunning, made, d') := by
    unfold start_current
    rw [bind_of_some hcurrent, h.callsign_eq, bind_of_some hactivate]
    simp
  refine ⟨made, d', ?_, hlink⟩
  unfold youtube_start
  rw [bind_of_some hmatch, bind_of_some hcurrent, hstart]
  rfl

/-- With a payload, a start prints the whole URL, as far as the buffer has room. -/
theorem youtube_url_of_payload (h : payload ≠ []) :
    youtube_url (some url) payload additionalDataUrl =
      (whole_url url payload additionalDataUrl).take 511 := by
  have hpayload : payload.length ≠ 0 := fun hlength => h (List.length_eq_zero_iff.mp hlength)
  by_cases hadditional : additionalDataUrl = []
  · subst hadditional
    have hwhole : whole_url url payload [] =
        url ++ bytes "?" ++ payload ++ bytes "&inApp=true" := by
      simp [whole_url, youtube_query, h, List.intercalate, bytes, chr]
    rw [youtube_url, if_neg (by simp), if_pos hpayload, hwhole]
    rfl
  · have hwhole : whole_url url payload additionalDataUrl = url ++ bytes "?" ++ additionalDataUrl ++
        bytes "&" ++ payload ++ bytes "&inApp=true" := by
      simp [whole_url, youtube_query, h, hadditional, List.intercalate, bytes, chr]
    have hlength : additionalDataUrl.length ≠ 0 :=
      fun hlength => hadditional (List.length_eq_zero_iff.mp hlength)
    rw [youtube_url, if_pos ⟨hpayload, hlength⟩, hwhole]
    rfl

/-- The query is at least as long as the parameter that is always there. -/
theorem length_le_youtube_query (payload additionalDataUrl : Bytes) :
    (bytes "inApp=true").length ≤ (youtube_query payload additionalDataUrl).length := by
  by_cases hpayload : payload = [] <;> by_cases hadditional : additionalDataUrl = []
  all_goals
    simp [youtube_query, hpayload, hadditional, List.intercalate]
    try omega

/-- What a start prints is the whole URL exactly when there is a payload and the buffer has room. -/
theorem youtube_url_eq_whole (hurl : chr '?' ∉ url) :
    (youtube_url (some url) payload additionalDataUrl).length ≤
        (whole_url url payload additionalDataUrl).length ∧
      (whole_url url payload additionalDataUrl =
          youtube_url (some url) payload additionalDataUrl ↔
        payload ≠ [] ∧ (whole_url url payload additionalDataUrl).length ≤ 511) := by
  by_cases hpayload : payload = []
  · have hprint : youtube_url (some url) payload additionalDataUrl =
        (url ++ bytes "&inApp=true").take 511 := by
      rw [youtube_url, if_neg (by simp [hpayload]), if_neg (by simp [hpayload])]
      rfl
    have hmark : chr '?' ∉ youtube_url (some url) payload additionalDataUrl := by
      have hsuffix : chr '?' ∉ bytes "&inApp=true" := by decide
      rw [hprint]
      intro hmem
      rcases List.mem_append.mp (List.mem_of_mem_take hmem) with h | h
      · exact hurl h
      · exact hsuffix h
    have hwhole : chr '?' ∈ whole_url url payload additionalDataUrl := by
      simp [whole_url, bytes, chr]
    refine ⟨?_, ⟨fun heq => absurd (heq ▸ hwhole) hmark, fun h => absurd hpayload h.1⟩⟩
    have hquery := length_le_youtube_query payload additionalDataUrl
    have hlengths : (bytes "&inApp=true").length = 11 ∧ (bytes "inApp=true").length = 10 ∧
        (bytes "?").length = 1 := by decide
    rw [hprint, whole_url, List.length_take]
    simp only [List.length_append]
    omega
  · rw [youtube_url_of_payload hpayload]
    refine ⟨by simp, ⟨fun heq => ⟨hpayload, ?_⟩, fun h => (List.take_of_length_le h.2).symm⟩⟩
    have := congrArg List.length heq
    rw [List.length_take] at this
    omega

/-- The one deep link is the literal that counts. -/
theorem delivers_iff_literal (unescape : UInt8 → UInt8) (build : Build)
    (hmatch : matchAppInfo appname d = some ((), [], d₁))
    (hready : Ready app callsign (bytes "YouTube") d₁) (happ : app.url = some url) :
    DeliversLaunch unescape build appname url payload additionalDataUrl d ↔
      literal_value (chr '"') (chr '\\') unescape
          (launch_url (youtube_url (some url) payload additionalDataUrl)) =
        some (whole_url url payload additionalDataUrl ++ bytes "&launch=dial") := by
  obtain ⟨made, d', hstart, hlink⟩ := @youtube_start_deep_links app appname callsign payload
    additionalDataUrl d d₁ build hmatch hready
  rw [happ] at hlink
  unfold DeliversLaunch
  rw [hstart]
  constructor
  · rintro ⟨status, made', d'', hrun, literal, hliteral, hvalue⟩
    obtain ⟨-, rfl, -⟩ : kDIALStatusRunning = status ∧ made = made' ∧ d' = d'' := by
      simpa using hrun
    rw [hlink, List.singleton_inj] at hliteral
    exact hliteral ▸ hvalue
  · exact fun hvalue => ⟨_, made, d', rfl, _, hlink, hvalue⟩

/-- Since it is never longer than the whole URL, the text that is printed has to be the whole URL,
and to need no escapes. -/
theorem delivers_iff_text (unescape : UInt8 → UInt8) (build : Build)
    (hmatch : matchAppInfo appname d = some ((), [], d₁))
    (hready : Ready app callsign (bytes "YouTube") d₁) (happ : app.url = some url)
    (hurl : chr '?' ∉ url) :
    DeliversLaunch unescape build appname url payload additionalDataUrl d ↔
      whole_url url payload additionalDataUrl = youtube_url (some url) payload additionalDataUrl ∧
        chr '"' ∉ youtube_url (some url) payload additionalDataUrl ++ bytes "&launch=dial" ∧
        chr '\\' ∉ youtube_url (some url) payload additionalDataUrl ++ bytes "&launch=dial" := by
  obtain ⟨hlength, -⟩ := @youtube_url_eq_whole url payload additionalDataUrl hurl
  rw [delivers_iff_literal unescape build hmatch hready happ]
  set text := youtube_url (some url) payload additionalDataUrl
  set whole := whole_url url payload additionalDataUrl
  have hquoted : launch_url text = chr '"' :: (text ++ bytes "&launch=dial" ++ [chr '"']) := by
    simp only [launch_url, List.append_assoc]
    rfl
  have hlonger : (text ++ bytes "&launch=dial").length ≤
      (whole ++ bytes "&launch=dial").length := by
    simpa using hlength
  rw [hquoted, literal_value_eq_some_iff hlonger, List.append_cancel_right_eq]

/-- **A launch of YouTube delivers the whole request** if and only if there is a payload, the whole
URL fits into the buffer, and nothing in it would have to be escaped. -/
theorem youtube_delivers_iff (unescape : UInt8 → UInt8) (build : Build)
    (hmatch : matchAppInfo appname d = some ((), [], d₁))
    (hready : Ready app callsign (bytes "YouTube") d₁) (happ : app.url = some url)
    (hurl : chr '?' ∉ url) :
    DeliversLaunch unescape build appname url payload additionalDataUrl d ↔
      Deliverable url payload additionalDataUrl := by
  obtain ⟨-, hwhole⟩ := @youtube_url_eq_whole url payload additionalDataUrl hurl
  rw [delivers_iff_text unescape build hmatch hready happ hurl]
  set text := youtube_url (some url) payload additionalDataUrl
  set whole := whole_url url payload additionalDataUrl
  have hsuffix : chr '"' ∉ bytes "&launch=dial" ∧ chr '\\' ∉ bytes "&launch=dial" := by decide
  constructor
  · rintro ⟨heq, hquote, hbackslash⟩
    obtain ⟨hpayload, hfits⟩ := hwhole.mp heq
    refine ⟨hpayload, hfits, fun c (hc : c ∈ whole) => ?_⟩
    have hmem : c ∈ text ++ bytes "&launch=dial" := List.mem_append_left _ (heq ▸ hc)
    exact ⟨ne_of_mem_of_not_mem hmem hquote, ne_of_mem_of_not_mem hmem hbackslash⟩
  · intro h
    have heq := hwhole.mpr ⟨h.payload_ne, h.fits⟩
    have hplain : chr '"' ∉ text ∧ chr '\\' ∉ text := by
      rw [← heq]
      exact ⟨fun hc => (h.plain _ hc).1 rfl, fun hc => (h.plain _ hc).2 rfl⟩
    refine ⟨heq, fun hc => ?_, fun hc => ?_⟩
    · exact (List.mem_append.mp hc).elim hplain.1 hsuffix.1
    · exact (List.mem_append.mp hc).elim hplain.2 hsuffix.2

end Start

/-- The application is found on the configured device. -/
theorem match_youtube : matchAppInfo (bytes "YouTube") configured_device =
    some ((), [], { configured_device with curAppForDial := some 1 }) := rfl

/-- Its entry is complete. -/
theorem ready_youtube : Ready youtube_info (bytes "youtube") (bytes "YouTube")
    { configured_device with curAppForDial := some 1 } :=
  ⟨⟨_, 1, rfl, rfl, rfl⟩, rfl, rfl, rfl⟩

/-- The additional data parameter that a start of YouTube has. -/
def youtube_additional : Bytes := additional_data_param true 56789 (bytes "YouTube")

/-- A launch with a payload, on either backend. -/
theorem youtube_delivers_video :
    DeliversLaunch id .appman (bytes "YouTube") (bytes "https://www.youtube.com/tv") (bytes "v=abc")
        youtube_additional configured_device ∧
      DeliversLaunch id .thunder_api (bytes "YouTube") (bytes "https://www.youtube.com/tv")
        (bytes "v=abc") youtube_additional configured_device := by
  have hurl : chr '?' ∉ bytes "https://www.youtube.com/tv" := by decide
  have hquote : chr '"' ∉ whole_url (bytes "https://www.youtube.com/tv") (bytes "v=abc")
      youtube_additional := by
    decide
  have hbackslash : chr '\\' ∉ whole_url (bytes "https://www.youtube.com/tv") (bytes "v=abc")
      youtube_additional := by
    decide
  have hdeliverable : Deliverable (bytes "https://www.youtube.com/tv") (bytes "v=abc")
      youtube_additional :=
    ⟨by decide, by decide, fun c hc =>
      ⟨ne_of_mem_of_not_mem hc hquote, ne_of_mem_of_not_mem hc hbackslash⟩⟩
  exact ⟨(youtube_delivers_iff id .appman match_youtube ready_youtube rfl hurl).mpr hdeliverable,
    (youtube_delivers_iff id .thunder_api match_youtube ready_youtube rfl hurl).mpr hdeliverable⟩

/-- An accepted payload with which YouTube is not launched at the whole URL. -/
def Mangled (payload : Bytes) : Prop :=
  payload.length ≤ DIAL_MAX_PAYLOAD ∧ isBadPayload payload = false ∧
    ¬DeliversLaunch id .appman (bytes "YouTube") (bytes "https://www.youtube.com/tv") payload
      youtube_additional configured_device

/-- A payload is mangled when the URL that is printed is not the whole URL, or has a quote. -/
theorem mangled_of_text {payload : Bytes} (hlength : payload.length ≤ DIAL_MAX_PAYLOAD)
    (hgood : isBadPayload payload = false)
    (htext : payload = [] ∨
      chr '"' ∈ youtube_url (some (bytes "https://www.youtube.com/tv")) payload
        youtube_additional ∨
      511 < (whole_url (bytes "https://www.youtube.com/tv") payload youtube_additional).length) :
    Mangled payload := by
  have hurl : chr '?' ∉ bytes "https://www.youtube.com/tv" := by decide
  refine ⟨hlength, hgood, fun hdelivers => ?_⟩
  rw [delivers_iff_text id .appman match_youtube ready_youtube rfl hurl,
    (youtube_url_eq_whole hurl).2] at hdelivers
  obtain ⟨⟨hpayload, hfits⟩, hquote, -⟩ := hdelivers
  rcases htext with hnil | hmem | hlong
  · exact hpayload hnil
  · exact hquote (List.mem_append_left _ hmem)
  · exact absurd hfits (Nat.not_le_of_lt hlong)

/-- Without a payload the additional data is dropped and no question mark is there, a quote in the
payload ends the literal, and a payload of 500 characters is cut. -/
theorem youtube_launch_mangled :
    Mangled [] ∧ Mangled (bytes "v=\"") ∧ Mangled (List.replicate 500 (chr 'v')) := by
  refine ⟨?_, ?_, ?_⟩
  · exact mangled_of_text (by decide) rfl (.inl rfl)
  · exact mangled_of_text (by decide) (by decide) (.inr (.inl (by decide)))
  · exact mangled_of_text (by decide) (by decide) (.inr (.inr (by decide)))

end DialServer
