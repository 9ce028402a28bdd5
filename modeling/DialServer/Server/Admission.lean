import DialServer.Server.Payload

/-!
# The admission of starts

Which starts reach their application. The body is read up to a length that is larger than what is
allowed, so that a body which is too long is noticed whatever the rest of it is; the characters are
tested, and YouTube has to have an origin. `Admitted` says this of the body alone. An admitted start
is one call of `status_cb` and one call of `start_cb`, which is passed the whole body; every other
start is refused before anything is written to the record.
-/

set_option maxRecDepth 8000

namespace DialServer

open CLib Program DIALStatus

variable {W : Type}

/-- The body of a start fits and is printable, and there is an origin if the name has `YouTube` in
it. -/
structure Admitted (body : Bytes) (origin_header : Option Bytes) (app_name : Bytes) : Prop where
  fits : body.length ≤ DIAL_MAX_PAYLOAD
  printable : ∀ c ∈ body, 0x20 ≤ c ∧ c ≤ 0x7E
  origin : origin_header ≠ none ∨ ¬bytes "YouTube" <:+: app_name

/-- The calls of the callbacks, with the position of their application. -/
def callbacks (e : List Event) : List (ℕ × Callback) :=
  e.filterMap fun
    | .callback pos c => some (pos, c)
    | _ => none

@[simp] theorem callbacks_append (e₁ e₂ : List Event) :
    callbacks (e₁ ++ e₂) = callbacks e₁ ++ callbacks e₂ :=
  List.filterMap_append ..

/-- The tests of `isBadPayload` leave the printable characters. -/
theorem isBadPayload_eq_false {body : Bytes} :
    isBadPayload body = false ↔ ∀ c ∈ body, 0x20 ≤ c ∧ c ≤ 0x7E := by
  have hbyte : ∀ c : UInt8, ¬(c &&& 0x80 = 0x80 || c = 0x7f || c ≤ 0x1f) = true ↔
      0x20 ≤ c ∧ c ≤ 0x7E := by
    decide
  unfold isBadPayload
  rw [List.any_eq_false]
  exact forall₂_congr fun c _ => hbyte c

/-! ## The body -/

/-- What is read of a body is admitted if and only if the body is, since more is read than is
allowed. -/
theorem admitted_received {conn : mg_connection} {body : Bytes} (h : Receives conn body)
    (origin_header : Option Bytes) (app_name : Bytes) :
    (Admitted (start_body conn) origin_header app_name ↔ Admitted body origin_header app_name) ∧
      (Admitted body origin_header app_name → start_body conn = body) := by
  have hread : start_body conn = body.take (DIAL_MAX_PAYLOAD + DIAL_MAX_ADDITIONALURL + 2 - 1) :=
    mg_read_received h _
  have hwhole : body.length ≤ DIAL_MAX_PAYLOAD → start_body conn = body := fun hfits => by
    rw [hread]
    exact List.take_of_length_le (hfits.trans (by decide))
  refine ⟨⟨fun hstart => ?_, fun hbody => ?_⟩, fun hbody => hwhole hbody.fits⟩
  · -- What is read is shorter than the limit, so that it is all there is.
    have hfits : body.length ≤ DIAL_MAX_PAYLOAD := by
      have hlength := hstart.fits
      rw [hread, List.length_take] at hlength
      unfold DIAL_MAX_PAYLOAD DIAL_MAX_ADDITIONALURL at hlength
      unfold DIAL_MAX_PAYLOAD
      omega
    rwa [hwhole hfits] at hstart
  · rwa [hwhole hbody.fits]

/-! ## The run of a start -/

section Start

variable {conn : mg_connection} {request_info : mg_request_info} {app_name : Bytes}
  {origin_header : Option Bytes} {pos : ℕ} {app : DIALApp W} {s t : System W} {e : List Event}

/-- The two calls that an admitted start makes. -/
def start_calls (conn : mg_connection) (request_info : mg_request_info) (app_name : Bytes)
    (dial_port : UInt16) (pos : ℕ) (app : DIALApp W) : List (ℕ × Callback) :=
  [(pos, .status app_name app.run_id none app.callback_data),
    (pos, .start app_name (start_body conn) request_info.query_string
      (additional_data_param app.useAdditionalData dial_port app_name) app.run_id
      app.callback_data)]

/-- What the second of them returns. -/
def start_result (conn : mg_connection) (request_info : mg_request_info) (app_name : Bytes)
    (dial_port : UInt16) (app : DIALApp W) (world : W) : DIALStatus × Pointer × W :=
  app.callbacks.start_cb app_name (start_body conn) request_info.query_string
    (additional_data_param app.useAdditionalData dial_port app_name) app.run_id app.callback_data
    (app.callbacks.status_cb app_name app.run_id none app.callback_data world).2.2

/-- An error makes no calls, and it leaves all but the mutex. -/
theorem refusal_run (status : ℕ) (reason : String) (hcode : (dec status).length = 3)
    (s : System W) : ∃ e, (do http_error status reason; ds_unlock : Server W Unit) s =
      some ((), e, { s with mux := false }) ∧ callbacks e = [] ∧ answer e = some (dec status) := by
  have herror : http_error status reason s = some ((), _, s) := rfl
  exact ⟨_, rfl, rfl, answer_append_of_some (http_error_answer hcode herror).1 _⟩

/-- The codes with which a start is refused. -/
def start_refusals : List Bytes := [dec 413, dec 400, dec 403]

/-- A start that is not admitted is refused, and nothing is written to the records. -/
theorem start_app_refused (h : ¬Admitted (start_body conn) origin_header app_name) (pos : ℕ)
    (app : DIALApp W) (s : System W) :
    ∃ e, start_app conn request_info app_name origin_header pos app s =
        some ((), e, { s with mux := false }) ∧
      callbacks e = [] ∧ ∃ code ∈ start_refusals, answer e = some code := by
  have hrefusal (status : ℕ) (reason : String) (hcode : (dec status).length = 3)
      (hmem : dec status ∈ start_refusals) :
      ∃ e, (do http_error status reason; ds_unlock : Server W Unit) s =
          some ((), e, { s with mux := false }) ∧
        callbacks e = [] ∧ ∃ code ∈ start_refusals, answer e = some code := by
    obtain ⟨e, hrun, hcalls, hanswer⟩ := refusal_run status reason hcode s
    exact ⟨e, hrun, hcalls, _, hmem, hanswer⟩
  unfold start_app
  simp only
  split_ifs with hlong hbad hyoutube
  · exact hrefusal 413 "413 Request Entity Too Large" rfl (by decide)
  · exact hrefusal 400 "400 Bad Request" rfl (by decide)
  · have hport : (DIAL_get_port : Server W UInt16) s = some (s.platform.port, [], s) := rfl
    obtain ⟨e, hrun, hrest⟩ := hrefusal 403 "Forbidden" rfl (by decide)
    refine ⟨e, ?_, hrest⟩
    rw [bind_of_some hport, hrun]
    rfl
  · -- No test is left, so that the start is admitted.
    rw [Bool.not_eq_true] at hbad
    rw [strstr_isSome, not_and_or] at hyoutube
    exact absurd ⟨Nat.le_of_not_lt hlong, isBadPayload_eq_false.mp hbad, hyoutube⟩ h

/-- The answer to an admitted start is 2xx when the application is said to run, and the payload is
copied then. -/
theorem answer_start_run (pos : ℕ) (app_name laddr : Bytes) (dial_port : UInt16)
    (origin_header : Option Bytes) (payload : Payload) (response200Flag : Bool)
    (state : DIALStatus) (s : System W) :
    ∃ e t, answer_start pos app_name laddr dial_port origin_header payload response200Flag state s =
        some ((), e, t) ∧
      callbacks e = [] ∧ (answered_2xx e = true ↔ state = kDIALStatusRunning) ∧
      t.world = s.world := by
  have hrefusal (status : ℕ) (reason : String) (hcode : (dec status).length = 3)
      (hfirst : (dec status).head? ≠ some (chr '2')) (hstate : state ≠ kDIALStatusRunning) :
      ∃ e t, (do http_error status reason; ds_unlock : Server W Unit) s = some ((), e, t) ∧
        callbacks e = [] ∧ (answered_2xx e = true ↔ state = kDIALStatusRunning) ∧
        t.world = s.world := by
    obtain ⟨e, hrun, hcalls, -⟩ := refusal_run status reason hcode s
    have hrefused := (refusal_eq_some hcode hfirst hrun).1
    exact ⟨e, _, hrun, hcalls, by simp [hrefused, hstate], rfl⟩
  unfold answer_start
  split_ifs with h201 h200
  · exact ⟨_, _, rfl, rfl, iff_of_true (answered_created rfl rfl _ _ _ _ _) h201.1, rfl⟩
  · exact ⟨_, _, rfl, rfl, iff_of_true (answered_created rfl rfl _ _ _ _ _) h200.1, rfl⟩
  all_goals
    have hstate : state ≠ kDIALStatusRunning := by
      rintro rfl
      cases response200Flag <;> simp at h201 h200
  · exact hrefusal 403 "Forbidden" rfl (by decide) hstate
  · exact hrefusal 401 "Unauthorized" rfl (by decide) hstate
  · exact hrefusal 501 "Not Implemented" rfl (by decide) hstate
  · exact hrefusal 503 "Service Unavailable" rfl (by decide) hstate

/-- An admitted start calls both callbacks once, and its answer says what the second returned. -/
theorem start_app_admitted (h : Admitted (start_body conn) origin_header app_name)
    (happ : s.apps[pos]? = some app) :
    ∃ e t, start_app conn request_info app_name origin_header pos app s = some ((), e, t) ∧
      callbacks e = start_calls conn request_info app_name s.platform.port pos app ∧
      (answered_2xx e = true ↔ (start_result conn request_info app_name s.platform.port app
        s.world).1 = kDIALStatusRunning) ∧
      t.world = (start_result conn request_info app_name s.platform.port app s.world).2.2 := by
  have hbad : isBadPayload (start_body conn) = false := isBadPayload_eq_false.mpr h.printable
  have hstring : cstr (start_body conn) = start_body conn :=
    cstr_of_notMem (zero_notMem_of_isBadPayload hbad)
  have hyoutube : ¬(origin_header = none ∧ (strstr app_name (bytes "YouTube")).isSome = true) := by
    rw [strstr_isSome, not_and_or]
    exact h.origin
  have hport : (DIAL_get_port : Server W UInt16) s = some (s.platform.port, [], s) := rfl
  -- The state that is read is the one that was assigned last.
  have hstate (f g : DIALApp W → DIALApp W) (world : W) : let r : System W :=
      { s with apps := (s.apps.modify pos f).modify pos g, world }
      get_state pos app r = some ((g (f app)).state, [], r) := by
    refine get_state_apply ?_
    rw [List.getElem?_modify_eq, List.getElem?_modify_eq, happ]
    rfl
  unfold start_app
  simp only
  rw [dif_neg (Nat.not_lt.mpr h.fits), hbad, if_neg (by simp), bind_of_some hport, if_neg hyoutube,
    bind_of_some (call_status_cb_apply pos app app_name none s), bind_of_some (set_app_apply _ _ _),
    bind_of_some (call_start_cb_apply pos app app_name _ _ _ _),
    bind_of_some (set_app_apply _ _ _), hstring]
  dsimp only
  rw [bind_of_some (hstate _ _ _)]
  obtain ⟨e, t, hrun, hcalls, hanswer, hworld⟩ := answer_start_run pos app_name
    (inet_ntop request_info.local_addr) s.platform.port origin_header
    (copy_payload (start_body conn) (Nat.not_lt.mpr h.fits)) _ _ _
  rw [hrun]
  refine ⟨_, t, rfl, ?_, hanswer, hworld⟩
  simp only [callbacks_append, hcalls]
  rfl

/-- **Admission of starts.** A start of a registered application that gets the mutex calls both
callbacks, each exactly once, if and only if it is admitted, and the payload that it passes is the
body; otherwise it calls none, its answer is 413, 400 or 403, and the records stay as they are. It
returns when the mutex is free. What counts is the same for what is read and for the whole body. -/
theorem start_admission_iff (happ : s.apps[find_app s.apps app_name]? = some app)
    (hgranted : s.supply 0 = true) :
    (s.mux = false → ∃ e t,
        handle_app_start conn request_info app_name origin_header s = some ((), e, t)) ∧
      (∀ e t, handle_app_start conn request_info app_name origin_header s = some ((), e, t) →
        (callbacks e = start_calls conn request_info app_name s.platform.port
            (find_app s.apps app_name) app ↔
          Admitted (start_body conn) origin_header app_name) ∧
        (¬Admitted (start_body conn) origin_header app_name →
          callbacks e = [] ∧ (∃ code ∈ start_refusals, answer e = some code) ∧ t.apps = s.apps)) ∧
      ∀ body, Receives conn body →
        (Admitted (start_body conn) origin_header app_name ↔
          Admitted body origin_header app_name) ∧
        (Admitted body origin_header app_name → start_body conn = body) := by
  have happs : (locked s).apps[find_app s.apps app_name]? = some app := happ
  have hreceived : ∀ body, Receives conn body → _ := fun body hbody =>
    admitted_received hbody origin_header app_name
  cases hmux : s.mux with
  | true =>
    -- A mutex that is held is waited for without end.
    have hwaits : handle_app_start conn request_info app_name origin_header s = none :=
      with_app_waits hgranted hmux _
    refine ⟨fun h => absurd h (by simp), fun e t h => ?_, hreceived⟩
    rw [hwaits] at h
    exact absurd h (by simp)
  | false =>
    have hrun : handle_app_start conn request_info app_name origin_header s = _ :=
      with_app_found hgranted hmux happ _
    by_cases hadmitted : Admitted (start_body conn) origin_header app_name
    · obtain ⟨e, t, hstart, hcalls, -⟩ := start_app_admitted hadmitted happs
      rw [hstart, Option.map_some] at hrun
      refine ⟨fun _ => ⟨_, _, hrun⟩, fun e' t' h => ?_, hreceived⟩
      rw [hrun, Option.some.injEq, Prod.mk.injEq, Prod.mk.injEq] at h
      obtain ⟨-, rfl, rfl⟩ := h
      exact ⟨iff_of_true hcalls hadmitted, fun h => absurd hadmitted h⟩
    · obtain ⟨e, hstart, hcalls, hanswer⟩ :=
        start_app_refused hadmitted (find_app s.apps app_name) app (locked s)
      rw [hstart, Option.map_some] at hrun
      refine ⟨fun _ => ⟨_, _, hrun⟩, fun e' t' h => ?_, hreceived⟩
      rw [hrun, Option.some.injEq, Prod.mk.injEq, Prod.mk.injEq] at h
      obtain ⟨-, rfl, rfl⟩ := h
      have hnone : callbacks (.lock :: e) = [] := hcalls
      exact ⟨iff_of_false (by simp [hnone, start_calls]) hadmitted, fun _ => ⟨hnone, hanswer, rfl⟩⟩

end Start

/-- A body of one parameter is admitted, and both callbacks are called; a body with a line feed is
refused, and nothing is called. -/
theorem youtube_starts_admitted :
    (∃ e t, (start_youtube (bytes "v=1")).exec youtube_server = some ((), e, t) ∧
        (callbacks e).length = 2) ∧
      ∀ e t, (start_youtube (bytes "v=1\n")).exec youtube_server = some ((), e, t) →
        callbacks e = [] ∧ t.apps = youtube_server.apps := by
  have hstart (body : Bytes) := @start_admission_iff _ ⟨body.length, 0, body, []⟩
    ⟨bytes "POST", bytes "/apps/YouTube", none, ⟨192, 168, 0, 2⟩, ⟨192, 168, 0, 3⟩, []⟩
    (bytes "YouTube") (some (bytes "package:com.google.android.youtube")) _ youtube_server rfl rfl
  constructor
  · obtain ⟨hreturns, hruns, -⟩ := hstart (bytes "v=1")
    obtain ⟨e, t, hrun⟩ := hreturns rfl
    have hadmitted : Admitted (bytes "v=1") (some (bytes "package:com.google.android.youtube"))
        (bytes "YouTube") :=
      ⟨by decide, by decide, .inl (by simp)⟩
    refine ⟨e, t, hrun, ?_⟩
    rw [(hruns e t hrun).1.mpr (by rwa [start_body_buffered (by decide)])]
    rfl
  · intro e t hrun
    obtain ⟨-, hruns, -⟩ := hstart (bytes "v=1\n")
    have hrefused : ¬Admitted (bytes "v=1\n") (some (bytes "package:com.google.android.youtube"))
        (bytes "YouTube") := fun h => absurd (h.printable (chr '\n') (by decide)) (by decide)
    obtain ⟨hnone, -, happs⟩ :=
      (hruns e t hrun).2 (by rwa [start_body_buffered (by decide)])
    exact ⟨hnone, happs⟩

end DialServer
