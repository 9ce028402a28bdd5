import DialServer.DialData.Replace
import DialServer.Router.HeaderNames
import DialServer.Router.Responses

/-!
# One complete answer to each request

Which requests get exactly one complete answer. `Answers` runs a call and looks at the texts that it
writes; the rules take it through the steps that write nothing and through the branches, down to the
text that is written. What stands at the end of each branch is known from `Responses`: an error is
always an answer, and what an accepted request gets is one if the origin it prints is that of the
request. The conditions that this leaves are gathered in `Answerable`.
-/

namespace DialServer

open CLib Program DIALStatus

variable {W : Type}

/-- The texts that a call writes. -/
def texts (e : List Event) : List Bytes :=
  e.filterMap fun
    | .write text => some text
    | _ => none

/-- The call returns, and what it has written is one complete response. -/
def Answers (origin : Option Bytes) (p : Server W Unit) (s : System W) : Prop :=
  ∃ e t, p s = some ((), e, t) ∧ Answered origin (texts e)

section Rules

variable {origin : Option Bytes} {s t : System W} {e : List Event}

@[simp] theorem texts_append (e₁ e₂ : List Event) : texts (e₁ ++ e₂) = texts e₁ ++ texts e₂ :=
  List.filterMap_append ..

/-- A first part that writes nothing. -/
theorem answers_bind {α : Type} {p : Server W α} {f : α → Server W Unit} {a : α}
    (h : p s = some (a, e, t)) (he : texts e = []) :
    Answers origin (p >>= f) s ↔ Answers origin (f a) t := by
  constructor
  · rintro ⟨e', u, hp, hanswered⟩
    obtain ⟨a', e₁, t', e₂, hfirst, hf, rfl⟩ := bind_eq_some.mp hp
    rw [h, Option.some.injEq, Prod.mk.injEq, Prod.mk.injEq] at hfirst
    obtain ⟨rfl, rfl, rfl⟩ := hfirst
    exact ⟨e₂, u, hf, by simpa [he] using hanswered⟩
  · rintro ⟨e₂, u, hf, hanswered⟩
    exact ⟨e ++ e₂, u, bind_eq_some.mpr ⟨a, e, t, e₂, h, hf, rfl⟩, by simpa [he] using hanswered⟩

/-- A call that does not return is no answer. -/
theorem not_answers_bind {α : Type} {p : Server W α} {f : α → Server W Unit} (h : p s = none) :
    ¬Answers origin (p >>= f) s := by
  rintro ⟨e, t, hp, -⟩
  rw [bind_apply, h] at hp
  exact absurd hp (by simp)

/-- A call whose run is known. -/
theorem answers_iff {p : Server W Unit} (h : p s = some ((), e, t)) :
    Answers origin p s ↔ Answered origin (texts e) := by
  unfold Answers
  rw [h]
  simp

/-- The way out through an error is an answer. -/
theorem answers_refusal (status : ℕ) (reason : String) (h : (status, reason) ∈ server_errors) :
    Answers origin (do http_error status reason; ds_unlock : Server W Unit) s :=
  ⟨_, _, rfl, answered_error h origin⟩

/-- So is an error without the mutex. -/
theorem answers_error (status : ℕ) (reason : String) (h : (status, reason) ∈ server_errors) :
    Answers origin (http_error status reason : Server W Unit) s :=
  ⟨_, _, rfl, answered_error h origin⟩

/-- The way out through a reply. -/
theorem answers_reply (text : Bytes) :
    Answers origin (do reply text; ds_unlock : Server W Unit) s ↔
      Answered origin [mg_printf text] := by
  have h : (do reply text; ds_unlock : Server W Unit) s =
      some ((), [.write (mg_printf text), .unlock], { s with mux := false }) := rfl
  rw [answers_iff h]
  rfl

/-- Taking the mutex in front of a handler's work: an answer without it, and else it has to be
free. -/
theorem answers_lock {q : Server W Unit} :
    Answers origin (do if !(← ds_lock) then internal_server_error else q) s ↔
      s.supply 0 = false ∨ (s.mux = false ∧ Answers origin q (locked s)) := by
  cases h : s.supply 0 with
  | false =>
    rw [answers_bind (ds_lock_refused h) rfl]
    have herror : Answers origin (internal_server_error : Server W Unit)
        { s with supply := s.supply.after 1 } :=
      answers_error 500 "500 Internal Server Error" (by decide)
    simpa using herror
  | true =>
    cases hmux : s.mux with
    | true => simpa using not_answers_bind (ds_lock_waits h hmux)
    | false =>
      rw [answers_bind (ds_lock_taken h hmux) rfl]
      simp

/-- The lookup: an answer when no record has the name, and else what the work on the record
gives. -/
theorem answers_found {app_name : Bytes} {body : ℕ → DIALApp W → Server W Unit} :
    Answers origin (found app_name body) s ↔
      ∀ app, s.apps[find_app s.apps app_name]? = some app →
        Answers origin (body (find_app s.apps app_name) app) s := by
  have hread : (get_app app_name : Server W _) s =
      some ((find_app s.apps app_name, s.apps[find_app s.apps app_name]?), [], s) := rfl
  unfold found
  rw [answers_bind hread rfl]
  cases h : s.apps[find_app s.apps app_name]? with
  | none => simpa using answers_refusal 404 "Not Found" (by decide)
  | some app => simp

/-- The opening that the handlers share. -/
theorem answers_with_app {app_name : Bytes} {body : ℕ → DIALApp W → Server W Unit} :
    Answers origin (with_app app_name body) s ↔ s.supply 0 = false ∨ (s.mux = false ∧
      ∀ app, s.apps[find_app s.apps app_name]? = some app →
        Answers origin (body (find_app s.apps app_name) app) (locked s)) := by
  unfold with_app
  rw [answers_lock, answers_found]
  rfl

/-- The state that is read behind an assignment is the one that was assigned. -/
theorem answers_get_state {pos : ℕ} {app app' : DIALApp W} {f : DIALApp W → DIALApp W}
    {k : DIALStatus → Server W Unit} (h : s.apps[pos]? = some app) :
    Answers origin (do set_app pos f; let state ← get_state pos app'; k state) s ↔
      Answers origin (k (f app).state) { s with apps := s.apps.modify pos f } := by
  have hstate : get_state pos app' { s with apps := s.apps.modify pos f } =
      some ((f app).state, [], { s with apps := s.apps.modify pos f }) := by
    unfold get_state
    rw [read_apply, List.getElem?_modify_eq, h]
    rfl
  rw [answers_bind (set_app_apply pos f s) rfl, answers_bind hstate rfl]

end Rules

/-! ## The handlers -/

/-- The text that is printed for the origin is a header's value and fits. -/
structure Printable (origin_header : Option Bytes) : Prop where
  value : HeaderValue (print_ptr origin_header)
  size : (print_ptr origin_header).length < MAX_REQUEST_SIZE

section Handlers

variable {origin origin_header : Option Bytes} {app_name : Bytes} {s : System W}

/-- A stop is accepted when the application is not stopped, and it is not the system. -/
def StopAccepted (app_name : Bytes) (world : W) (app : DIALApp W) : Prop :=
  app_name ≠ bytes "system" ∧
    (app.callbacks.status_cb app_name app.run_id (some false) app.callback_data world).1 ≠
      kDIALStatusStopped

/-- A hiding is accepted when the application is running or hidden, and says that it is hidden
then. -/
def HideAccepted (app_name : Bytes) (world : W) (app : DIALApp W) : Prop :=
  let r := app.callbacks.status_cb app_name app.run_id (some false) app.callback_data world
  (r.1 = kDIALStatusRunning ∨ r.1 = kDIALStatusHide) ∧
    (app.callbacks.hide_cb app_name app.run_id app.callback_data r.2.2).1 = kDIALStatusHide

/-- The work of a stop on its application. -/
theorem answers_stop_app (hprint : Printable origin_header) {pos : ℕ} {app : DIALApp W}
    (happ : s.apps[pos]? = some app) :
    Answers origin (stop_app app_name origin_header pos app) s ↔
      ((app.callbacks.status_cb app_name app.run_id (some false) app.callback_data s.world).1 ≠
        kDIALStatusStopped → origin = some (print_ptr origin_header)) := by
  have hafter : ∀ world, ({ s with world } : System W).apps[pos]? = some app := fun _ => happ
  unfold stop_app
  rw [answers_bind (call_status_cb_apply pos app app_name (some false) s) rfl]
  simp only
  rw [answers_get_state (hafter _)]
  split_ifs with hstopped
  · exact iff_of_true (answers_refusal 404 "Not Found" (by decide)) fun h => absurd hstopped h
  · refine (answers_iff rfl).trans ((answered_ok_iff hprint.value hprint.size).trans ?_)
    exact ⟨fun h _ => h, fun h => h hstopped⟩

/-- The work of a hiding on its application. -/
theorem answers_hide_app (hprint : Printable origin_header) {pos : ℕ} {app : DIALApp W}
    (happ : s.apps[pos]? = some app) :
    Answers origin (hide_app app_name origin_header pos app) s ↔
      (HideAccepted app_name s.world app → origin = some (print_ptr origin_header)) := by
  have hafter : ∀ world, ({ s with world } : System W).apps[pos]? = some app := fun _ => happ
  unfold hide_app
  rw [answers_bind (call_status_cb_apply pos app app_name (some false) s) rfl]
  simp only
  rw [answers_get_state (hafter _)]
  split_ifs with hshown
  · refine iff_of_true (answers_refusal 404 "Not Found" (by decide)) fun h => ?_
    exact absurd h.1 (not_or.mpr hshown)
  · refine (answers_bind rfl rfl).trans ?_
    split_ifs with hhidden
    · exact iff_of_true (answers_refusal 501 "Not Implemented" (by decide)) fun h =>
        absurd h.2 hhidden
    · have haccepted : HideAccepted app_name s.world app :=
        ⟨not_and_or.mp hshown |>.imp not_not.mp not_not.mp, not_not.mp hhidden⟩
      refine (answers_iff rfl).trans ((answered_ok_iff hprint.value hprint.size).trans ?_)
      exact ⟨fun h _ => h, fun h => h haccepted⟩

/-- Printing the dial data returns, with or without memory. -/
theorem total_additional_data_loop (data : List DIALData) (p : Bytes) :
    Total (additional_data_loop data p) := by
  have hencode : ∀ src n, Total (url_decode_xml_encode src n) := fun src n =>
    returns_bind total_request fun _ => returns_ite (fun _ => total_pure _) fun _ => total_pure _
  induction data generalizing p with
  | nil => exact total_pure _
  | cons first rest ih =>
    refine returns_bind total_request fun _ => ?_
    refine returns_ite (fun _ => total_pure _) fun _ => returns_bind (hencode _ _) fun key => ?_
    cases key with
    | none => exact total_pure _
    | some key =>
      refine returns_bind total_request fun _ => ?_
      refine returns_ite (fun _ => total_pure _) fun _ => returns_bind (hencode _ _) fun value => ?_
      cases value with
      | none => exact total_pure _
      | some value => exact ih _

/-- The work of a status request on its application. -/
theorem answers_status_app (hprint : Printable origin_header) {pos : ℕ} {app : DIALApp W}
    (happ : s.apps[pos]? = some app) (below_2_09 : Bool) :
    Answers origin (status_app below_2_09 app_name origin_header pos app) s ↔
      ((∃ dial_data e supply, additional_data_loop app.dial_data [] s.supply =
        some (some dial_data, e, supply)) → origin = some (print_ptr origin_header)) := by
  obtain ⟨r, e, supply, hloop, -⟩ := total_additional_data_loop app.dial_data [] s.supply trivial
  have halloc : (alloc (additional_data_loop app.dial_data []) : Server W _) s =
      some (r, [], { s with supply }) := within_eq_some.mpr ⟨e, supply, hloop, rfl, rfl⟩
  have hafter : ∀ world, ({ s with supply, world } : System W).apps[pos]? = some app :=
    fun _ => happ
  unfold status_app
  rw [answers_bind halloc rfl]
  cases r with
  | none =>
    refine iff_of_true (answers_refusal 500 "500 Internal Server Error" (by decide)) ?_
    rintro ⟨dial_data, e', supply', h⟩
    rw [hloop] at h
    simp at h
  | some dial_data =>
    simp only
    rw [answers_bind (call_status_cb_apply pos app app_name (some false) _) rfl]
    simp only
    rw [answers_get_state (hafter _)]
    refine (answers_iff rfl).trans ((answered_status_iff hprint.value hprint.size _ _ _ _).trans ?_)
    exact ⟨fun h _ => h, fun h => h ⟨dial_data, e, supply, hloop⟩⟩

/-- A start is accepted when the body is not refused, YouTube has an origin, and the application
says that it is running then. -/
structure StartAccepted (conn : mg_connection) (request_info : mg_request_info)
    (origin_header : Option Bytes) (app_name : Bytes) (dial_port : UInt16) (world : W)
    (app : DIALApp W) : Prop where
  fits : (start_body conn).length ≤ DIAL_MAX_PAYLOAD
  printable : isBadPayload (start_body conn) = false
  origin : ¬(origin_header = none ∧ (strstr app_name (bytes "YouTube")).isSome)
  running : (app.callbacks.start_cb app_name (cstr (start_body conn)) request_info.query_string
    (additional_data_param app.useAdditionalData dial_port app_name) app.run_id app.callback_data
    (app.callbacks.status_cb app_name app.run_id none app.callback_data world).2.2).1 =
      kDIALStatusRunning

/-- The answers to a start, for the state of the application. -/
theorem answers_answer_start (hvalue : HeaderValue (print_ptr origin_header))
    (hsize : app_name.length + (print_ptr origin_header).length ≤ 2 * MAX_REQUEST_SIZE - 512)
    (pos : ℕ) (addr : InAddr) (dial_port : UInt16) (payload : Payload) (response200Flag : Bool)
    (state : DIALStatus) :
    Answers origin (answer_start pos app_name (inet_ntop addr) dial_port origin_header payload
      response200Flag state) s ↔
        (state = kDIALStatusRunning → CreatedAllowed origin origin_header app_name) := by
  unfold answer_start
  split_ifs with h201 h200 hforbidden hunauth hnotimplemented
  · refine (answers_iff rfl).trans
      ((answered_created_iff (.inr rfl) hvalue addr dial_port hsize).trans ?_)
    exact ⟨fun h _ => h, fun h => h h201.1⟩
  · refine (answers_iff rfl).trans
      ((answered_created_iff (.inl rfl) hvalue addr dial_port hsize).trans ?_)
    exact ⟨fun h _ => h, fun h => h h200.1⟩
  all_goals
    have hnot : state ≠ kDIALStatusRunning := by
      rintro rfl
      cases response200Flag <;> simp at h201 h200
  · exact iff_of_true (answers_refusal 403 "Forbidden" (by decide)) fun h => absurd h hnot
  · exact iff_of_true (answers_refusal 401 "Unauthorized" (by decide)) fun h => absurd h hnot
  · exact iff_of_true (answers_refusal 501 "Not Implemented" (by decide)) fun h => absurd h hnot
  · exact iff_of_true (answers_refusal 503 "Service Unavailable" (by decide)) fun h => absurd h hnot

/-- The work of a start on its application. -/
theorem answers_start_app (hvalue : HeaderValue (print_ptr origin_header))
    (hsize : app_name.length + (print_ptr origin_header).length ≤ 2 * MAX_REQUEST_SIZE - 512)
    {conn : mg_connection} {request_info : mg_request_info} {pos : ℕ} {app : DIALApp W}
    (happ : s.apps[pos]? = some app) :
    Answers origin (start_app conn request_info app_name origin_header pos app) s ↔
      (StartAccepted conn request_info origin_header app_name s.platform.port s.world app →
        CreatedAllowed origin origin_header app_name) := by
  have hafter : ∀ world f, ({ s with world, apps := s.apps.modify pos f } : System W).apps[pos]? =
      some (f app) := by
    intro world f
    rw [List.getElem?_modify_eq, happ]
    rfl
  unfold start_app
  simp only
  split_ifs with hlong hbad hyoutube
  · exact iff_of_true (answers_refusal 413 "413 Request Entity Too Large" (by decide)) fun h =>
      absurd h.fits (by omega)
  · exact iff_of_true (answers_refusal 400 "400 Bad Request" (by decide)) fun h =>
      absurd hbad (by simp [h.printable])
  · exact iff_of_true (answers_refusal 403 "Forbidden" (by decide)) fun h =>
      absurd hyoutube h.origin
  · have hport : (DIAL_get_port : Server W UInt16) s = some (s.platform.port, [], s) := rfl
    rw [answers_bind hport rfl, answers_bind (call_status_cb_apply pos app app_name none s) rfl,
      answers_bind (set_app_apply pos _ _) rfl,
      answers_bind (call_start_cb_apply pos app app_name _ _ _ _) rfl]
    simp only
    rw [answers_get_state (hafter _ _), answers_answer_start hvalue hsize]
    refine ⟨fun h haccepted => h haccepted.running, fun h hrunning => h ?_⟩
    exact ⟨by omega, by simpa using hbad, hyoutube, hrunning⟩

/-- A request for dial data is accepted when it is neither too long nor unprintable. -/
def DialDataAccepted (conn : mg_connection) (request_info : mg_request_info) (use_payload : Bool) :
    Prop :=
  ¬query_too_long request_info use_payload ∧
    isBadPayload (dial_data_body conn request_info use_payload) = false

/-- The data can be parsed and stored: there is memory for the copy of the text, and the file can be
opened. Otherwise the process ends. -/
def DialDataStored (body : Bytes) (supply : Supply) : Prop :=
  ∃ data e supply', parse_params (cstr body) supply = some (data, e, supply') ∧
    supply' 0 = true ∧ supply' 1 = true

/-- Storing returns, with the file written, or ends the process. -/
theorem store_dial_data_cases (name : Bytes) (data : List DIALData) (s : System W) :
    (s.supply 0 = true ∧ s.supply 1 = true ∧ ∃ t, store_dial_data name data s = some ((), [], t)) ∨
      (¬(s.supply 0 = true ∧ s.supply 1 = true) ∧ store_dial_data name data s = none) := by
  have hpath : (alloc (getAppPath name) : Server W _) s =
      some (if s.supply 0 then some (app_path name) else none, [],
        { s with supply := s.supply.after 1 }) :=
    within_eq_some.mpr ⟨[], _, getAppPath_apply name s.supply, rfl, rfl⟩
  unfold store_dial_data
  rw [bind_of_some hpath]
  cases h0 : s.supply 0 with
  | false => exact .inr ⟨by simp, rfl⟩
  | true =>
    have hopen : (alloc request : Server W Bool) { s with supply := s.supply.after 1 } =
        some (s.supply 1, [], { s with supply := (s.supply.after 1).after 1 }) :=
      alloc_request_eq_some.mpr ⟨rfl, rfl, rfl⟩
    simp only [if_true]
    rw [bind_of_some hopen]
    cases h1 : s.supply 1 with
    | false => exact .inr ⟨by simp, rfl⟩
    | true => exact .inl ⟨trivial, rfl, _, rfl⟩

/-- The work of a request for dial data on its application. -/
theorem answers_replace_dial_data (hprint : Printable origin_header) (body : Bytes) (pos : ℕ)
    (app : DIALApp W) :
    Answers origin (replace_dial_data body origin_header pos app) s ↔
      (isBadPayload body = false → origin = some (print_ptr origin_header) ∧
        DialDataStored body s.supply) := by
  unfold replace_dial_data
  split_ifs with hbad
  · exact iff_of_true (answers_refusal 400 "400 Bad Request" (by decide)) fun h =>
      absurd hbad (by simp [h])
  rw [answers_bind (set_app_apply pos _ s) rfl]
  have hgood : isBadPayload body = false := by simpa using hbad
  cases hparse : parse_params (cstr body) s.supply with
  | none =>
    have halloc : (alloc (parse_params (cstr body)) : Server W _)
        { s with apps := s.apps.modify pos fun app => { app with dial_data := [] } } = none := by
      unfold alloc within
      simp only [hparse]
    refine iff_of_false (not_answers_bind halloc) fun h => ?_
    obtain ⟨data, e, supply, hdata, -⟩ := (h hgood).2
    rw [hparse] at hdata
    simp at hdata
  | some r =>
    obtain ⟨data, e, supply⟩ := r
    have halloc : (alloc (parse_params (cstr body)) : Server W _)
        { s with apps := s.apps.modify pos fun app => { app with dial_data := [] } } =
          some (data, [], { s with
            apps := s.apps.modify pos fun app => { app with dial_data := [] }, supply }) :=
      within_eq_some.mpr ⟨e, supply, hparse, rfl, rfl⟩
    have hstored : DialDataStored body s.supply ↔ supply 0 = true ∧ supply 1 = true := by
      constructor
      · rintro ⟨data', e', supply', hdata, h0, h1⟩
        rw [hparse, Option.some.injEq, Prod.mk.injEq, Prod.mk.injEq] at hdata
        obtain ⟨-, -, rfl⟩ := hdata
        exact ⟨h0, h1⟩
      · exact fun h => ⟨data, e, supply, hparse, h.1, h.2⟩
    rw [answers_bind halloc rfl, answers_bind (set_app_apply pos _ _) rfl]
    rcases store_dial_data_cases app.name data { s with
      apps := (s.apps.modify pos fun app => { app with dial_data := [] }).modify pos
        fun app => { app with dial_data := data }, supply } with ⟨h0, h1, t, hstore⟩ | ⟨hno, hstore⟩
    · rw [answers_bind hstore rfl, answers_reply, answered_dial_data_iff hprint.value hprint.size]
      exact ⟨fun h _ => ⟨h, hstored.mpr ⟨h0, h1⟩⟩, fun h => (h hgood).1⟩
    · refine iff_of_false (not_answers_bind hstore) fun h => hno ?_
      exact hstored.mp (h hgood).2

/-- The same with the text that the request delivers. -/
theorem answers_dial_data_app (hprint : Printable origin_header) (conn : mg_connection)
    (request_info : mg_request_info) (use_payload : Bool) (pos : ℕ) (app : DIALApp W) :
    Answers origin (dial_data_app conn request_info origin_header use_payload pos app) s ↔
      (DialDataAccepted conn request_info use_payload →
        origin = some (print_ptr origin_header) ∧
          DialDataStored (dial_data_body conn request_info use_payload) s.supply) := by
  unfold dial_data_app DialDataAccepted dial_data_body query_too_long
  cases use_payload with
  | true => simpa using answers_replace_dial_data hprint _ pos app
  | false =>
    cases hquery : request_info.query_string with
    | none => simpa using answers_replace_dial_data hprint [] pos app
    | some query_string =>
      simp only [Bool.false_eq_true, if_false, Option.getD_some]
      split_ifs with hlong
      · refine iff_of_true (answers_refusal 413 "413 Request Entity Too Large" (by decide)) ?_
        exact fun h => absurd ⟨trivial, by omega⟩ h.1
      · rw [answers_replace_dial_data hprint query_string pos app]
        simp [hlong]

/-- What a handler needs besides its work: without the mutex it answers with an error, and else the
mutex must be free, and the work on the application, if there is one, must give an answer. -/
def HandlerAnswers (app_name : Bytes) (s : System W) (works : DIALApp W → Prop) : Prop :=
  s.supply 0 = false ∨
    (s.mux = false ∧ ∀ app, s.apps[find_app s.apps app_name]? = some app → works app)

/-- A handler answers when its work does. -/
theorem answers_handler {body : ℕ → DIALApp W → Server W Unit} {works : DIALApp W → Prop}
    (h : ∀ pos app, s.apps[pos]? = some app →
      (Answers origin (body pos app) (locked s) ↔ works app)) :
    Answers origin (with_app app_name body) s ↔ HandlerAnswers app_name s works := by
  rw [answers_with_app]
  unfold HandlerAnswers
  refine or_congr_right (and_congr_right fun _ => forall_congr' fun app => ?_)
  exact imp_congr_right fun happ => h _ app happ

/-- A start. -/
theorem answers_handle_app_start (hvalue : HeaderValue (print_ptr origin_header))
    (hsize : app_name.length + (print_ptr origin_header).length ≤ 2 * MAX_REQUEST_SIZE - 512)
    (conn : mg_connection) (request_info : mg_request_info) :
    Answers origin (handle_app_start conn request_info app_name origin_header) s ↔
      HandlerAnswers app_name s fun app => StartAccepted conn request_info origin_header app_name
        s.platform.port s.world app → CreatedAllowed origin origin_header app_name :=
  answers_handler fun _ _ happ => answers_start_app (s := locked s) hvalue hsize happ

/-- A hiding. -/
theorem answers_handle_app_hide (hprint : Printable origin_header) :
    Answers origin (handle_app_hide app_name origin_header) s ↔
      HandlerAnswers app_name s fun app => HideAccepted app_name s.world app →
        origin = some (print_ptr origin_header) :=
  answers_handler fun _ _ happ => answers_hide_app (s := locked s) hprint happ

/-- A request for dial data. -/
theorem answers_handle_dial_data (hprint : Printable origin_header) (conn : mg_connection)
    (request_info : mg_request_info) (use_payload : Bool) :
    Answers origin (handle_dial_data conn request_info app_name origin_header use_payload) s ↔
      HandlerAnswers app_name s fun _ => DialDataAccepted conn request_info use_payload →
        origin = some (print_ptr origin_header) ∧
          DialDataStored (dial_data_body conn request_info use_payload) (s.supply.after 1) :=
  answers_handler fun pos app _ =>
    answers_dial_data_app (s := locked s) hprint conn request_info use_payload pos app

/-- A stop, whose refusal of the system comes before the lookup. -/
theorem answers_handle_app_stop (hprint : Printable origin_header) :
    Answers origin (handle_app_stop app_name origin_header) s ↔
      HandlerAnswers app_name s fun app => StopAccepted app_name s.world app →
        origin = some (print_ptr origin_header) := by
  unfold handle_app_stop HandlerAnswers
  rw [answers_lock]
  refine or_congr_right (and_congr_right fun _ => ?_)
  split_ifs with hsystem
  · refine iff_of_true (answers_refusal 403 "Forbidden" (by decide)) fun app _ haccepted => ?_
    exact absurd hsystem haccepted.1
  · rw [answers_found]
    refine forall_congr' fun app => imp_congr_right fun happ => ?_
    refine (answers_stop_app hprint (s := locked s) happ).trans ?_
    exact ⟨fun h haccepted => h haccepted.2, fun h hrunning => h ⟨hsystem, hrunning⟩⟩

/-- A status request, which first looks for its parameter. -/
theorem answers_handle_app_status (hprint : Printable origin_header)
    (request_info : mg_request_info) :
    Answers origin (handle_app_status request_info app_name origin_header) s ↔
      ∃ version e supply,
        parse_param request_info.query_string (bytes "clientDialVer") s.supply =
          some (version, e, supply) ∧
        HandlerAnswers app_name { s with supply } fun app =>
          (∃ dial_data e' supply', additional_data_loop app.dial_data [] (supply.after 1) =
            some (some dial_data, e', supply')) → origin = some (print_ptr origin_header) := by
  have htotal : Total (parse_param request_info.query_string (bytes "clientDialVer")) := by
    unfold parse_param
    cases request_info.query_string with
    | none => exact total_pure _
    | some query_string =>
      simp only
      cases strstr query_string (bytes "clientDialVer") with
      | none => exact total_pure _
      | some start =>
        exact returns_bind total_request fun _ => returns_ite (fun _ => total_pure _) fun _ =>
          total_pure _
  obtain ⟨version, e, supply, hparse, -⟩ := htotal s.supply trivial
  have halloc : (alloc (parse_param request_info.query_string (bytes "clientDialVer")) :
      Server W _) s = some (version, [], { s with supply }) :=
    within_eq_some.mpr ⟨e, supply, hparse, rfl, rfl⟩
  have hplatform : (read System.platform : Server W _) { s with supply } =
      some (s.platform, [], { s with supply }) := rfl
  unfold handle_app_status
  rw [answers_bind halloc rfl, answers_bind hplatform rfl]
  refine (answers_handler (s := { s with supply }) fun pos app happ =>
    answers_status_app hprint (s := locked { s with supply }) happ _).trans ?_
  constructor
  · exact fun h => ⟨version, e, supply, hparse, h⟩
  · rintro ⟨version', e', supply', hparse', h⟩
    rw [hparse, Option.some.injEq, Prod.mk.injEq, Prod.mk.injEq] at hparse'
    obtain ⟨-, -, rfl⟩ := hparse'
    exact h

end Handlers

/-! ## The requests -/

/-- The value of the last header that is an `Origin` header, in any spelling. -/
def request_origin (request_info : mg_request_info) : Option Bytes :=
  ((request_info.http_headers.filter fun h => mg_strcasecmp_eq (bytes "Origin") h.name).map
    mg_header.value).getLast?

/-- The origin check returns, and if it lets the request through, what follows holds of the state
that it leaves. -/
def CheckedThen (origin_header : Option Bytes) (app_name : Bytes) (s : System W)
    (then_ : System W → Prop) : Prop :=
  ∃ refused e t, origin_refused origin_header app_name s = some (refused, e, t) ∧
    (refused = false → then_ t)

/-- The request has the origin that an answer prints. -/
def OwnOrigin (ri : mg_request_info) : Prop :=
  request_origin ri = some (print_ptr (origin_of ri))

/-- A request for the run of an application: it is refused, or it does not ask for the options, and
if it stops the application, it has an origin. -/
def RunAnswerable (ri : mg_request_info) (n : Bytes) (s : System W) : Prop :=
  CheckedThen (origin_of ri) n s fun t => ri.request_method ≠ bytes "OPTIONS" ∧
    (n ≠ [] ∧ ri.request_method = bytes "DELETE" →
      HandlerAnswers n t fun app => StopAccepted n t.world app → OwnOrigin ri)

/-- A request for an application: the same for a start, with the lines that the name adds to its
answer, and for a status request. -/
def AppAnswerable (conn : mg_connection) (ri : mg_request_info) (n : Bytes) (s : System W) : Prop :=
  CheckedThen (origin_of ri) n s fun t => ri.request_method ≠ bytes "OPTIONS" ∧
    (ri.request_method = bytes "POST" → HandlerAnswers n t fun app =>
      StartAccepted conn ri (origin_of ri) n t.platform.port t.world app →
        CreatedAllowed (request_origin ri) (origin_of ri) n) ∧
    (ri.request_method = bytes "GET" → ∃ version e supply,
      parse_param ri.query_string (bytes "clientDialVer") t.supply = some (version, e, supply) ∧
        HandlerAnswers n { t with supply } fun app =>
          (∃ dial_data e' supply', additional_data_loop app.dial_data [] (supply.after 1) =
            some (some dial_data, e', supply')) → OwnOrigin ri)

/-- A request to hide an application. -/
def HideAnswerable (ri : mg_request_info) (n : Bytes) (s : System W) : Prop :=
  CheckedThen (origin_of ri) n s fun t => ri.request_method ≠ bytes "OPTIONS" ∧
    (n ≠ [] ∧ ri.request_method = bytes "POST" →
      HandlerAnswers n t fun app => HideAccepted n t.world app → OwnOrigin ri)

/-- A request for the dial data of an application, which also has to be stored. -/
def DataAnswerable (conn : mg_connection) (ri : mg_request_info) (n : Bytes) (s : System W) :
    Prop :=
  CheckedThen (origin_of ri) n s fun t => ri.request_method ≠ bytes "OPTIONS" ∧
    HandlerAnswers n t fun _ =>
      DialDataAccepted conn ri (ri.request_method = bytes "POST") →
        OwnOrigin ri ∧ DialDataStored
          (dial_data_body conn ri (ri.request_method = bytes "POST")) (t.supply.after 1)

/-- The condition under which a request gets one complete answer. -/
def Answerable (conn : mg_connection) (ri : mg_request_info) (s : System W) : Prop :=
  match shape_of ri.uri with
  | .run => RunAnswerable ri (copied_name ri.uri RUN_URI.length) s
  | .app => AppAnswerable conn ri (ri.uri.drop APPS_URI.length) s
  | .hide => HideAnswerable ri (copied_name ri.uri (RUN_URI.length + HIDE_URI.length)) s
  | .dial_data => IsLocal ri → ∃ app_name e supply,
      parse_app_name (some ri.uri) s.supply = some (app_name, e, supply) ∧
        ∀ n, app_name = some n → DataAnswerable conn ri n { s with supply }
  | .unknown => True

section Requests

variable {conn : mg_connection} {ri : mg_request_info} {s : System W}

/-- The origin that the handler keeps is a header's value and fits into a request. -/
theorem Parsed.origin_value (h : Parsed ri) {value : Bytes} (horigin : origin_of ri = some value) :
    HeaderValue value ∧ value.length < MAX_REQUEST_SIZE := by
  obtain ⟨header, hmem, rfl⟩ := mem_of_last_origin ((origin_of_eq ri).symm.trans horigin)
  have := h.size header hmem
  exact ⟨h.value header hmem, by omega⟩

/-- So it can be printed. -/
theorem Parsed.printable (h : Parsed ri) : Printable (origin_of ri) := by
  refine ⟨headerValue_print_ptr fun value hv => (h.origin_value hv).1, ?_⟩
  cases horigin : origin_of ri with
  | none => decide
  | some value => exact (h.origin_value horigin).2

/-- It fits into an answer together with the name of the application. -/
theorem Parsed.created_size (h : Parsed ri) :
    (ri.uri.drop APPS_URI.length).length + (print_ptr (origin_of ri)).length ≤
      2 * MAX_REQUEST_SIZE - 512 := by
  have hname : (ri.uri.drop APPS_URI.length).length ≤ ri.uri.length := by simp
  have hmax : MAX_REQUEST_SIZE = 4096 := rfl
  have huri := h.uri_size
  cases horigin : origin_of ri with
  | none =>
    have hnull : (print_ptr none).length = 6 := rfl
    omega
  | some value =>
    obtain ⟨header, hmem, rfl⟩ := mem_of_last_origin ((origin_of_eq ri).symm.trans horigin)
    have := h.size header hmem
    simp only [print_ptr]
    omega

/-- The origin check writes nothing. -/
theorem texts_origin_refused {origin_header : Option Bytes} {app_name : Bytes} {refused : Bool}
    {e : List Event} {t : System W}
    (h : origin_refused origin_header app_name s = some (refused, e, t)) : texts e = [] := by
  have hkeeps := origin_refused_keeps (G := Guarantee.emits fun x => texts [x] = [])
    (fun _ _ => by simp) ⟨fun _ => by simp [texts], fun _ => by simp [texts]⟩ origin_header app_name
    s refused e t h
  refine List.filterMap_eq_nil_iff.mpr fun x hx => ?_
  have := hkeeps x hx
  cases x with
  | write text => simp [texts] at this
  | _ => rfl

/-- A branch of the router that checks the origin and chooses a decision: an answer comes from the
decision. -/
theorem answers_branch {origin origin_header : Option Bytes} {app_name : Bytes}
    {b : Server W Decision} {k : Bool → Decision} {then_ : System W → Prop}
    (hb : b = do let refused ← origin_refused origin_header app_name; return k refused)
    (hrefused : ∀ t : System W, Answers origin (perform conn ri (k true)) t)
    (hthen : ∀ t : System W, Answers origin (perform conn ri (k false)) t ↔ then_ t) :
    Answers origin (do let d ← b; perform conn ri d) s ↔
      CheckedThen origin_header app_name s then_ := by
  subst hb
  unfold CheckedThen
  cases hcheck : origin_refused origin_header app_name s with
  | none =>
    have hbranch : (do let refused ← origin_refused origin_header app_name; return k refused :
        Server W Decision) s = none := by
      rw [bind_apply, hcheck]
    simpa using not_answers_bind hbranch
  | some r =>
    obtain ⟨refused, e, t⟩ := r
    have hbranch : (do let refused ← origin_refused origin_header app_name; return k refused :
        Server W Decision) s = some (k refused, e, t) := by
      rw [bind_of_some hcheck]
      simp
    rw [answers_bind hbranch (texts_origin_refused hcheck)]
    cases refused with
    | true => simpa using hrefused t
    | false => simpa using hthen t

/-- An error that the router decides on is an answer. -/
theorem answers_perform_error {origin : Option Bytes} {status : ℕ} {reason : String}
    (h : (status, reason) ∈ server_errors) :
    Answers origin (perform conn ri (.error status reason)) s :=
  answers_error status reason h

/-- The options that the router decides on are not. -/
theorem not_answers_perform_options (hri : Parsed ri) {origin : Option Bytes} {methods : String}
    (h : methods = "DELETE, OPTIONS" ∨ methods = "GET, POST, OPTIONS" ∨
      methods = "POST, OPTIONS") :
    ¬Answers origin (perform conn ri (.options methods)) s := by
  have hmethods : (bytes methods).length ≤ 100 ∧ chr '\r' ∉ bytes methods := by
    rcases h with rfl | rfl | rfl <;> decide
  have hfits : (options_response (origin_of ri) methods).length < BUFSIZ :=
    options_response_fits (fun value hv => (hri.origin_value hv).2) hmethods.1
  rintro ⟨e, t, hperform, hanswered⟩
  obtain ⟨rfl, rfl⟩ := reply_eq_some.mp hperform
  exact not_answered_options hmethods.2 hri.printable.value hfits hanswered

/-- The branch for the run. -/
theorem answers_run (hri : Parsed ri) :
    Answers (request_origin ri) (do let d ← route_run ri (origin_of ri); perform conn ri d) s ↔
      RunAnswerable ri (copied_name ri.uri RUN_URI.length) s := by
  set n := copied_name ri.uri RUN_URI.length with hn
  have hbranch : (route_run ri (origin_of ri) : Server W Decision) = (do
      let refused ← origin_refused (origin_of ri) n
      return if refused then .error 403 "Forbidden"
        else if ri.request_method = bytes "OPTIONS" then .options "DELETE, OPTIONS"
        else if n ≠ [] ∧ ri.request_method = bytes "DELETE" then .stop n
        else .error 501 "Not Implemented") := by
    refine congrArg (origin_refused (origin_of ri) n >>= ·) (funext fun refused => ?_)
    rw [← hn]
    split_ifs <;> rfl
  refine answers_branch hbranch (fun t => answers_perform_error (by decide)) fun t => ?_
  simp only [Bool.false_eq_true, if_false]
  split_ifs with hoptions hdelete
  · exact iff_of_false (not_answers_perform_options hri (.inl rfl)) fun h => h.1 hoptions
  · refine (answers_handle_app_stop hri.printable).trans ?_
    exact ⟨fun h => ⟨hoptions, fun _ => h⟩, fun h => h.2 hdelete⟩
  · exact iff_of_true (answers_perform_error (by decide)) ⟨hoptions, fun h => absurd h hdelete⟩

/-- The branch for a name. -/
theorem answers_app (hri : Parsed ri) :
    Answers (request_origin ri) (do let d ← route_app ri (origin_of ri); perform conn ri d) s ↔
      AppAnswerable conn ri (ri.uri.drop APPS_URI.length) s := by
  have hsize := hri.created_size
  set n := ri.uri.drop APPS_URI.length with hn
  have hbranch : (route_app ri (origin_of ri) : Server W Decision) = (do
      let refused ← origin_refused (origin_of ri) n
      return if refused then
          if n = bytes "YouTube" ∨ n = bytes "Netflix" ∨ n = bytes "system" ∨
              n = bytes "YouTubeTV" then .error 403 "Forbidden"
          else .error 404 "Not Found"
        else if ri.request_method = bytes "OPTIONS" then .options "GET, POST, OPTIONS"
        else if ri.request_method = bytes "POST" then .start n
        else if ri.request_method = bytes "GET" then .status n
        else .error 501 "Not Implemented") := by
    refine congrArg (origin_refused (origin_of ri) n >>= ·) (funext fun refused => ?_)
    rw [← hn]
    split_ifs <;> rfl
  refine answers_branch hbranch (fun t => ?_) fun t => ?_
  · simp only [if_true]
    split_ifs
    · exact answers_perform_error (by decide)
    · exact answers_perform_error (by decide)
  simp only [Bool.false_eq_true, if_false]
  split_ifs with hoptions hpost hget
  · exact iff_of_false (not_answers_perform_options hri (.inr (.inl rfl))) fun h => h.1 hoptions
  · have hnot : ri.request_method ≠ bytes "GET" := by rw [hpost]; decide
    refine (answers_handle_app_start hri.printable.value hsize conn ri).trans ?_
    exact ⟨fun h => ⟨hoptions, fun _ => h, fun h => absurd h hnot⟩, fun h => h.2.1 hpost⟩
  · refine (answers_handle_app_status hri.printable ri).trans ?_
    exact ⟨fun h => ⟨hoptions, fun h => absurd h hpost, fun _ => h⟩, fun h => h.2.2 hget⟩
  · exact iff_of_true (answers_perform_error (by decide))
      ⟨hoptions, fun h => absurd h hpost, fun h => absurd h hget⟩

/-- The branch for hiding. -/
theorem answers_hide (hri : Parsed ri) :
    Answers (request_origin ri) (do let d ← route_hide ri (origin_of ri); perform conn ri d) s ↔
      HideAnswerable ri (copied_name ri.uri (RUN_URI.length + HIDE_URI.length)) s := by
  set n := copied_name ri.uri (RUN_URI.length + HIDE_URI.length) with hn
  have hbranch : (route_hide ri (origin_of ri) : Server W Decision) = (do
      let refused ← origin_refused (origin_of ri) n
      return if refused then .error 403 "Forbidden"
        else if ri.request_method = bytes "OPTIONS" then .options "POST, OPTIONS"
        else if n ≠ [] ∧ ri.request_method = bytes "POST" then .hide n
        else .error 501 "Not Implemented") := by
    refine congrArg (origin_refused (origin_of ri) n >>= ·) (funext fun refused => ?_)
    rw [← hn]
    split_ifs <;> rfl
  refine answers_branch hbranch (fun t => answers_perform_error (by decide)) fun t => ?_
  simp only [Bool.false_eq_true, if_false]
  split_ifs with hoptions hpost
  · exact iff_of_false (not_answers_perform_options hri (.inr (.inr rfl))) fun h => h.1 hoptions
  · refine (answers_handle_app_hide hri.printable).trans ?_
    exact ⟨fun h => ⟨hoptions, fun _ => h⟩, fun h => h.2 hpost⟩
  · exact iff_of_true (answers_perform_error (by decide)) ⟨hoptions, fun h => absurd h hpost⟩

/-- The branch for dial data, when there is a name. -/
theorem answers_data (hri : Parsed ri) (n : Bytes) :
    Answers (request_origin ri) (do
        let d ← (do
          if ← origin_refused (origin_of ri) n then return .error 403 "Forbidden"
          else if ri.request_method = bytes "OPTIONS" then return .options "POST, OPTIONS"
          else return .dial_data n (ri.request_method = bytes "POST"))
        perform conn ri d) s ↔ DataAnswerable conn ri n s := by
  have hbranch : (do
      if ← origin_refused (origin_of ri) n then return .error 403 "Forbidden"
      else if ri.request_method = bytes "OPTIONS" then return .options "POST, OPTIONS"
      else return .dial_data n (ri.request_method = bytes "POST") : Server W Decision) = (do
      let refused ← origin_refused (origin_of ri) n
      return if refused then .error 403 "Forbidden"
        else if ri.request_method = bytes "OPTIONS" then .options "POST, OPTIONS"
        else .dial_data n (ri.request_method = bytes "POST")) := by
    refine congrArg (origin_refused (origin_of ri) n >>= ·) (funext fun refused => ?_)
    split_ifs <;> rfl
  refine answers_branch hbranch (fun t => answers_perform_error (by decide)) fun t => ?_
  simp only [Bool.false_eq_true, if_false]
  split_ifs with hoptions
  · exact iff_of_false (not_answers_perform_options hri (.inr (.inr rfl))) fun h => h.1 hoptions
  · refine (answers_handle_dial_data hri.printable conn ri _).trans ?_
    exact ⟨fun h => ⟨hoptions, h⟩, fun h => h.2⟩

/-- The name is parsed, or there is no memory for it. -/
theorem total_parse_app_name (uri : Bytes) : Total (parse_app_name (some uri)) := by
  have hcopy : ∀ n : Bytes, Total (do
      if ← request then return some n else return none : Alloc (Option Bytes)) := fun n =>
    returns_bind total_request fun _ => returns_ite (fun _ => total_pure _) fun _ => total_pure _
  unfold parse_app_name
  simp only
  cases strrchr uri (chr '/') with
  | none => exact hcopy _
  | some slash => exact returns_ite (fun _ => hcopy _) fun _ => hcopy _

/-- The branch for dial data. -/
theorem answers_route_dial_data (hri : Parsed ri) :
    Answers (request_origin ri)
        (do let d ← route_dial_data ri (origin_of ri); perform conn ri d) s ↔
      (IsLocal ri → ∃ app_name e supply,
        parse_app_name (some ri.uri) s.supply = some (app_name, e, supply) ∧
          ∀ n, app_name = some n → DataAnswerable conn ri n { s with supply }) := by
  have hlocal : strncmp_eq (inet_ntop ri.remote_addr) gLocalhost gLocalhost.length = true ↔
      IsLocal ri := strncmp_eq_length
  have hreturn : ∀ d : Decision, ∀ t : System W,
      (Answers (request_origin ri) (do let d ← (return d); perform conn ri d) t ↔
        Answers (request_origin ri) (perform conn ri d) t) := fun d t =>
    answers_bind (pure_apply d t) rfl
  obtain ⟨app_name, e, supply, hparse, -⟩ := total_parse_app_name ri.uri s.supply trivial
  have halloc : (alloc (parse_app_name (some ri.uri)) : Server W _) s =
      some (app_name, [], { s with supply }) := within_eq_some.mpr ⟨e, supply, hparse, rfl, rfl⟩
  unfold route_dial_data
  simp only
  by_cases h : strncmp_eq (inet_ntop ri.remote_addr) gLocalhost gLocalhost.length = true
  · have hparsed : (∃ app_name' e' supply',
        parse_app_name (some ri.uri) s.supply = some (app_name', e', supply') ∧
          ∀ n, app_name' = some n → DataAnswerable conn ri n { s with supply := supply' }) ↔
        ∀ n, app_name = some n → DataAnswerable conn ri n { s with supply } := by
      constructor
      · rintro ⟨app_name', e', supply', hparse', h⟩
        rw [hparse, Option.some.injEq, Prod.mk.injEq, Prod.mk.injEq] at hparse'
        obtain ⟨rfl, -, rfl⟩ := hparse'
        exact h
      · exact fun h => ⟨app_name, e, supply, hparse, h⟩
    rw [if_pos h, hparsed, bind_bind, answers_bind halloc rfl]
    simp only [hlocal.mp h, true_imp_iff]
    cases app_name with
    | none =>
      refine iff_of_true ((hreturn _ _).mpr (answers_perform_error (by decide))) fun n hn => ?_
      simp at hn
    | some n => simpa using answers_data hri n
  · rw [if_neg h, hreturn]
    exact iff_of_true (answers_perform_error (by decide)) fun h' => absurd (hlocal.mpr h') h

/-- A request that keeps the promise of the parser gets exactly one complete answer if and only if
it is `Answerable`. -/
theorem answers_request_handler (hri : Parsed ri) :
    Answers (request_origin ri) (request_handler conn ri) s ↔ Answerable conn ri s := by
  unfold request_handler Answerable route
  cases hshape : shape_of ri.uri with
  | run => exact answers_run hri
  | app => exact answers_app hri
  | hide => exact answers_hide hri
  | dial_data => exact answers_route_dial_data hri
  | unknown =>
    have hnotfound : Answers (request_origin ri) (do
        let d ← (return .error 404 "Not Found" : Server W Decision)
        perform conn ri d) s :=
      (answers_bind (pure_apply _ s) rfl).mpr (answers_perform_error (by decide))
    exact iff_of_true hnotfound trivial

end Requests

/-! ## Delivered requests -/

/-- **One complete answer.** A request that the web server has read and rewritten gets exactly one
complete answer if and only if it is `Answerable`. -/
theorem request_answered_iff {buf : Bytes} (hbuf : buf.length < MAX_REQUEST_SIZE)
    {local_addr remote_addr : InAddr} {ri : mg_request_info}
    (hri : parse_http_request buf local_addr remote_addr = some ri) (conn : mg_connection)
    (s : System W) :
    Answers (request_origin (normalise ri)) (request_handler conn (normalise ri)) s ↔
      Answerable conn (normalise ri) s :=
  answers_request_handler (parsed_of_parse_http_request hbuf hri).normalise

/-- The text of a request for the application `YouTube`, and the lines of its header. -/
def youtube_text (method header : String) : Bytes :=
  bytes method ++ bytes " /apps/YouTube HTTP/1.1\r\n" ++ bytes header ++ bytes "\r\n\r"

/-- What the parser makes of it. -/
def youtube_request (method : String) (http_headers : List mg_header) : mg_request_info :=
  { status_request with request_method := bytes method, http_headers }

/-- The web server does not rewrite it. -/
theorem normalise_youtube_request (method : String) (http_headers : List mg_header) :
    normalise (youtube_request method http_headers) = youtube_request method http_headers := by
  have huri : (normalise (youtube_request method http_headers)).uri = app_uri (bytes "YouTube") :=
    ForPath.resource (.inl rfl) link_name_youtube (app_uri_eq_path _) fun seg hseg => by
      rcases List.mem_pair.mp hseg with rfl | rfl
      · exact .inr (List.mem_cons_self ..)
      · exact .inl rfl
  have hquery : (split_query (bytes "/apps/YouTube")).2 = none := by decide
  exact congrArg₂ (fun uri query_string =>
    ({ youtube_request method http_headers with uri, query_string } : mg_request_info)) huri hquery

/-- The header of an origin that the application allows. -/
def allowed_origin : List mg_header := [⟨bytes "Origin", bytes "https://www.youtube.com"⟩]

/-- A status request with an origin that is allowed. -/
theorem request_answered_status :
    Answers (some (bytes "https://www.youtube.com"))
      (request_handler no_body (youtube_request "GET" allowed_origin)) youtube_server := by
  have hparse : parse_http_request (youtube_text "GET" "Origin: https://www.youtube.com")
      ⟨192, 168, 0, 2⟩ ⟨192, 168, 0, 3⟩ = some (youtube_request "GET" allowed_origin) := by
    decide
  have hsize : (youtube_text "GET" "Origin: https://www.youtube.com").length <
      MAX_REQUEST_SIZE := by
    decide
  have hiff := request_answered_iff hsize hparse no_body youtube_server
  rw [normalise_youtube_request] at hiff
  refine hiff.mpr ?_
  have hany : (entries youtube_list).any (entry_matches (bytes "https://www.youtube.com")) =
      true := by
    decide
  have hcheck : origin_refused (origin_of (youtube_request "GET" allowed_origin))
      (bytes "YouTube") youtube_server = some (false, [.lock, .unlock], youtube_server) := by
    refine (youtube_origin_refused (by decide)).trans ?_
    rw [hany]
    rfl
  refine ⟨false, _, _, hcheck, fun _ => ⟨by decide, fun h => absurd h (by decide), fun _ => ?_⟩⟩
  exact ⟨none, [], plenty, rfl, .inr ⟨rfl, fun _ _ _ => rfl⟩⟩

/-- A request for the options of the application gets a header block that is not closed, and a
status request without an origin is told that `(null)` is the origin it is allowed. -/
theorem request_not_answered :
    parse_http_request (youtube_text "OPTIONS" "Host: dial") ⟨192, 168, 0, 2⟩ ⟨192, 168, 0, 3⟩ =
        some (youtube_request "OPTIONS" [⟨bytes "Host", bytes "dial"⟩]) ∧
      ¬Answers none (request_handler no_body
        (youtube_request "OPTIONS" [⟨bytes "Host", bytes "dial"⟩])) youtube_server ∧
      parse_http_request (youtube_text "GET" "Host: dial") ⟨192, 168, 0, 2⟩ ⟨192, 168, 0, 3⟩ =
        some (youtube_request "GET" [⟨bytes "Host", bytes "dial"⟩]) ∧
      ¬Answers none (request_handler no_body
        (youtube_request "GET" [⟨bytes "Host", bytes "dial"⟩])) youtube_server := by
  have hoptions : parse_http_request (youtube_text "OPTIONS" "Host: dial") ⟨192, 168, 0, 2⟩
      ⟨192, 168, 0, 3⟩ = some (youtube_request "OPTIONS" [⟨bytes "Host", bytes "dial"⟩]) := by
    decide
  have hget : parse_http_request (youtube_text "GET" "Host: dial") ⟨192, 168, 0, 2⟩
      ⟨192, 168, 0, 3⟩ = some (youtube_request "GET" [⟨bytes "Host", bytes "dial"⟩]) := by
    decide
  refine ⟨hoptions, fun h => ?_, hget, fun h => ?_⟩
  · have hanswerable := (answers_request_handler
      (parsed_of_parse_http_request (by decide) hoptions)).mp h
    obtain ⟨refused, e, t, hcheck, hthen⟩ := hanswerable
    obtain rfl : refused = false := congrArg (fun r => r.1) (Option.some.inj hcheck).symm
    exact absurd rfl (hthen rfl).1
  · have hanswerable := (answers_request_handler
      (parsed_of_parse_http_request (by decide) hget)).mp h
    obtain ⟨refused, e, t, hcheck, hthen⟩ := hanswerable
    obtain ⟨rfl, -, rfl⟩ : refused = false ∧ e = [] ∧ t = youtube_server := by
      have := (Option.some.inj hcheck).symm
      rw [Prod.mk.injEq, Prod.mk.injEq] at this
      exact this
    obtain ⟨version, e', supply, hparam, hhandler⟩ := (hthen rfl).2.2 rfl
    have hsupply : supply = plenty := congrArg (fun r => r.2.2) (Option.some.inj hparam).symm
    subst hsupply
    rcases hhandler with hrefused | ⟨-, hworks⟩
    · exact absurd hrefused (by decide)
    · have hown : request_origin (youtube_request "GET" [⟨bytes "Host", bytes "dial"⟩]) =
          some (bytes "(null)") := hworks youtube_app rfl ⟨[], [], _, rfl⟩
      exact absurd hown (by decide)

end DialServer
