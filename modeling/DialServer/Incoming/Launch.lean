import DialServer.Incoming.Refusals
import DialServer.Incoming.RoundTrip
import DialServer.Router.Serial
import DialServer.Server.Admission

/-!
# From the wire to an application

A client prints a start request and sends it in whatever segments; other clients have sent whatever
they like before, well formed or not. The server has served them all and is ready (`Idle`), with the
registrations it had (`serve_all_idle`), so that the request that arrives comes to the application
under the name in its URI, with the body as its payload, or is refused without a call: what decides
is the origin and the body, and nothing that came before.
-/

set_option maxRecDepth 8000

namespace DialServer

open CLib Program DIALStatus

variable {W : Type}

/-! ## Connections one after another -/

/-- A connection that a worker has taken out of the queue: its two addresses, the local one if
`getsockname` finds it, and the segments that arrive. -/
structure Incoming where
  local_addr : Option InAddr
  remote_addr : InAddr
  pending : List Bytes

/-- Serve the connections, one after another. -/
def serve_all : List Incoming → Server W Unit
  | [] => pure ()
  | c :: rest => do
    serve_connection c.local_addr c.remote_addr c.pending
    serve_all rest

/-- What the server keeps of a registration as it was made. -/
def registration (app : DIALApp W) : Bytes × AllowList × DIALAppCallbacks W × Pointer × Bool :=
  (app.name, app.corsAllowedOrigin, app.callbacks, app.callback_data, app.useAdditionalData)

/-- What the registrations and the system have laid down. -/
def setting (s : System W) :
    List (Bytes × AllowList × DIALAppCallbacks W × Pointer × Bool) × Platform :=
  (s.apps.map registration, s.platform)

/-- No handler assigns to these fields. -/
theorem everywhere_setting :
    Everywhere (Guarantee.unchanged setting : Guarantee (System W) Event) := by
  have hmodify (f : DIALApp W → DIALApp W) (hf : ∀ app, registration (f app) = registration app)
      (s : System W) (pos : ℕ) : setting { s with apps := s.apps.modify pos f } = setting s := by
    simp only [setting, map_modify_eq hf]
  exact
    { inside := fun pos app_name =>
        { supply := fun _ _ => rfl
          world := fun _ _ => rfl
          state := fun s state => hmodify (fun app => { app with state }) (fun _ => rfl) s pos
          run := fun s state run_id =>
            hmodify (fun app => { app with state, run_id }) (fun _ => rfl) s pos
          callback := fun _ _ _ => rfl
          write := fun _ _ => rfl }
      payload := fun s pos payload =>
        hmodify (fun app => { app with payload }) (fun _ => rfl) s pos
      dial_data := fun s pos dial_data =>
        hmodify (fun app => { app with dial_data }) (fun _ => rfl) s pos
      files := fun _ _ _ => rfl }

/-- The directory is a part of what the registrations have laid down. -/
theorem directory_of_setting {s t : System W} (h : setting t = setting s) :
    directory t = directory s := by
  have hpart (r : System W) :
      directory r = (setting r).1.map fun registration => (registration.1, registration.2.1) := by
    simp [directory, setting, registration]
  rw [hpart, hpart, h]

/-- The records stand where they stood, with the same registrations. -/
theorem app_of_setting {s t : System W} (h : setting t = setting s) {n : Bytes} {app : DIALApp W}
    (happ : s.apps[find_app s.apps n]? = some app) :
    find_app t.apps n = find_app s.apps n ∧
      ∃ app', t.apps[find_app t.apps n]? = some app' ∧ registration app' = registration app := by
  obtain ⟨happs, -⟩ := Prod.mk.inj h
  have hnames : t.apps.map DIALApp.name = s.apps.map DIALApp.name := by
    have := congrArg (List.map Prod.fst) happs
    simpa [registration, Function.comp_def] using this
  have hpos : find_app t.apps n = find_app s.apps n := by
    rw [find_app_eq_idxOf, find_app_eq_idxOf, hnames]
  refine ⟨hpos, ?_⟩
  have hfound := congrArg (·[find_app s.apps n]?) happs
  simpa [happ, hpos] using hfound

/-- A request is served whatever it is, and leaves the server ready, with its setting. -/
theorem handle_request_idle {s : System W} (hs : Idle s) (conn : mg_connection)
    (ri : mg_request_info) :
    ∃ e t, handle_request conn ri s = some ((), e, t) ∧ Idle t ∧ setting t = setting s := by
  have hroute : Settled (directory s) (route (normalise ri) : Server W Decision) := settled_route _
  obtain ⟨d, e₁, -, hrun⟩ := hroute
  obtain ⟨⟨⟩, e₂, t, hperform, -⟩ := returns_perform conn (normalise ri) d s hs
  refine ⟨e₁ ++ e₂, t, ?_, (perform_idle hs hperform).1, ?_⟩
  · unfold handle_request request_handler
    rw [bind_of_some (hrun s hs rfl), hperform]
    rfl
  · have hG : Everywhere (Guarantee.unchanged setting : Guarantee (System W) Event) :=
      everywhere_setting
    have hsection := perform_sectioned hG.outside (fun app_name _ =>
      { on_app := fun _ _ => hG.inside _ _
        payload := fun _ _ _ _ => hG.payload _ _ _
        dial_data := fun _ _ _ _ _ => hG.dial_data _ _ _
        file := fun _ _ _ _ _ => hG.files _ _ _ }) hperform
    exact hsection.rel (fun _ => rfl) fun _ => rfl

/-- A connection is served whatever arrives on it. -/
theorem serve_connection_idle {s : System W} (hs : Idle s) (c : Incoming) :
    ∃ e t, serve_connection c.local_addr c.remote_addr c.pending s = some ((), e, t) ∧ Idle t ∧
      setting t = setting s := by
  rcases serve_connection_cases (W := W) c.local_addr c.remote_addr c.pending with
    hclosed | ⟨error, herror, fmt, hrefused⟩ | ⟨conn, ri, -, -, hhanded⟩
  · exact ⟨[], s, by rw [hclosed, pure_apply], hs, rfl⟩
  · obtain ⟨e, body, hrun, -⟩ := answered_connection_error (W := W) herror fmt none s
    exact ⟨e, s, by rw [hrefused, hrun], hs, rfl⟩
  · rw [hhanded]
    exact handle_request_idle hs conn ri

/-- Whatever arrives on any connections, they are all served, and the server is ready after them,
with its setting. -/
theorem serve_all_idle {s : System W} (hs : Idle s) (connections : List Incoming) :
    ∃ e t, serve_all connections s = some ((), e, t) ∧ Idle t ∧ setting t = setting s := by
  induction connections generalizing s with
  | nil => exact ⟨[], s, pure_apply () s, hs, rfl⟩
  | cons c rest ih =>
    obtain ⟨e₁, r, hrun₁, hr, hsetting₁⟩ := serve_connection_idle hs c
    obtain ⟨e₂, t, hrun₂, ht, hsetting₂⟩ := ih hr
    refine ⟨e₁ ++ e₂, t, ?_, ht, hsetting₂.trans hsetting₁⟩
    rw [serve_all, bind_of_some hrun₁, hrun₂]
    rfl

/-! ## The way of a start request -/

/-- The query as it stands in a URI. -/
def query_part (query : Option Bytes) : Bytes := (query.map (chr '?' :: ·)).getD []

/-- The message is a request to start the application, with this query and a body of this length,
and it fits into the buffer of the web server. -/
structure StartsApp (m : Message) (n : Bytes) (query : Option Bytes) (body : Bytes)
    (local_addr remote_addr : InAddr) : Prop where
  method : m.request_method = bytes "POST"
  uri : m.uri = app_uri n ++ query_part query
  fits : m.print.length ≤ MAX_REQUEST_SIZE
  content : get_header (m.info local_addr remote_addr) (bytes "Content-Length") =
    some (dec body.length)
  small : (body.length : ℤ) ≤ LLONG_MAX

/-- The query that the application is passed is the one in the URI. -/
theorem normalise_query {ri : mg_request_info} {uri : Bytes} (huri : chr '?' ∉ uri)
    {query : Option Bytes} (h : ri.uri = uri ++ query_part query) :
    (normalise ri).query_string = query := by
  have hsplit : (split_query (uri ++ query_part query)).2 = query := by
    cases query with
    | none =>
      have hnone : strchr (uri ++ query_part none) (chr '?') = none := by
        rwa [query_part, Option.map_none, Option.getD_none, List.append_nil, strchr_eq_none]
      simp only [split_query, hnone]
    | some query =>
      have hsome : strchr (uri ++ query_part (some query)) (chr '?') = some (chr '?' :: query) :=
        strchr_append huri query
      simp only [split_query, hsome, List.drop_succ_cons, List.drop_zero]
  unfold normalise
  rw [h]
  exact hsplit

section StartsApp

variable {m : Message} {n body rest : Bytes} {query : Option Bytes}
  {local_addr remote_addr : InAddr} {pending : List Bytes}

/-- The request is read as it was printed, and its body stands behind it. -/
theorem StartsApp.served (hm : StartsApp m n query body local_addr remote_addr)
    (hlive : Live pending) (harrives : pending.flatten = m.print ++ (body ++ rest)) :
    ∃ conn, (serve_connection (some local_addr) remote_addr pending : Server W Unit) =
        handle_request conn (m.info local_addr remote_addr) ∧ Receives conn body := by
  have hsmall : ∀ k ∈ some body.length, (k : ℤ) ≤ LLONG_MAX := by simpa using hm.small
  refine ⟨⟨body.length, 0, body ++ rest, []⟩, ?_, rfl, rfl, by simp, by simp⟩
  rw [serve_connection, process_new_connection_arrives hlive (m.head_arrives hm.fits harrives),
    harrives]
  exact @Message.process_request_eq W m (body ++ rest) local_addr remote_addr (some body.length)
    hsmall hm.content

/-- Its path is that of the application, with or without a query. -/
theorem StartsApp.for_path (hm : StartsApp m n query body local_addr remote_addr) :
    ForPath (m.info local_addr remote_addr) (app_uri n) := by
  cases query with
  | none => exact .inl (hm.uri.trans (List.append_nil _))
  | some query => exact .inr ⟨query, hm.uri⟩

end StartsApp

/-- The events of the mutex are no calls and no answer. -/
theorem mutex_events_silent {e : List Event} (h : ∀ x ∈ e, is_mutex_event x = true) :
    callbacks e = [] ∧ answer e = none := by
  induction e with
  | nil => exact ⟨rfl, rfl⟩
  | cons x e ih =>
    obtain ⟨hx, hrest⟩ := List.forall_mem_cons.mp h
    obtain ⟨hcalls, hanswer⟩ := ih hrest
    cases x with
    | lock => exact ⟨hcalls, hanswer⟩
    | unlock => exact ⟨hcalls, hanswer⟩
    | write text => exact absurd hx (by simp [is_mutex_event])
    | callback pos c => exact absurd hx (by simp [is_mutex_event])

section Check

variable {ri : mg_request_info} {n : Bytes} {s : System W}

/-- The check lets a request through if the directory allows its origin. -/
theorem passes_iff_allowed (hs : Idle s) :
    Passes ri n s ↔ origin_allowed (directory s) (origin_of ri) n = true := by
  constructor
  · rintro ⟨e, t, h⟩
    rw [hs.origin_refused_eq, Option.some.injEq, Prod.mk.injEq, Bool.not_eq_false'] at h
    exact h.1
  · intro h
    exact ⟨_, _, by rw [hs.origin_refused_eq, h, Bool.not_true]⟩

/-- A request for an application that the check does not let through is answered with 403 or 404,
whether or not the application is there. -/
theorem route_app_refused (hs : Idle s) (hshape : shape_of ri.uri = .app)
    (hrefused : origin_allowed (directory s) (origin_of ri) (ri.uri.drop APPS_URI.length) = false) :
    ∃ error ∈ [(403, "Forbidden"), (404, "Not Found")], ∃ e,
      (∀ x ∈ e, is_mutex_event x = true) ∧
        route ri s = some (.error error.1 error.2, e, s) := by
  have hmutex := check_events_mutex (origin_of ri)
  simp only [route, hshape, route_app]
  rw [bind_of_some (hs.origin_refused_eq _ _), hrefused, Bool.not_false, if_pos rfl]
  split_ifs
  · refine ⟨(403, "Forbidden"), by simp, _, hmutex, ?_⟩
    simp [pure_apply]
  · refine ⟨(404, "Not Found"), by simp, _, hmutex, ?_⟩
    simp [pure_apply]

end Check

/-- The codes with which a request to start an application is refused. -/
def launch_refusals : List Bytes := dec 404 :: start_refusals

/-- A request with this origin and this body starts the application: the directory allows the
origin for the name, and the body is one that a start may have. -/
structure MayStart (dir : List (Bytes × AllowList)) (origin_header : Option Bytes)
    (n body : Bytes) : Prop where
  allowed : origin_allowed dir origin_header n = true
  admitted : Admitted body origin_header n

section Way

variable {conn : mg_connection} {ri : mg_request_info} {n body : Bytes} {query : Option Bytes}
  {app : DIALApp W} {s : System W}

/-- What the record is asked for when it is started: its state, and then the start itself. -/
def launch_calls (s : System W) (n body : Bytes) (query : Option Bytes) (app : DIALApp W) :
    List (ℕ × Callback) :=
  [(find_app s.apps n, .status n app.run_id none app.callback_data),
    (find_app s.apps n, .start n body query
      (additional_data_param app.useAdditionalData s.platform.port n) app.run_id
      app.callback_data)]

/-- What the second call returns, and what is outside then. -/
def launch_result (s : System W) (n body : Bytes) (query : Option Bytes) (app : DIALApp W) :
    DIALStatus × Pointer × W :=
  app.callbacks.start_cb n body query
    (additional_data_param app.useAdditionalData s.platform.port n) app.run_id app.callback_data
    (app.callbacks.status_cb n app.run_id none app.callback_data s.world).2.2

/-- A start that the check lets through is the work on the record, behind events of the mutex. -/
theorem handle_request_start (hs : Idle s) (hn : LinkName n) (huri : ForPath ri (app_uri n))
    (hmethod : ri.request_method = bytes "POST") (happ : s.apps[find_app s.apps n]? = some app)
    (hallowed : origin_allowed (directory s) (origin_of ri) n = true) {e : List Event}
    {t : System W} (hstart : start_app conn (normalise ri) n (origin_of ri) (find_app s.apps n) app
      (locked s) = some ((), e, t)) :
    handle_app_start conn (normalise ri) n (origin_of ri) s = some ((), .lock :: e, t) ∧
      ∃ e', handle_request conn ri s = some ((), e', t) ∧ callbacks e' = callbacks e ∧
        answer e' = answer e := by
  have hgranted : s.supply 0 = true := by rw [hs.supplied]; rfl
  have hhandler : handle_app_start conn (normalise ri) n (origin_of ri) s =
      some ((), .lock :: e, t) := by
    have hfound := with_app_found hgranted hs.free happ
      (start_app conn (normalise ri) n (origin_of ri))
    rw [hstart] at hfound
    exact hfound
  -- The decision, which leaves the state.
  have hroute : Settled (directory s) (route (normalise ri) : Server W Decision) := settled_route _
  obtain ⟨d, e₁, hmutex, hrun⟩ := hroute
  obtain ⟨e', r, hreaches⟩ := reaches_start hn huri hmethod ((passes_iff_allowed hs).mpr hallowed)
  have hdecision : d = .start n := by
    rw [hrun s hs rfl, Option.some.injEq, Prod.mk.injEq] at hreaches
    exact hreaches.1
  obtain ⟨hcalls₁, hanswer₁⟩ := mutex_events_silent hmutex
  refine ⟨hhandler, e₁ ++ .lock :: e, ?_, ?_, ?_⟩
  · unfold handle_request request_handler
    rw [bind_of_some (hrun s hs rfl), hdecision]
    exact congrArg (Option.map fun r => (r.1, e₁ ++ r.2.1, r.2.2)) hhandler
  · rw [callbacks_append, hcalls₁]
    rfl
  · rw [answer_append_of_none hanswer₁]
    rfl

/-- A start that the check lets through and whose body is admitted comes to the record. -/
theorem handle_request_starts (hs : Idle s) (hn : LinkName n) (huri : ForPath ri (app_uri n))
    (hmethod : ri.request_method = bytes "POST") (hquery : (normalise ri).query_string = query)
    (hbody : Receives conn body) (happ : s.apps[find_app s.apps n]? = some app)
    (hmay : MayStart (directory s) (origin_of ri) n body) :
    ∃ e t, handle_request conn ri s = some ((), e, t) ∧
      callbacks e = launch_calls s n body query app ∧
      (answered_2xx e = true ↔ (launch_result s n body query app).1 = kDIALStatusRunning) ∧
      t.world = (launch_result s n body query app).2.2 ∧
      (answered_2xx e = true → ∃ hlen, payload_of t n = some (copy_payload body hlen)) := by
  obtain ⟨hallowed, hadmitted⟩ := hmay
  obtain ⟨hiff, hwhole⟩ := admitted_received hbody (origin_of ri) n
  have hstart_body : start_body conn = body := hwhole hadmitted
  obtain ⟨e₂, t, hstart, hcalls, hanswer, hworld⟩ : ∃ e t, start_app conn (normalise ri) n
        (origin_of ri) (find_app s.apps n) app (locked s) = some ((), e, t) ∧
      callbacks e = start_calls conn (normalise ri) n s.platform.port (find_app s.apps n) app ∧
      (answered_2xx e = true ↔ (start_result conn (normalise ri) n s.platform.port app
        s.world).1 = kDIALStatusRunning) ∧
      t.world = (start_result conn (normalise ri) n s.platform.port app s.world).2.2 :=
    start_app_admitted (hiff.mpr hadmitted) happ
  obtain ⟨hhandler, e, hrun, hcalls', hanswer'⟩ :=
    handle_request_start hs hn huri hmethod happ hallowed hstart
  have hanswered : answered_2xx e = answered_2xx e₂ := by rw [answered_2xx, hanswer', answered_2xx]
  rw [start_calls, hstart_body, hquery] at hcalls
  rw [start_result, hstart_body, hquery] at hanswer hworld
  refine ⟨e, t, hrun, hcalls'.trans hcalls, hanswered ▸ hanswer, hworld, fun haccepted => ?_⟩
  rcases handle_app_start_payload hhandler with ⟨hrefused, -⟩ | ⟨-, -, -, hlen, hpayload⟩
  · have hsame : answered_2xx (.lock :: e₂) = answered_2xx e := hanswered.symm
    rw [hsame, haccepted] at hrefused
    exact absurd hrefused (by decide)
  · refine ⟨hstart_body ▸ hlen, ?_⟩
    rw [hpayload n, if_pos rfl]
    simp only [hstart_body]

/-- Every other request to start it is refused, without a call. -/
theorem handle_request_refuses (hs : Idle s) (hn : LinkName n) (huri : ForPath ri (app_uri n))
    (hmethod : ri.request_method = bytes "POST") (hbody : Receives conn body)
    (happ : s.apps[find_app s.apps n]? = some app)
    (hmay : ¬MayStart (directory s) (origin_of ri) n body) :
    ∃ e t, handle_request conn ri s = some ((), e, t) ∧ callbacks e = [] ∧
      (∃ code ∈ launch_refusals, answer e = some code) ∧ t.apps = s.apps ∧ t.world = s.world := by
  have hnorm := huri.resource hn (app_uri_eq_path n) (by simp)
  have hshape : shape_of (normalise ri).uri = .app := by rw [hnorm, shape_of_app_uri hn.named]
  have hname : (normalise ri).uri.drop APPS_URI.length = n := by
    rw [hnorm, app_uri, List.drop_left]
  by_cases hallowed : origin_allowed (directory s) (origin_of ri) n = true
  · -- The check lets it through, so that it is the body that is not admitted.
    have hadmitted : ¬Admitted (start_body conn) (origin_of ri) n := fun h =>
      hmay ⟨hallowed, (admitted_received hbody _ _).1.mp h⟩
    obtain ⟨e₂, hstart, hcalls, code, hcode, hanswer⟩ : ∃ e, start_app conn (normalise ri) n
          (origin_of ri) (find_app s.apps n) app (locked s) =
            some ((), e, { locked s with mux := false }) ∧
        callbacks e = [] ∧ ∃ code ∈ start_refusals, answer e = some code :=
      start_app_refused hadmitted _ _ _
    obtain ⟨-, e, hrun, hcalls', hanswer'⟩ :=
      handle_request_start hs hn huri hmethod happ hallowed hstart
    exact ⟨e, _, hrun, hcalls'.trans hcalls,
      ⟨code, List.mem_cons_of_mem _ hcode, hanswer'.trans hanswer⟩, rfl, rfl⟩
  · rw [Bool.not_eq_true] at hallowed
    obtain ⟨error, herror, e₁, hmutex, hrun⟩ :=
      route_app_refused hs hshape (hname.symm ▸ hallowed)
    obtain ⟨hcalls₁, hanswer₁⟩ := mutex_events_silent hmutex
    have hcodes : ∀ error ∈ [(403, "Forbidden"), (404, "Not Found")],
        (dec error.1).length = 3 ∧ dec error.1 ∈ launch_refusals := by decide
    obtain ⟨hthree, hmem⟩ := hcodes error herror
    obtain ⟨e₂, hwritten, hcalls₂⟩ : ∃ e, http_error error.1 error.2 s = some ((), e, s) ∧
        callbacks e = [] := ⟨_, rfl, rfl⟩
    obtain ⟨hanswer, -⟩ := http_error_answer hthree hwritten
    refine ⟨e₁ ++ e₂, s, ?_, ?_, ⟨_, hmem, ?_⟩, rfl, rfl⟩
    · unfold handle_request request_handler
      rw [bind_of_some hrun]
      simp only [perform, hwritten]
      rfl
    · rw [callbacks_append, hcalls₁, hcalls₂, List.append_nil]
    · rw [answer_append_of_none hanswer₁, hanswer]

end Way

/-- **A start request comes to its application, whatever came before.** Take a ready server, any
connections that it has served, with anything on them, and then a request to start a registered
application, in whatever segments. If the registration allows the origin and the body may be
passed, the application is asked for its state and started, each once, with the body, the query and
the data of the registration; the answer is 2xx if and only if it says that it runs, and the body
is its payload then. Otherwise the request is refused, nothing is called, and the records stay as
they are. The earlier connections have no part in it but for `run_id` and the world outside. -/
theorem start_reaches_application {n : Bytes} (hn : LinkName n) {s : System W} (hs : Idle s)
    {app : DIALApp W} (happ : s.apps[find_app s.apps n]? = some app) (before : List Incoming)
    {m : Message} {query : Option Bytes} {body rest : Bytes} {local_addr remote_addr : InAddr}
    (hm : StartsApp m n query body local_addr remote_addr) {pending : List Bytes}
    (hlive : Live pending) (harrives : pending.flatten = m.print ++ (body ++ rest)) :
    ∃ e₀ s₁ run_id e t, serve_all before s = some ((), e₀, s₁) ∧
      serve_connection (some local_addr) remote_addr pending s₁ = some ((), e, t) ∧
      (MayStart (directory s) (origin_of (m.info local_addr remote_addr)) n body →
        let result := launch_result { s with world := s₁.world } n body query { app with run_id }
        callbacks e = launch_calls s n body query { app with run_id } ∧
        (answered_2xx e = true ↔ result.1 = kDIALStatusRunning) ∧ t.world = result.2.2 ∧
        (answered_2xx e = true → ∃ hlen, payload_of t n = some (copy_payload body hlen))) ∧
      (¬MayStart (directory s) (origin_of (m.info local_addr remote_addr)) n body →
        callbacks e = [] ∧ (∃ code ∈ launch_refusals, answer e = some code) ∧
        t.apps = s₁.apps ∧ t.world = s₁.world) := by
  obtain ⟨e₀, s₁, hbefore, hs₁, hsetting⟩ := serve_all_idle hs before
  obtain ⟨hpos, app₁, happ₁, hregistration⟩ := app_of_setting hsetting happ
  simp only [registration, Prod.mk.injEq] at hregistration
  obtain ⟨-, -, hcallbacks, hdata, hadditional⟩ := hregistration
  obtain ⟨-, hplatform⟩ := Prod.mk.inj hsetting
  set ri := m.info local_addr remote_addr with hri
  obtain ⟨conn, hserve, hbody⟩ := @StartsApp.served W _ _ _ _ _ _ _ _ hm hlive harrives
  have huri : ForPath ri (app_uri n) := hm.for_path
  have hquery : (normalise ri).query_string = query := normalise_query hn.app_no_query hm.uri
  have hdir : directory s₁ = directory s := directory_of_setting hsetting
  -- The calls read of the record what the registration has laid down, and its `run_id`.
  have hcalls : launch_calls s₁ n body query app₁ =
      launch_calls s n body query { app with run_id := app₁.run_id } := by
    simp only [launch_calls, hpos, hdata, hadditional, hplatform]
  have hresult : launch_result s₁ n body query app₁ = launch_result { s with world := s₁.world } n
      body query { app with run_id := app₁.run_id } := by
    simp only [launch_result, hcallbacks, hdata, hadditional, hplatform]
  by_cases h : MayStart (directory s) (origin_of ri) n body
  · obtain ⟨e, t, hrun, hstarts⟩ := handle_request_starts hs₁ hn huri hm.method hquery hbody happ₁
      (hdir.symm ▸ h)
    refine ⟨e₀, s₁, app₁.run_id, e, t, hbefore, hserve ▸ hrun, fun _ => ?_, fun h' => absurd h h'⟩
    rw [hcalls, hresult] at hstarts
    exact hstarts
  · obtain ⟨e, t, hrun, hrefused⟩ := handle_request_refuses hs₁ hn huri hm.method hbody happ₁
      (hdir.symm ▸ h)
    exact ⟨e₀, s₁, app₁.run_id, e, t, hbefore, hserve ▸ hrun, fun h' => absurd h' h,
      fun _ => hrefused⟩

/-- A client that starts YouTube from an application of its own. -/
def launch_message : Message :=
  { start_message with
    uri := bytes "/apps/YouTube?friendlyName=TV"
    http_headers := [⟨bytes "Origin", bytes "package:com.google.android.youtube"⟩,
      ⟨bytes "Content-Length", bytes "3"⟩]
    uri_ne_nil := by decide
    uri_plain := by decide
    names := by decide
    values := by decide
    few := by decide }

/-- What comes before it: a connection without a local address, one that is closed at once, and one
with no request in it. -/
def nonsense : List Incoming :=
  [⟨none, ⟨10, 0, 0, 3⟩, []⟩, ⟨some ⟨10, 0, 0, 1⟩, ⟨10, 0, 0, 3⟩, []⟩,
    ⟨some ⟨10, 0, 0, 1⟩, ⟨10, 0, 0, 3⟩, [bytes "nonsense\r\n\r\n"]⟩]

/-- The application is started after all that, with its payload behind the head in one segment. -/
theorem start_reaches_application_package :
    ∃ e₀ s₁ run_id e t, serve_all nonsense youtube_server = some ((), e₀, s₁) ∧
      serve_connection (some ⟨10, 0, 0, 1⟩) ⟨10, 0, 0, 2⟩ [launch_message.print ++ bytes "v=1"] s₁ =
        some ((), e, t) ∧
      callbacks e = launch_calls youtube_server (bytes "YouTube") (bytes "v=1")
        (some (bytes "friendlyName=TV")) { youtube_app with run_id } ∧
      answered_2xx e = true ∧ t.world = true := by
  have hs : Idle youtube_server := ⟨rfl, rfl⟩
  have hm : StartsApp launch_message (bytes "YouTube") (some (bytes "friendlyName=TV"))
      (bytes "v=1") ⟨10, 0, 0, 1⟩ ⟨10, 0, 0, 2⟩ :=
    ⟨rfl, rfl, by decide, rfl, by decide⟩
  have happ : youtube_server.apps[find_app youtube_server.apps (bytes "YouTube")]? =
      some youtube_app := rfl
  have hlive : Live [launch_message.print ++ bytes "v=1"] := by simp [Live, bytes]
  have harrives : [launch_message.print ++ bytes "v=1"].flatten =
      launch_message.print ++ (bytes "v=1" ++ []) := by simp
  obtain ⟨e₀, s₁, run_id, e, t, hbefore, hserve, hstarts, -⟩ := start_reaches_application
    link_name_youtube hs happ nonsense hm hlive harrives
  have hallowed : origin_allowed (directory youtube_server)
      (some (bytes "package:com.google.android.youtube")) (bytes "YouTube") = true := by
    decide
  have hadmitted : Admitted (bytes "v=1") (some (bytes "package:com.google.android.youtube"))
      (bytes "YouTube") := ⟨by decide, by decide, .inl (by simp)⟩
  obtain ⟨hcalls, hanswer, hworld, -⟩ := hstarts ⟨hallowed, hadmitted⟩
  exact ⟨e₀, s₁, run_id, e, t, hbefore, hserve, hcalls, hanswer.mpr rfl, hworld⟩

end DialServer
