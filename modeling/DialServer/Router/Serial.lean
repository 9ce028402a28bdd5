import DialServer.Base.Interleaving
import DialServer.Origin.Bypass
import DialServer.Router.Grammar
import DialServer.Server.Registry

/-!
# Concurrent requests

The workers of the web server handle requests at the same time, and each request takes the mutex
twice: for the origin check and for what it asks for. Its decision depends only on the names and the
allow lists of the applications (`Settled`), which no request changes, and with memory each section
returns and gives the mutex back. So the requests are an `Independent` protocol: what happens in any
interleaving of their sections is what happens when they are handled one after another.
-/

namespace DialServer

open CLib Program

variable {W : Type}

/-! ## The decision -/

/-- The events of the mutex. -/
def is_mutex_event : Event → Bool
  | .lock | .unlock => true
  | _ => false

/-- With memory and the mutex free, the program leaves the state as it is, and its value and what it
does to the mutex depend on the directory only. -/
def Settled {α : Type} (dir : List (Bytes × AllowList)) (p : Server W α) : Prop :=
  ∃ a e, (∀ x ∈ e, is_mutex_event x = true) ∧
    ∀ s, Idle s → directory s = dir → p s = some (a, e, s)

section Settled

variable {α β : Type} {dir : List (Bytes × AllowList)}

/-- A value. -/
theorem settled_pure (a : α) : Settled dir (pure a : Server W α) :=
  ⟨a, [], by simp, fun s _ _ => pure_apply a s⟩

/-- One after another. -/
theorem settled_bind {p : Server W α} {f : α → Server W β} (hp : Settled dir p)
    (hf : ∀ a, Settled dir (f a)) : Settled dir (p >>= f) := by
  obtain ⟨a, e, hmutex, hrun⟩ := hp
  obtain ⟨b, e', hmutex', hrun'⟩ := hf a
  refine ⟨b, e ++ e', fun x hx => ?_, fun s hs hdir => ?_⟩
  · rcases List.mem_append.mp hx with hx | hx
    · exact hmutex x hx
    · exact hmutex' x hx
  · rw [bind_of_some (hrun s hs hdir), hrun' s hs hdir]
    rfl

/-- A branch. -/
theorem settled_ite {c : Prop} [Decidable c] {p q : Server W α} (hp : Settled dir p)
    (hq : Settled dir q) : Settled dir (if c then p else q) := by
  split_ifs
  · exact hp
  · exact hq

/-- A request for memory that is granted. -/
theorem settled_alloc {p : Alloc α} {a : α} (h : p plenty = some (a, [], plenty)) :
    Settled dir (alloc p : Server W α) := by
  refine ⟨a, [], by simp, fun s hs _ => within_eq_some.mpr ⟨[], plenty, ?_, rfl, ?_⟩⟩
  · rw [hs.supplied]
    exact h
  · rw [← hs.supplied]

/-- A record of the name allows the origin. -/
def allows (origin app_name : Bytes) (record : Bytes × AllowList) : Bool :=
  record.1 = app_name &&
    (record.2.val = [] || (entries record.2.val).any (entry_matches origin))

/-- With memory the loop of the origin check looks for a record that allows the origin. -/
theorem is_allowed_origin_loop_plenty (origin app_name : Bytes) (apps : List (DIALApp W)) :
    is_allowed_origin_loop origin app_name apps plenty =
      some ((apps.map fun app => (app.name, app.corsAllowedOrigin)).any (allows origin app_name),
        [], plenty) := by
  induction apps with
  | nil => rfl
  | cons app apps ih =>
    unfold is_allowed_origin_loop
    rw [List.map_cons, List.any_cons]
    by_cases hname : app.name = app_name
    · by_cases hempty : app.corsAllowedOrigin.val = []
      · simp [allows, hname, hempty]
      · rw [if_pos hname, if_neg hempty, bind_of_some (is_uri_in_list_plenty _ _)]
        by_cases hany : (entries app.corsAllowedOrigin.val).any (entry_matches origin) = true
        · simp [allows, hname, hany]
        · simp only [hany, Bool.false_eq_true, if_false, ih]
          simp [allows, hname, hempty, hany]
    · rw [if_neg hname, ih]
      simp [allows, hname]

/-- What the origin check comes to with the names and the allow lists of the records. -/
def origin_allowed (dir : List (Bytes × AllowList)) (origin_header : Option Bytes)
    (app_name : Bytes) : Bool :=
  match origin_header with
  | none => true
  | some origin => origin.length = 0 || dir.any (allows origin app_name)

/-- What it does to the mutex. -/
def check_events (origin_header : Option Bytes) : List Event :=
  match origin_header with
  | none => []
  | some origin => if origin.length = 0 then [] else [.lock, .unlock]

/-- It only takes the mutex and gives it back. -/
theorem check_events_mutex (origin_header : Option Bytes) :
    ∀ x ∈ check_events origin_header, is_mutex_event x = true := by
  intro x hx
  unfold check_events at hx
  cases origin_header with
  | none => simp at hx
  | some origin =>
    simp only at hx
    split_ifs at hx
    · simp at hx
    · simp only [List.mem_cons, List.not_mem_nil, or_false] at hx
      rcases hx with rfl | rfl <;> rfl

/-- The condition on the origin, with memory and the mutex free. -/
theorem Idle.origin_refused_eq {s : System W} (hs : Idle s) (origin_header : Option Bytes)
    (app_name : Bytes) :
    origin_refused origin_header app_name s = some (!origin_allowed (directory s) origin_header
      app_name, check_events origin_header, s) := by
  cases origin_header with
  | none => exact pure_apply false s
  | some origin =>
    unfold origin_refused is_allowed_origin origin_allowed check_events
    simp only [reduceCtorEq, if_false]
    by_cases hempty : origin.length = 0
    · simp only [hempty, if_true, decide_true, Bool.true_or, Bool.not_true]
      rfl
    · -- The list is searched between the two events of the mutex.
      have hsearch : (alloc (is_allowed_origin_loop origin app_name s.apps) : Server W Bool)
          { s with mux := true } =
            some ((directory s).any (allows origin app_name), [], { s with mux := true }) := by
        refine within_eq_some.mpr ⟨[], plenty, ?_, rfl, ?_⟩
        · rw [directory]
          exact hs.supplied.symm ▸ is_allowed_origin_loop_plenty origin app_name s.apps
        · rw [← hs.supplied]
      have hrun : (do
          if !(← ds_lock) then return false
          else
            let apps ← Program.read System.apps
            let result ← alloc (is_allowed_origin_loop origin app_name apps)
            ds_unlock
            return result : Server W Bool) s =
          some ((directory s).any (allows origin app_name), [.lock, .unlock], s) := by
        rw [bind_of_some hs.ds_lock_eq]
        simp only [Bool.not_true, Bool.false_eq_true, if_false]
        rw [read_bind_apply, bind_of_some hsearch]
        simp only [ds_unlock, bind_apply, modify_apply, emit_apply, pure_apply, hs.with_mux]
        rfl
      rw [if_neg hempty, bind_of_some hrun, if_neg hempty]
      simp [hempty]

/-- The condition on the origin. -/
theorem settled_origin_refused (origin_header : Option Bytes) (app_name : Bytes) :
    Settled dir (origin_refused origin_header app_name : Server W Bool) :=
  ⟨_, _, check_events_mutex _, fun _ hs hdir => hdir ▸ hs.origin_refused_eq _ _⟩

/-- The choice of the decision. -/
theorem settled_route (request_info : mg_request_info) :
    Settled dir (route request_info : Server W Decision) := by
  have hcheck (app_name : Bytes) : Settled dir
      (origin_refused (origin_of request_info) app_name : Server W Bool) :=
    settled_origin_refused _ app_name
  unfold route
  cases shape_of request_info.uri with
  | run =>
    exact settled_bind (hcheck _) fun _ => settled_ite (settled_pure _) <|
      settled_ite (settled_pure _) <| settled_ite (settled_pure _) (settled_pure _)
  | app =>
    exact settled_bind (hcheck _) fun _ =>
      settled_ite (settled_ite (settled_pure _) (settled_pure _)) <|
      settled_ite (settled_pure _) <| settled_ite (settled_pure _) <|
      settled_ite (settled_pure _) (settled_pure _)
  | hide =>
    exact settled_bind (hcheck _) fun _ => settled_ite (settled_pure _) <|
      settled_ite (settled_pure _) <| settled_ite (settled_pure _) (settled_pure _)
  | dial_data =>
    obtain ⟨name, hname⟩ := parse_app_name_plenty request_info.uri
    refine settled_ite (settled_bind (settled_alloc hname) fun app_name => ?_) (settled_pure _)
    cases app_name with
    | none => exact settled_pure _
    | some app_name =>
      exact settled_bind (hcheck _) fun _ => settled_ite (settled_pure _) <|
        settled_ite (settled_pure _) (settled_pure _)
  | unknown => exact settled_pure _

end Settled

/-! ## Carrying it out -/

/-- With memory the program returns, and there is memory then. -/
abbrev Completes {α : Type} (p : Server W α) : Prop := Returns Supplied (fun _ => Supplied) p

section Completes

variable {pos : ℕ} {app_name : Bytes} {app : DIALApp W}

/-- A read. -/
theorem completes_read {α : Type} (f : System W → α) : Completes (Program.read f : Server W α) :=
  returns_read fun _ hs => hs

/-- A call of `status_cb`. -/
theorem completes_status_cb (pCanStop : Option Bool) :
    Completes (call_status_cb pos app app_name pCanStop) :=
  fun s hs => ⟨_, _, _, call_status_cb_apply pos app app_name pCanStop s, hs⟩

/-- The answer to a start. -/
theorem completes_answer_start (laddr : Bytes) (dial_port : UInt16) (origin_header : Option Bytes)
    (payload : Payload) (response200Flag : Bool) (state : DIALStatus) :
    Completes (answer_start pos app_name laddr dial_port origin_header payload response200Flag
      state : Server W Unit) := by
  have haccept (text : Bytes) : Completes (do
      reply text
      set_app pos fun app => { app with payload }
      ds_unlock : Server W Unit) :=
    returns_bind (returns_reply text) fun _ => returns_bind (returns_set_app _ _) fun _ =>
      returns_ds_unlock
  exact returns_ite (fun _ => haccept _) fun _ => returns_ite (fun _ => haccept _) fun _ =>
    returns_ite (fun _ => returns_refusal _ _) fun _ => returns_ite (fun _ => returns_refusal _ _)
    fun _ => returns_ite (fun _ => returns_refusal _ _) fun _ => returns_refusal _ _

/-- A start. -/
theorem completes_start_app (conn : mg_connection) (request_info : mg_request_info)
    (origin_header : Option Bytes) :
    Completes (start_app conn request_info app_name origin_header pos app) := by
  unfold start_app
  simp only
  split_ifs with hlarge hbad horigin
  · exact returns_refusal _ _
  · exact returns_refusal _ _
  · exact returns_bind (completes_read _) fun _ => returns_refusal _ _
  refine returns_bind (completes_read _) fun dial_port => ?_
  refine returns_bind (completes_status_cb _) fun _ => ?_
  refine returns_bind (returns_set_app _ _) fun _ => ?_
  refine returns_bind (Q := fun _ => Supplied) (fun s hs => ⟨_, _, _,
    call_start_cb_apply pos app app_name _ _ _ s, hs⟩) fun _ => ?_
  exact returns_bind (returns_set_app _ _) fun _ => returns_bind (completes_read _) fun _ =>
    completes_answer_start _ _ _ _ _ _

/-- With memory the additional data are printed. -/
theorem additional_data_loop_plenty (data : List DIALData) (p : Bytes) :
    ∃ r, additional_data_loop data p plenty = some (r, [], plenty) := by
  induction data generalizing p with
  | nil => exact ⟨some p, rfl⟩
  | cons first rest ih =>
    have hencode (src : Bytes) : ∃ r,
        url_decode_xml_encode src src.length plenty = some (some r, [], plenty) := ⟨_, rfl⟩
    obtain ⟨key, hkey⟩ := hencode first.key
    obtain ⟨value, hvalue⟩ := hencode first.value
    rw [additional_data_loop, bind_of_quiet request_plenty]
    simp only [Bool.not_true, Bool.false_eq_true, if_false]
    rw [bind_of_quiet hkey]
    simp only
    rw [bind_of_quiet request_plenty]
    simp only [Bool.not_true, Bool.false_eq_true, if_false]
    rw [bind_of_quiet hvalue]
    exact ih _

/-- A status request. -/
theorem completes_status_app (below_2_09 : Bool) (origin_header : Option Bytes) :
    Completes (status_app below_2_09 app_name origin_header pos app) := by
  obtain ⟨r, hdata⟩ := additional_data_loop_plenty app.dial_data []
  refine returns_bind (returns_alloc hdata) fun dial_data => ?_
  rintro s ⟨rfl, hs⟩
  cases dial_data with
  | none => exact returns_refusal _ _ s hs
  | some dial_data =>
    refine returns_bind (completes_status_cb _) (fun _ => ?_) s hs
    exact returns_bind (returns_set_app _ _) fun _ => returns_bind (completes_read _) fun _ =>
      returns_bind (returns_reply _) fun _ => returns_ds_unlock

/-- A stop. -/
theorem completes_stop_app (origin_header : Option Bytes) :
    Completes (stop_app app_name origin_header pos app) := by
  refine returns_bind (completes_status_cb _) fun _ => ?_
  refine returns_bind (returns_set_app _ _) fun _ => ?_
  refine returns_bind (completes_read _) fun _ => ?_
  refine returns_ite (fun _ => returns_refusal _ _) fun _ => ?_
  refine returns_bind (Q := fun _ => Supplied) (fun s hs => ⟨(), _, _, rfl, hs⟩) fun _ => ?_
  exact returns_bind (returns_set_app _ _) fun _ => returns_bind (returns_reply _) fun _ =>
    returns_ds_unlock

/-- A hiding. -/
theorem completes_hide_app (origin_header : Option Bytes) :
    Completes (hide_app app_name origin_header pos app) := by
  refine returns_bind (completes_status_cb _) fun _ => ?_
  refine returns_bind (returns_set_app _ _) fun _ => ?_
  refine returns_bind (completes_read _) fun _ => ?_
  refine returns_ite (fun _ => returns_refusal _ _) fun _ => ?_
  refine returns_bind (Q := fun _ => Supplied) (fun s hs => ⟨_, _, _,
    call_hide_cb_apply pos app app_name s, hs⟩) fun _ => ?_
  refine returns_ite (fun _ => returns_refusal _ _) fun _ => ?_
  exact returns_bind (returns_set_app _ _) fun _ => returns_bind (returns_reply _) fun _ =>
    returns_ds_unlock

/-- The lookup, and the work on the record. -/
theorem completes_found {body : ℕ → DIALApp W → Server W Unit}
    (hbody : ∀ pos app, Completes (body pos app)) : Completes (found app_name body) := by
  refine returns_bind (Q := fun _ => Supplied) (completes_read _) fun r => ?_
  obtain ⟨pos, app⟩ := r
  cases app with
  | none => exact returns_refusal _ _
  | some app => exact hbody pos app

/-- What is done when the mutex has been taken. -/
theorem returns_locked {p q : Server W Unit} (hq : Completes q) :
    Returns Idle (fun _ => Supplied) (do if !(← ds_lock) then p else q) := by
  intro s hs
  refine returns_bind returns_ds_lock (fun taken => ?_) s ⟨hs.supplied, hs.free⟩
  rintro t ⟨rfl, ht⟩
  exact hq t ht

/-- With memory and the mutex free, a version is read from the query. -/
theorem parse_param_plenty (query_string : Option Bytes) (param_name : Bytes) :
    ∃ r, parse_param query_string param_name plenty = some (r, [], plenty) := by
  cases query_string with
  | none => exact ⟨none, rfl⟩
  | some query_string =>
    unfold parse_param
    simp only
    cases strstr query_string param_name with
    | none => exact ⟨none, rfl⟩
    | some start => exact ⟨_, rfl⟩

/-- With memory and the mutex free, every decision is carried out. -/
theorem returns_perform (conn : mg_connection) (request_info : mg_request_info) (d : Decision) :
    Returns (Idle (W := W)) (fun _ => Supplied) (perform conn request_info d) := by
  have hfree {p : Server W Unit} (hp : Completes p) : Returns Idle (fun _ => Supplied) p :=
    fun s hs => hp s hs.supplied
  cases d with
  | error status reason =>
    exact hfree (returns_bind (returns_reply _) fun _ => returns_reply _)
  | options methods => exact hfree (returns_reply _)
  | start app_name => exact returns_locked (completes_found fun _ _ => completes_start_app _ _ _)
  | status app_name =>
    obtain ⟨version, hversion⟩ :=
      parse_param_plenty request_info.query_string (bytes "clientDialVer")
    intro s hs
    have halloc : alloc (parse_param request_info.query_string (bytes "clientDialVer")) s =
        some (version, [], s) :=
      within_eq_some.mpr ⟨[], plenty, hs.supplied.symm ▸ hversion, rfl, by rw [← hs.supplied]⟩
    simp only [perform, handle_app_status]
    rw [bind_of_quiet halloc, read_bind_apply]
    exact returns_locked (completes_found fun _ _ => completes_status_app _ _) s hs
  | stop app_name =>
    exact returns_locked (returns_ite (fun _ => returns_refusal _ _) fun _ =>
      completes_found fun _ _ => completes_stop_app _)
  | hide app_name => exact returns_locked (completes_found fun _ _ => completes_hide_app _)
  | dial_data app_name use_payload =>
    exact fun s hs => returns_handle_dial_data _ _ _ _ _ s ⟨hs.supplied, hs.free⟩

/-- A decision that is carried out leaves the memory, the mutex and the directory as they were. -/
theorem perform_idle {conn : mg_connection} {request_info : mg_request_info} {d : Decision}
    {s t : System W} {e : List Event} (hs : Idle s)
    (h : perform conn request_info d s = some ((), e, t)) :
    Idle t ∧ directory t = directory s := by
  obtain ⟨a, e', t', hrun, ht⟩ := returns_perform conn request_info d s hs
  rw [h, Option.some.injEq, Prod.mk.injEq, Prod.mk.injEq] at hrun
  obtain ⟨-, -, rfl⟩ := hrun
  have hsection : Sectioned quiet s e t := perform_sectioned everywhere_quiet.outside
    (fun app_name _ =>
      { on_app := fun _ _ => everywhere_quiet.inside _ _
        payload := fun _ _ _ _ => everywhere_quiet.payload _ _ _
        dial_data := fun _ _ _ _ _ => everywhere_quiet.dial_data _ _ _
        file := fun _ _ _ _ _ => everywhere_quiet.files _ _ _ }) h
  exact ⟨⟨ht, hsection.returned.2 hs.free⟩, (perform_confined h).1⟩

end Completes

/-! ## Requests at the same time -/

/-- The requests that arrive, as threads of two sections. -/
def request_threads (requests : ℕ → mg_connection × mg_request_info) :
    Protocol (System W) Event ℕ Decision where
  decide i := route (normalise (requests i).2)
  act i := perform (requests i).1 (normalise (requests i).2)

/-- The requests of a list, handled one after another. -/
def handle_in_order (requests : ℕ → mg_connection × mg_request_info) :
    List ℕ → Program (System W) (ℕ × Event) Unit
  | [] => pure ()
  | i :: order => do
    (handle_request (requests i).1 (requests i).2).labelled i
    handle_in_order requests order

/-- The events of a run that a client or a callback can tell. -/
def observed_events (e : List (ℕ × Event)) : List (ℕ × Event) :=
  Protocol.observed is_mutex_event e

variable {requests : ℕ → mg_connection × mg_request_info}

/-- A whole thread is a request that is handled. -/
theorem serial_request_threads (order : List ℕ) :
    (request_threads requests).serial order =
      (handle_in_order requests order : Program (System W) (ℕ × Event) Unit) := by
  induction order with
  | nil => rfl
  | cons i order ih =>
    rw [Protocol.serial, ih]
    rfl

/-- The decisions depend on the directory, which the requests keep. -/
theorem request_threads_independent (requests : ℕ → mg_connection × mg_request_info) :
    (request_threads requests).Independent (Idle (W := W)) directory is_mutex_event where
  decide i s hs := by
    have hroute : Settled (directory s) (route (normalise (requests i).2) : Server W Decision) :=
      settled_route _
    obtain ⟨d, e, hmutex, hrun⟩ := hroute
    exact ⟨d, e, hmutex, fun t ht hdir => hrun t ht hdir⟩
  act _ _ _ _ _ hs h := perform_idle hs h

/-- **Concurrent requests are handled as if one after another.** From a server with memory and its
mutex free, whatever requests arrive and however their sections are interleaved: the server is in
the state that the answered requests lead to one after another, each once, with the same calls of
the callbacks and the same responses, byte for byte and in the same order. A request that was
answered before some point of the run is in front of those that were not; and there is never a
request that cannot go on. -/
theorem requests_serializable (requests : ℕ → mg_connection × mg_request_info) {s : System W}
    (hs : Idle s) {c c' : Protocol.Config (System W) ℕ Decision} {e e' : List (ℕ × Event)}
    (h : Runs (request_threads requests).Interleave (Protocol.start s) e c)
    (h' : Runs (request_threads requests).Interleave c e' c') :
    (∃ order order', (order ++ order').Nodup ∧ (∀ i, i ∈ order ↔ c.stage i = .done) ∧
      (∀ i, i ∈ order ++ order' ↔ c'.stage i = .done) ∧
      (∃ t, handle_in_order requests order s = some ((), t, c.state) ∧
        observed_events t = observed_events e) ∧
      ∃ t, handle_in_order requests order' c.state = some ((), t, c'.state) ∧
        observed_events t = observed_events e') ∧
    ∀ i, c.stage i ≠ .done → ∃ e c', (request_threads requests).Interleave c e c' ∧
      c'.stage i ≠ c.stage i := by
  have hP := request_threads_independent (W := W) requests
  refine ⟨?_, fun i hi => ?_⟩
  · obtain ⟨order, order', hnodup, hdone, hdone', hserial, hserial'⟩ :=
      Protocol.serializable hP hs h h'
    rw [serial_request_threads] at hserial hserial'
    exact ⟨order, order', hnodup, hdone, hdone', hserial, hserial'⟩
  · obtain ⟨hc, -⟩ := Protocol.SerialRun.of_runs hP (Protocol.sane_start hs) h
    cases hstage : c.stage i with
    | fresh =>
      obtain ⟨d, e, -, hrun⟩ := hP.decide i c.state hc.state
      refine ⟨_, _, .decide hstage (hrun c.state hc.state rfl), ?_⟩
      simp
    | decided d =>
      obtain ⟨⟨⟩, e, t, hrun, -⟩ := returns_perform (requests i).1 (normalise (requests i).2) d
        c.state hc.state
      refine ⟨_, _, .act hstage hrun, ?_⟩
      simp
    | done => exact absurd hstage hi

/-- A status request, and a stop. -/
def status_and_stop (i : ℕ) : mg_connection × mg_request_info :=
  (no_body, if i = 0 then status_request
    else { status_request with request_method := bytes "DELETE", uri := bytes "/apps/YouTube/run" })

/-- The status request has its decision when the stop comes and overtakes it, and its response is
the one that it gets when it comes after the stop. -/
theorem requests_serializable_overtaken :
    ∃ (c c' : Protocol.Config (System Bool) ℕ Decision) (e e' : List (ℕ × Event)),
      Runs (request_threads status_and_stop).Interleave (Protocol.start youtube_server) e c ∧
      Runs (request_threads status_and_stop).Interleave c e' c' ∧
      (∃ d, c.stage 0 = .decided d) ∧ c.stage 1 = .done ∧ c'.stage 0 = .done ∧
      (∃ t, handle_in_order status_and_stop [1] youtube_server = some ((), t, c.state) ∧
        observed_events t = observed_events e) ∧
      ∃ t, handle_in_order status_and_stop [0] c.state = some ((), t, c'.state) ∧
        observed_events t = observed_events e' := by
  have hs : Idle youtube_server := ⟨rfl, rfl⟩
  have hP := request_threads_independent (W := Bool) status_and_stop
  obtain ⟨d, e₀, -, hd⟩ := hP.decide 0 youtube_server hs
  obtain ⟨d', e₁, -, hd'⟩ := hP.decide 1 youtube_server hs
  obtain ⟨⟨⟩, e₂, s, hstop, -⟩ := returns_perform (status_and_stop 1).1
    (normalise (status_and_stop 1).2) d' youtube_server hs
  obtain ⟨⟨⟩, e₃, t, hstatus, -⟩ := returns_perform (status_and_stop 0).1
    (normalise (status_and_stop 0).2) d s (perform_idle hs hstop).1
  have hrun := ((Runs.single (Protocol.Interleave.decide (P := request_threads status_and_stop)
    (c := Protocol.start youtube_server) (i := 0) rfl (hd _ hs rfl))).tail
    (Protocol.Interleave.decide (i := 1) rfl (hd' _ hs rfl))).tail
    (Protocol.Interleave.act (i := 1) (by simp) hstop)
  -- Where the threads are when the stop has been answered.
  let stage : ℕ → Stage Decision := Function.update (Function.update (Function.update
    (fun _ => .fresh) 0 (.decided d)) 1 (.decided d')) 1 .done
  have hrun' := Runs.single (Protocol.Interleave.act (P := request_threads status_and_stop) (i := 0)
    (c := ⟨s, stage⟩) rfl hstatus)
  refine ⟨_, _, _, _, hrun, hrun', ⟨d, rfl⟩, rfl, rfl, ?_⟩
  obtain ⟨⟨order, order', hnodup, hdone, hdone', hserial, hserial'⟩, -⟩ :=
    requests_serializable status_and_stop hs hrun hrun'
  -- The stop has been answered first, and the status request after it.
  have hsingle {l : List ℕ} {i : ℕ} (hl : l.Nodup) (hmem : ∀ j, j ∈ l ↔ j = i) : l = [i] :=
    List.perm_singleton.mp <| (List.perm_ext_iff_of_nodup hl (List.nodup_singleton i)).mpr
      fun j => by rw [hmem, List.mem_singleton]
  obtain ⟨hnodup₁, hnodup₂, hdisjoint⟩ := List.nodup_append.mp hnodup
  have horder : order = [1] := hsingle hnodup₁ fun j => by
    rw [hdone]
    rcases j with _ | _ | j <;> simp [Protocol.start]
  have horder' : order' = [0] := hsingle hnodup₂ fun j => by
    have hj := hdone' j
    rw [horder] at hj hdisjoint
    rcases j with _ | _ | j
    · simpa [Function.update_apply] using hj
    · exact iff_of_false (fun h => hdisjoint 1 (List.mem_singleton_self 1) 1 h rfl) (by decide)
    · simpa [Function.update_apply, stage] using hj
  rw [horder] at hserial
  rw [horder'] at hserial'
  exact ⟨hserial, hserial'⟩

end DialServer
