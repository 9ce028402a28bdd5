import DialServer.Base.Relational
import DialServer.Router.Requests

/-!
# The cached state of an application

The field `state` of a record remembers what the last callback reported. This module compares two
servers that differ in these fields only (`Alike`) while they process the same requests, and shows
that the field never matters: each handler that reads it has assigned it before, in the same call.
`Fresh` is what holds between the assignment and the read.
-/

namespace DialServer

open CLib Program

variable {W : Type}

/-- A record and the same record with any value in `state`. -/
def SameButState (app app' : DIALApp W) : Prop := ∃ state, app' = { app with state }

/-- Two servers that are equal except for the values of the `state` fields. -/
structure Alike (s s' : System W) : Prop where
  apps : List.Forall₂ SameButState s.apps s'.apps
  rest : s' = { s with apps := s'.apps }

/-- Two alike servers with an application at a position. -/
def AlikeAt (pos : ℕ) (s s' : System W) : Prop := Alike s s' ∧ pos < s.apps.length

/-- Two alike servers that also agree on the state of the application at a position. -/
def Fresh (pos : ℕ) (s s' : System W) : Prop :=
  AlikeAt pos s s' ∧ s'.apps[pos]?.map DIALApp.state = s.apps[pos]?.map DIALApp.state

section Records

variable {apps apps' : List (DIALApp W)}

/-- Alike lists have alike records at each position. -/
theorem sameButState_getElem? (h : List.Forall₂ SameButState apps apps') (pos : ℕ) :
    (apps[pos]? = none ∧ apps'[pos]? = none) ∨
      ∃ app app', apps[pos]? = some app ∧ apps'[pos]? = some app' ∧ SameButState app app' := by
  induction h generalizing pos with
  | nil => simp
  | @cons app app' _ _ happ _ ih =>
    cases pos with
    | zero => exact .inr ⟨app, app', rfl, rfl, happ⟩
    | succ pos => simpa using ih pos

/-- Alike assignments leave alike lists. -/
theorem sameButState_modify (h : List.Forall₂ SameButState apps apps') (pos : ℕ)
    {f f' : DIALApp W → DIALApp W}
    (hf : ∀ app app', SameButState app app' → SameButState (f app) (f' app')) :
    List.Forall₂ SameButState (apps.modify pos f) (apps'.modify pos f') := by
  induction h generalizing pos with
  | nil => simp
  | @cons app app' _ _ happ htail ih =>
    cases pos with
    | zero => exact .cons (hf _ _ happ) htail
    | succ pos => exact .cons happ (ih pos)

/-- Alike lists have the same names. -/
theorem sameButState_names (h : List.Forall₂ SameButState apps apps') :
    apps'.map DIALApp.name = apps.map DIALApp.name := by
  induction h with
  | nil => rfl
  | cons happ _ ih =>
    obtain ⟨state, rfl⟩ := happ
    simp only [List.map_cons, ih]

/-- The origin check does not look at the state. -/
theorem is_allowed_origin_loop_alike (h : List.Forall₂ SameButState apps apps')
    (origin app_name : Bytes) :
    is_allowed_origin_loop origin app_name apps' = is_allowed_origin_loop origin app_name apps := by
  induction h with
  | nil => rfl
  | cons happ _ ih =>
    obtain ⟨state, rfl⟩ := happ
    simp only [is_allowed_origin_loop, ih]

end Records

/-! ## The steps of the handlers -/

/-- A relation between alike servers that does not care for the resources and the world. -/
structure Steady (R : System W → System W → Prop) : Prop where
  alike : ∀ s s', R s s' → Alike s s'
  supply : ∀ s s' supply, R s s' → R { s with supply } { s' with supply }
  world : ∀ s s' world, R s s' → R { s with world } { s' with world }

/-- The parts of alike servers besides the records are the same. -/
theorem Alike.same {s s' : System W} (h : Alike s s') :
    s'.supply = s.supply ∧ s'.world = s.world ∧ s'.mux = s.mux ∧ s'.files = s.files ∧
      s'.platform = s.platform := by
  rw [h.rest]
  exact ⟨rfl, rfl, rfl, rfl, rfl⟩

/-- Assignments that do not depend on the state. -/
theorem Alike.modify {s s' : System W} (h : Alike s s') (pos : ℕ) {f : DIALApp W → DIALApp W}
    (hf : ∀ app app', SameButState app app' → SameButState (f app) (f app')) :
    Alike { s with apps := s.apps.modify pos f } { s' with apps := s'.apps.modify pos f } where
  apps := sameButState_modify h.apps pos hf
  rest := by rw [h.rest]

/-- Alike servers stay alike. -/
theorem steady_alike : Steady (Alike : System W → System W → Prop) where
  alike _ _ h := h
  supply s s' supply h := ⟨h.apps, by rw [h.rest]⟩
  world s s' world h := ⟨h.apps, by rw [h.rest]⟩

/-- The application stays at its position. -/
theorem steady_alikeAt (pos : ℕ) : Steady (AlikeAt pos : System W → System W → Prop) where
  alike _ _ h := h.1
  supply _ _ supply h := ⟨steady_alike.supply _ _ supply h.1, h.2⟩
  world _ _ world h := ⟨steady_alike.world _ _ world h.1, h.2⟩

/-- The state stays fresh. -/
theorem steady_fresh (pos : ℕ) : Steady (Fresh pos : System W → System W → Prop) where
  alike _ _ h := h.1.1
  supply _ _ supply h := ⟨(steady_alikeAt pos).supply _ _ supply h.1, h.2⟩
  world _ _ world h := ⟨(steady_alikeAt pos).world _ _ world h.1, h.2⟩

section Steps

variable {R : System W → System W → Prop} {pos : ℕ} {app app' : DIALApp W}

/-- A request for resources. -/
theorem Steady.alloc (hR : Steady R) {α : Type} (p : Alloc α) :
    Related R Eq R (alloc p : Server W α) (alloc p) :=
  related_within p (fun s s' h => (hR.alike s s' h).same.1.symm) fun s s' supply h =>
    hR.supply s s' supply h

/-- A read of what the server is built on. -/
theorem Steady.get_platform (hR : Steady R) {β : Type} (f : Platform → β) :
    Related R Eq R (read fun s => f s.platform : Server W β) (read fun s => f s.platform) :=
  related_read fun s s' h => by rw [(hR.alike s s' h).same.2.2.2.2]

/-- An answer. -/
theorem Steady.reply (text : Bytes) :
    Related R Eq R (DialServer.reply text : Server W Unit) (DialServer.reply text) :=
  related_emit _

/-- An error. -/
theorem Steady.http_error (status : ℕ) (reason : String) :
    Related R Eq R (DialServer.http_error status reason : Server W Unit)
      (DialServer.http_error status reason) :=
  related_bind (Steady.reply _) fun _ _ _ => Steady.reply _

/-- The result of a callback, and the world that it leaves. -/
theorem Steady.return_world (hR : Steady R) {β : Type} (world : W) (b : β) :
    Related R Eq R (do modify fun s => { s with world }; return b : Server W β)
      (do modify fun s => { s with world }; return b) :=
  related_bind (related_modify fun s s' h => hR.world s s' world h) fun _ _ _ => related_pure rfl

/-- A call of a callback, up to what is done with its result: it is passed nothing that depends on
the state, and it finds the same world. -/
theorem Steady.call (hR : Steady R) {β : Type} (x : Event) {k : W → Server W β}
    (hk : ∀ world, Related R Eq R (k world) (k world)) :
    Related R Eq R (do emit x; let world ← read System.world; k world)
      (do emit x; let world ← read System.world; k world) := by
  refine related_bind (related_emit x) fun _ _ _ => ?_
  refine related_bind (related_read fun s s' h => (hR.alike s s' h).same.2.1.symm) ?_
  rintro world _ rfl
  exact hk world

/-- `status_cb` of alike records. -/
theorem Steady.call_status_cb (hR : Steady R) (h : SameButState app app') (app_name : Bytes)
    (pCanStop : Option Bool) :
    Related R Eq R (DialServer.call_status_cb pos app app_name pCanStop)
      (DialServer.call_status_cb pos app' app_name pCanStop) := by
  obtain ⟨state, rfl⟩ := h
  exact hR.call _ fun _ => hR.return_world _ _

/-- `start_cb` of alike records. -/
theorem Steady.call_start_cb (hR : Steady R) (h : SameButState app app')
    (app_name payload : Bytes) (query_string : Option Bytes) (additionalDataUrl : Bytes) :
    Related R Eq R
      (DialServer.call_start_cb pos app app_name payload query_string additionalDataUrl)
      (DialServer.call_start_cb pos app' app_name payload query_string additionalDataUrl) := by
  obtain ⟨state, rfl⟩ := h
  exact hR.call _ fun _ => hR.return_world _ _

/-- `hide_cb` of alike records. -/
theorem Steady.call_hide_cb (hR : Steady R) (h : SameButState app app') (app_name : Bytes) :
    Related R Eq R (DialServer.call_hide_cb pos app app_name)
      (DialServer.call_hide_cb pos app' app_name) := by
  obtain ⟨state, rfl⟩ := h
  exact hR.call _ fun _ => hR.return_world _ _

/-- `stop_cb` of alike records. -/
theorem Steady.call_stop_cb (hR : Steady R) (h : SameButState app app') (app_name : Bytes) :
    Related R Eq R (DialServer.call_stop_cb pos app app_name)
      (DialServer.call_stop_cb pos app' app_name) := by
  obtain ⟨state, rfl⟩ := h
  exact hR.call _ fun _ => related_modify fun s s' h => hR.world s s' _ h

/-- An assignment that leaves alike records alike. -/
theorem related_set_app {f : DIALApp W → DIALApp W}
    (hf : ∀ app app', SameButState app app' → SameButState (f app) (f app')) :
    Related Alike Eq Alike (set_app pos f) (set_app pos f) :=
  related_modify fun _ _ h => h.modify pos hf

/-- After an assignment to the state, the two servers agree on it. -/
theorem related_set_state {f : DIALApp W → DIALApp W}
    (hf : ∀ app app', SameButState app app' → f app' = f app) :
    Related (AlikeAt pos) Eq (Fresh pos) (set_app pos f) (set_app pos f) := by
  refine related_modify fun s s' h => ⟨⟨h.1.modify pos fun app app' happ => ?_, ?_⟩, ?_⟩
  · exact ⟨(f app).state, by rw [hf _ _ happ]⟩
  · simpa using h.2
  · simp only [List.getElem?_modify_eq]
    rcases sameButState_getElem? h.1.apps pos with ⟨hs, hs'⟩ | ⟨app, app', hs, hs', happ⟩
    · rw [hs, hs']
    · simp [hs, hs', hf _ _ happ]

/-- A read of the state behind such an assignment gives the same on both sides. -/
theorem related_get_state :
    Related (Fresh pos) Eq Alike (get_state pos app) (get_state pos app') := by
  refine (related_read fun s s' h => ?_).mono (fun _ _ h => h) fun _ _ h => h.1.1
  obtain ⟨⟨halike, hpos⟩, hstate⟩ := h
  rcases sameButState_getElem? halike.apps pos with ⟨hs, -⟩ | ⟨app, app', hs, hs', -⟩
  · simp [List.getElem?_eq_getElem hpos] at hs
  · simpa [hs, hs', eq_comm] using hstate

/-- An assignment to the mutex. -/
theorem related_mux (mux : Bool) :
    Related Alike Eq Alike (modify fun s => { s with mux } : Server W Unit)
      (modify fun s => { s with mux }) :=
  related_modify fun _ _ h => ⟨h.apps, by rw [h.rest]⟩

/-- The mutex is given back. -/
theorem related_unlock : Related Alike Eq Alike (ds_unlock : Server W Unit) ds_unlock :=
  related_bind (related_mux false) fun _ _ _ => related_emit _

/-- The mutex is taken, or not, or waited for on both sides. -/
theorem related_lock : Related Alike Eq Alike (ds_lock : Server W Bool) ds_lock := by
  refine related_bind (steady_alike.alloc request) ?_
  rintro granted _ rfl
  refine related_ite (fun _ => ?_) fun _ => related_pure rfl
  refine related_bind (related_read fun s s' h => h.same.2.2.1.symm) ?_
  rintro held _ rfl
  refine related_ite (fun _ => related_stop) fun _ => ?_
  exact related_bind (related_mux true) fun _ _ _ =>
    related_bind (related_emit _) fun _ _ _ => related_pure rfl

/-- The way out of a handler through an error. -/
theorem related_refusal (status : ℕ) (reason : String) :
    Related Alike Eq Alike (do http_error status reason; ds_unlock : Server W Unit)
      (do http_error status reason; ds_unlock) :=
  related_bind (Steady.http_error status reason) fun _ _ _ => related_unlock

/-- The way out of a handler through an answer. -/
theorem related_answer (text : Bytes) :
    Related Alike Eq Alike (do reply text; ds_unlock : Server W Unit)
      (do reply text; ds_unlock) :=
  related_bind (Steady.reply text) fun _ _ _ => related_unlock

end Steps

/-! ## The handlers -/

section Handlers

variable {pos : ℕ} {app app' : DIALApp W}

/-- What a handler does with an application and its position is the same for alike records. -/
def Blind (body : ℕ → DIALApp W → Server W Unit) : Prop :=
  ∀ pos app app', SameButState app app' →
    Related (AlikeAt pos) Eq Alike (body pos app) (body pos app')

/-- The lookup finds alike records, or none on both sides. -/
theorem related_found {body : ℕ → DIALApp W → Server W Unit} (hbody : Blind body)
    (app_name : Bytes) :
    Related Alike Eq Alike (found app_name body) (found app_name body) := by
  refine related_read_bind fun s s' h => ?_
  have hpos : find_app s'.apps app_name = find_app s.apps app_name := by
    rw [find_app_eq_idxOf, find_app_eq_idxOf, sameButState_names h.apps]
  rcases sameButState_getElem? h.apps (find_app s.apps app_name) with
    ⟨hs, hs'⟩ | ⟨app, app', hs, hs', happ⟩
  · simp only [hpos, hs, hs']
    exact related_refusal _ _ s s' h
  · simp only [hpos, hs, hs']
    exact hbody _ app app' happ s s' ⟨h, (List.getElem?_eq_some_iff.mp hs).1⟩

/-- The opening that the handlers share. -/
theorem related_with_app {body : ℕ → DIALApp W → Server W Unit} (hbody : Blind body)
    (app_name : Bytes) :
    Related Alike Eq Alike (with_app app_name body) (with_app app_name body) := by
  refine related_bind related_lock ?_
  rintro taken _ rfl
  exact related_ite (fun _ => Steady.http_error _ _) fun _ => related_found hbody app_name

/-- The choice of the answer to a start, for a state that is the same on both sides. -/
theorem related_answer_start (pos : ℕ) (app_name laddr : Bytes) (dial_port : UInt16)
    (origin_header : Option Bytes) (payload : Payload) (response200Flag : Bool)
    (state : DIALStatus) :
    Related Alike Eq Alike
      (answer_start pos app_name laddr dial_port origin_header payload response200Flag state :
        Server W Unit)
      (answer_start pos app_name laddr dial_port origin_header payload response200Flag state) := by
  have haccept : ∀ text, Related Alike Eq Alike
      (do reply text; set_app pos fun app => { app with payload }; ds_unlock : Server W Unit)
      (do reply text; set_app pos fun app => { app with payload }; ds_unlock) := fun text =>
    related_bind (Steady.reply text) fun _ _ _ => related_bind
      (related_set_app (by rintro app _ ⟨state, rfl⟩; exact ⟨state, rfl⟩)) fun _ _ _ =>
        related_unlock
  unfold answer_start
  exact related_ite (fun _ => haccept _) fun _ => related_ite (fun _ => haccept _) fun _ =>
    related_ite (fun _ => related_refusal _ _) fun _ =>
    related_ite (fun _ => related_refusal _ _) fun _ =>
    related_ite (fun _ => related_refusal _ _) fun _ => related_refusal _ _

/-- A start assigns the state twice before it reads it. -/
theorem blind_start_app (conn : mg_connection) (request_info : mg_request_info) (app_name : Bytes)
    (origin_header : Option Bytes) :
    Blind (start_app (W := W) conn request_info app_name origin_header) := by
  intro pos app app' happ
  have hrefuse : ∀ status reason, Related (AlikeAt pos) Eq Alike
      (do http_error status reason; ds_unlock : Server W Unit)
      (do http_error status reason; ds_unlock) := fun status reason =>
    (related_refusal status reason).mono (fun _ _ h => h.1) fun _ _ h => h
  have hadditional : app'.useAdditionalData = app.useAdditionalData := by
    obtain ⟨state, rfl⟩ := happ
    rfl
  unfold start_app
  refine related_dite (fun _ => hrefuse _ _) fun _ => ?_
  refine related_ite (fun _ => hrefuse _ _) fun _ => ?_
  refine related_bind ((steady_alikeAt pos).get_platform Platform.port) ?_
  rintro dial_port _ rfl
  rw [hadditional]
  refine related_ite (fun _ => hrefuse _ _) fun _ => ?_
  refine related_bind ((steady_alikeAt pos).call_status_cb happ _ _) ?_
  rintro ⟨state, canStop⟩ _ rfl
  refine related_bind (related_set_state (by rintro app _ ⟨_, rfl⟩; rfl)) fun _ _ _ => ?_
  refine related_bind ((steady_fresh pos).call_start_cb happ _ _ _ _) ?_
  rintro ⟨state', run_id⟩ _ rfl
  refine related_bind ((related_set_state (by rintro app _ ⟨_, rfl⟩; rfl)).mono
    (fun _ _ h => h.1) fun _ _ h => h) fun _ _ _ => ?_
  refine related_bind related_get_state ?_
  rintro state'' _ rfl
  exact related_answer_start _ _ _ _ _ _ _ _

/-- A status request assigns the state before it reads it. -/
theorem blind_status_app (below_2_09 : Bool) (app_name : Bytes) (origin_header : Option Bytes) :
    Blind (status_app (W := W) below_2_09 app_name origin_header) := by
  intro pos app app' happ
  have hrecord : app'.dial_data = app.dial_data ∧ app'.name = app.name := by
    obtain ⟨state, rfl⟩ := happ
    exact ⟨rfl, rfl⟩
  unfold status_app
  rw [hrecord.1, hrecord.2]
  refine related_bind ((steady_alikeAt pos).alloc _) ?_
  rintro dial_data _ rfl
  cases dial_data with
  | none => exact (related_refusal _ _).mono (fun _ _ h => h.1) fun _ _ h => h
  | some dial_data =>
    refine related_bind ((steady_alikeAt pos).call_status_cb happ _ _) ?_
    rintro ⟨state, canStop⟩ _ rfl
    refine related_bind (related_set_state (by rintro app _ ⟨_, rfl⟩; rfl)) fun _ _ _ => ?_
    refine related_bind related_get_state ?_
    rintro localState _ rfl
    exact related_answer _

/-- A stop assigns the state before it reads it. -/
theorem blind_stop_app (app_name : Bytes) (origin_header : Option Bytes) :
    Blind (stop_app (W := W) app_name origin_header) := by
  intro pos app app' happ
  unfold stop_app
  refine related_bind ((steady_alikeAt pos).call_status_cb happ _ _) ?_
  rintro ⟨state, canStop⟩ _ rfl
  refine related_bind (related_set_state (by rintro app _ ⟨_, rfl⟩; rfl)) fun _ _ _ => ?_
  refine related_bind related_get_state ?_
  rintro state' _ rfl
  refine related_ite (fun _ => related_refusal _ _) fun _ => ?_
  refine related_bind (steady_alike.call_stop_cb happ _) fun _ _ _ => ?_
  refine related_bind (related_set_app ?_) fun _ _ _ => related_answer _
  rintro app _ ⟨_, rfl⟩
  exact ⟨_, rfl⟩

/-- A hiding assigns the state before it reads it. -/
theorem blind_hide_app (app_name : Bytes) (origin_header : Option Bytes) :
    Blind (hide_app (W := W) app_name origin_header) := by
  intro pos app app' happ
  unfold hide_app
  refine related_bind ((steady_alikeAt pos).call_status_cb happ _ _) ?_
  rintro ⟨state, canStop⟩ _ rfl
  refine related_bind (related_set_state (by rintro app _ ⟨_, rfl⟩; rfl)) fun _ _ _ => ?_
  refine related_bind related_get_state ?_
  rintro state' _ rfl
  refine related_ite (fun _ => related_refusal _ _) fun _ => ?_
  refine related_bind (steady_alike.call_hide_cb happ _) ?_
  rintro status _ rfl
  refine related_ite (fun _ => related_refusal _ _) fun _ => ?_
  refine related_bind (related_set_app ?_) fun _ _ _ => related_answer _
  rintro app _ ⟨_, rfl⟩
  exact ⟨_, rfl⟩

/-- Dial data does not look at the state. -/
theorem blind_dial_data_app (conn : mg_connection) (request_info : mg_request_info)
    (origin_header : Option Bytes) (use_payload : Bool) :
    Blind (dial_data_app (W := W) conn request_info origin_header use_payload) := by
  intro pos app app' happ
  have hset : ∀ dial_data, Related Alike Eq Alike
      (set_app pos fun app : DIALApp W => { app with dial_data })
      (set_app pos fun app => { app with dial_data }) := by
    intro dial_data
    refine related_set_app ?_
    rintro app _ ⟨state, rfl⟩
    exact ⟨state, rfl⟩
  have hstore : ∀ name data, Related Alike Eq Alike (store_dial_data name data : Server W Unit)
      (store_dial_data name data) := by
    intro name data
    refine related_bind (steady_alike.alloc _) ?_
    rintro filename _ rfl
    cases filename with
    | none => exact related_stop
    | some filename =>
      refine related_bind (steady_alike.alloc _) ?_
      rintro granted _ rfl
      refine related_ite (fun _ => related_modify fun s s' h => ?_) fun _ => related_stop
      exact ⟨h.apps, by rw [h.rest]⟩
  have hreplace : ∀ body, Related Alike Eq Alike (replace_dial_data body origin_header pos app)
      (replace_dial_data body origin_header pos app') := by
    intro body
    obtain ⟨state, rfl⟩ := happ
    refine related_ite (fun _ => related_refusal _ _) fun _ => ?_
    refine related_bind (hset _) fun _ _ _ => ?_
    refine related_bind (steady_alike.alloc _) ?_
    rintro dial_data _ rfl
    exact related_bind (hset _) fun _ _ _ => related_bind (hstore _ _) fun _ _ _ =>
      related_answer _
  refine Related.mono (R := Alike) (S := Alike) ?_ (fun _ _ h => h.1) fun _ _ h => h
  refine related_ite (fun _ => hreplace _) fun _ => ?_
  cases request_info.query_string with
  | none => exact hreplace _
  | some query_string => exact related_ite (fun _ => related_refusal _ _) fun _ => hreplace _

/-! ## The handlers on their names -/

/-- A start. -/
theorem related_handle_app_start (conn : mg_connection) (request_info : mg_request_info)
    (app_name : Bytes) (origin_header : Option Bytes) :
    Related Alike Eq Alike
      (handle_app_start conn request_info app_name origin_header : Server W Unit)
      (handle_app_start conn request_info app_name origin_header) :=
  related_with_app (blind_start_app _ _ _ _) _

/-- A status request. -/
theorem related_handle_app_status (request_info : mg_request_info) (app_name : Bytes)
    (origin_header : Option Bytes) :
    Related Alike Eq Alike (handle_app_status request_info app_name origin_header : Server W Unit)
      (handle_app_status request_info app_name origin_header) := by
  refine related_bind (steady_alike.alloc _) ?_
  rintro version _ rfl
  refine related_bind (steady_alike.get_platform id) ?_
  rintro platform _ rfl
  exact related_with_app (blind_status_app _ _ _) _

/-- A stop. -/
theorem related_handle_app_stop (app_name : Bytes) (origin_header : Option Bytes) :
    Related Alike Eq Alike (handle_app_stop app_name origin_header : Server W Unit)
      (handle_app_stop app_name origin_header) := by
  refine related_bind related_lock ?_
  rintro taken _ rfl
  exact related_ite (fun _ => Steady.http_error _ _) fun _ =>
    related_ite (fun _ => related_refusal _ _) fun _ => related_found (blind_stop_app _ _) _

end Handlers

/-! ## Requests -/

/-- The origin check is the same on alike servers. -/
theorem related_is_allowed_origin (origin : Option Bytes) (app_name : Bytes) :
    Related Alike Eq Alike (is_allowed_origin origin app_name : Server W Bool)
      (is_allowed_origin origin app_name) := by
  cases origin with
  | none => exact related_pure rfl
  | some origin =>
    refine related_ite (fun _ => related_pure rfl) fun _ => ?_
    refine related_bind related_lock ?_
    rintro taken _ rfl
    refine related_ite (fun _ => related_pure rfl) fun _ => ?_
    -- The two checks go through different lists, but they ask the same of them.
    refine related_read_bind fun s s' h => ?_
    rw [is_allowed_origin_loop_alike h.apps]
    refine related_bind (steady_alike.alloc _) ?_ s s' h
    rintro allowed _ rfl
    exact related_bind related_unlock fun _ _ _ => related_pure rfl

/-- So is what the branches of the router ask. -/
theorem related_origin_refused (origin_header : Option Bytes) (app_name : Bytes) :
    Related Alike Eq Alike (origin_refused origin_header app_name : Server W Bool)
      (origin_refused origin_header app_name) := by
  refine related_ite (fun _ => related_pure rfl) fun _ => ?_
  refine related_bind (related_is_allowed_origin _ _) ?_
  rintro allowed _ rfl
  exact related_pure rfl

/-- The decision is the same on alike servers. -/
theorem related_route (request_info : mg_request_info) :
    Related Alike Eq Alike (route request_info : Server W Decision) (route request_info) := by
  have hdecide : ∀ d, Related Alike Eq Alike (return d : Server W Decision) (return d) :=
    fun _ => related_pure rfl
  unfold route
  cases shape_of request_info.uri with
  | run =>
    refine related_bind (related_origin_refused _ _) ?_
    rintro refused _ rfl
    exact related_ite (fun _ => hdecide _) fun _ => related_ite (fun _ => hdecide _) fun _ =>
      related_ite (fun _ => hdecide _) fun _ => hdecide _
  | app =>
    refine related_bind (related_origin_refused _ _) ?_
    rintro refused _ rfl
    refine related_ite (fun _ => ?_) fun _ => ?_
    · exact related_ite (fun _ => hdecide _) fun _ => hdecide _
    · exact related_ite (fun _ => hdecide _) fun _ => related_ite (fun _ => hdecide _) fun _ =>
        related_ite (fun _ => hdecide _) fun _ => hdecide _
  | hide =>
    refine related_bind (related_origin_refused _ _) ?_
    rintro refused _ rfl
    exact related_ite (fun _ => hdecide _) fun _ => related_ite (fun _ => hdecide _) fun _ =>
      related_ite (fun _ => hdecide _) fun _ => hdecide _
  | dial_data =>
    refine related_ite (fun _ => ?_) fun _ => hdecide _
    refine related_bind (steady_alike.alloc _) ?_
    rintro app_name _ rfl
    cases app_name with
    | none => exact hdecide _
    | some app_name =>
      refine related_bind (related_origin_refused _ _) ?_
      rintro refused _ rfl
      exact related_ite (fun _ => hdecide _) fun _ => related_ite (fun _ => hdecide _) fun _ =>
        hdecide _
  | unknown => exact hdecide _

/-- A decision is carried out in the same way on alike servers. -/
theorem related_perform (conn : mg_connection) (request_info : mg_request_info) (d : Decision) :
    Related Alike Eq Alike (perform conn request_info d : Server W Unit)
      (perform conn request_info d) := by
  cases d with
  | error status reason => exact Steady.http_error _ _
  | options methods => exact Steady.reply _
  | start app_name => exact related_handle_app_start _ _ _ _
  | status app_name => exact related_handle_app_status _ _ _
  | stop app_name => exact related_handle_app_stop _ _
  | hide app_name => exact related_with_app (blind_hide_app _ _) _
  | dial_data app_name use_payload => exact related_with_app (blind_dial_data_app _ _ _ _) _

/-- Requests that are processed one after the other. -/
def request_handlers : List (mg_connection × mg_request_info) → Server W Unit
  | [] => return ()
  | (conn, request_info) :: requests => do
    request_handler conn request_info
    request_handlers requests

/-- **The cached state never influences an answer.** From two servers that differ in the `state`
fields only, any sequence of requests returns from both or from neither, with the same events, which
are the answers and the calls of the callbacks with their arguments, and leaves two servers that
again differ in these fields only. -/
theorem cached_state_unobserved (requests : List (mg_connection × mg_request_info))
    (s s' : System W) (h : Alike s s') :
    Agree Eq Alike (request_handlers requests s) (request_handlers requests s') := by
  induction requests generalizing s s' with
  | nil => exact related_pure rfl s s' h
  | cons r requests ih =>
    refine related_bind (V := Eq) ?_ (fun _ _ _ => ih) s s' h
    refine related_bind (related_route r.2) ?_
    rintro d _ rfl
    exact related_perform r.1 r.2 d

/-- A request to stop the application. -/
def stop_request : mg_request_info :=
  { status_request with request_method := bytes "DELETE", uri := bytes "/apps/YouTube/run" }

/-- Two servers whose records say different things about the running application, and the same
requests for its status and its end. -/
theorem cached_state_unobserved_youtube :
    Agree Eq Alike
      (request_handlers [(no_body, status_request), (no_body, stop_request)] youtube_server)
      (request_handlers [(no_body, status_request), (no_body, stop_request)]
        { youtube_server with apps := [{ youtube_app with state := .kDIALStatusRunning }] }) :=
  cached_state_unobserved _ _ _ ⟨.cons ⟨_, rfl⟩ .nil, rfl⟩

end DialServer
