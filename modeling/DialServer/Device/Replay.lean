import DialServer.Device.Failures
import DialServer.Router.Requests

/-!
# The world outside

A request changes the world outside only by the callbacks that it makes, in the order of its events,
whatever the request is and however it is answered: `replay` runs the calls again on the world from
before. Each call is one of the callbacks of the record at its position, under the name of that
record and with texts that fit (`OwnCall`), so that whatever such calls preserve is preserved by
every request.
-/

namespace DialServer

open CLib Program

variable {W : Type}

/-- The texts that a start is passed are within their limits. -/
def Callback.Fits : Callback → Prop
  | .start _ payload _ additionalDataUrl _ _ =>
    payload.length ≤ DIAL_MAX_PAYLOAD ∧ additionalDataUrl.length ≤ DIAL_MAX_ADDITIONALURL - 1
  | _ => True

/-- The name and the callbacks of a record. -/
def calling (app : DIALApp W) : Bytes × DIALAppCallbacks W := (app.name, app.callbacks)

/-- Run calls of the callbacks that are at their positions, one after another. -/
def replay (cs : List (Bytes × DIALAppCallbacks W)) (calls : List (ℕ × Callback)) (w : W) : W :=
  calls.foldl (fun w c => match cs[c.1]? with | some (_, f) => c.2.run f w | none => w) w

/-- A call under the name at its position, with texts that fit. -/
def OwnCall (cs : List (Bytes × DIALAppCallbacks W)) (c : ℕ × Callback) : Prop :=
  (∃ f, cs[c.1]? = some (c.2.app_name, f)) ∧ c.2.Fits

/-- What own calls preserve, their replay preserves. -/
theorem replay_preserves {cs : List (Bytes × DIALAppCallbacks W)} {P : W → Prop}
    (hP : ∀ (c : Callback) f, (c.app_name, f) ∈ cs → c.Fits → ∀ w, P w → P (c.run f w))
    {calls : List (ℕ × Callback)} (hcalls : ∀ c ∈ calls, OwnCall cs c) {w : W} (hw : P w) :
    P (replay cs calls w) := by
  induction calls generalizing w with
  | nil => exact hw
  | cons c calls ih =>
    obtain ⟨⟨⟨f, hf⟩, hfits⟩, hrest⟩ := List.forall_mem_cons.mp hcalls
    have hfirst : P (c.2.run f w) := hP c.2 f (List.mem_of_getElem? hf) hfits w hw
    have hstep : replay cs (c :: calls) w = replay cs calls (c.2.run f w) := by
      simp only [replay, List.foldl_cons, hf]
    exact hstep ▸ ih hrest hfirst

/-- The records keep their names and callbacks, and the calls that are made are their own, and are
all that happens to the world. -/
def replays (cs : List (Bytes × DIALAppCallbacks W)) : Guarantee (System W) Event where
  rel s e t := s.apps.map calling = cs → t.apps.map calling = cs ∧
    (∀ c ∈ callbacks e, OwnCall cs c) ∧ t.world = replay cs (callbacks e) s.world
  refl _ h := ⟨h, by simp [callbacks], rfl⟩
  trans h₁ h₂ h := by
    obtain ⟨happs, hown, hworld⟩ := h₁ h
    obtain ⟨happs', hown', hworld'⟩ := h₂ happs
    refine ⟨happs', fun c hc => ?_, ?_⟩
    · rw [callbacks_append, List.mem_append] at hc
      exact hc.elim (hown c) (hown' c)
    · rw [hworld', hworld, callbacks_append, replay, replay, replay, List.foldl_append]

section Steps

variable {cs : List (Bytes × DIALAppCallbacks W)} {pos : ℕ} {app_name : Bytes} {app : DIALApp W}

/-- A step without a call. -/
theorem replays_quiet {s t : System W} {e : List Event} (hcalls : callbacks e = [])
    (happs : t.apps.map calling = s.apps.map calling) (hworld : t.world = s.world) :
    (replays cs).rel s e t :=
  fun h => ⟨happs.trans h, by simp [hcalls], by rw [hcalls, hworld]; rfl⟩

/-- Outside of the sections no calls are made. -/
theorem outside_replays : Outside (replays cs : Guarantee (System W) Event) where
  supply _ _ := replays_quiet rfl rfl rfl
  write _ _ := replays_quiet rfl rfl rfl

/-- Nor are they by the mutex. -/
theorem mutexless_replays : Mutexless (replays cs : Guarantee (System W) Event) where
  lock _ := replays_quiet rfl rfl rfl
  unlock _ := replays_quiet rfl rfl rfl

/-- An assignment to other fields than the name and the callbacks. -/
theorem keeps_replays_set {f : DIALApp W → DIALApp W} (hf : ∀ app, calling (f app) = calling app) :
    Keeps (replays cs) (set_app pos f) :=
  keeps_modify fun s => replays_quiet rfl (map_modify_eq hf s.apps pos) rfl

/-- The end of a section. -/
theorem keeps_replays_unlock : Keeps (replays cs) (ds_unlock : Server W Unit) := by
  intro s a e t h
  obtain ⟨rfl, rfl⟩ := ds_unlock_eq_some.mp h
  exact mutexless_replays.unlock s

/-- The beginning of a section. -/
theorem keeps_replays_lock : Keeps (replays cs) (ds_lock : Server W Bool) := by
  intro s taken e t h
  rcases ds_lock_cases h with ⟨-, -, rfl, rfl⟩ | ⟨-, -, -, rfl, rfl⟩
  · exact replays_quiet rfl rfl rfl
  · exact replays_quiet rfl rfl rfl

/-- An answer that ends a section. -/
theorem keeps_replays_reply (text : Bytes) :
    Keeps (replays cs) (do reply text; ds_unlock : Server W Unit) :=
  keeps_bind (outside_replays.keeps_reply text) fun _ => keeps_replays_unlock

/-- An error that ends a section. -/
theorem keeps_replays_error (status : ℕ) (reason : String) :
    Keeps (replays cs) (do http_error status reason; ds_unlock : Server W Unit) :=
  keeps_bind (outside_replays.keeps_http_error status reason) fun _ => keeps_replays_unlock

/-- A request for memory. -/
theorem keeps_replays_alloc {α : Type} (p : Alloc α) : Keeps (replays cs) (alloc p : Server W α) :=
  keeps_within p fun _ _ => replays_quiet rfl rfl rfl

/-- A call of a callback of the record at a position. -/
theorem keeps_replays_callback {α : Type} {p : Server W α} {c : Callback} {f : DIALAppCallbacks W}
    (hrun : ∀ s, ∃ a, p s = some (a, [.callback pos c], { s with world := c.run f s.world }))
    (hown : cs[pos]? = some (c.app_name, f)) (hfits : c.Fits) : Keeps (replays cs) p := by
  intro s a e t h hcs
  obtain ⟨a', hrun⟩ := hrun s
  rw [h, Option.some.injEq, Prod.mk.injEq, Prod.mk.injEq] at hrun
  obtain ⟨-, rfl, rfl⟩ := hrun
  have hcall : callbacks [.callback pos c] = [(pos, c)] := rfl
  refine ⟨hcs, fun c' hc' => ?_, ?_⟩
  · rw [hcall, List.mem_singleton] at hc'
    exact hc' ▸ ⟨⟨f, hown⟩, hfits⟩
  · simp only [hcall, replay, List.foldl_cons, List.foldl_nil, hown]

/-- The callback that every handler calls first. -/
theorem keeps_replays_status (hown : cs[pos]? = some (app_name, app.callbacks))
    (pCanStop : Option Bool) : Keeps (replays cs) (call_status_cb pos app app_name pCanStop) :=
  keeps_replays_callback
    (c := .status app_name app.run_id pCanStop app.callback_data) (fun _ => ⟨_, rfl⟩) hown trivial

end Steps

/-! ## The handlers -/

section Handlers

variable {cs : List (Bytes × DIALAppCallbacks W)} {pos : ℕ} {app_name : Bytes} {app : DIALApp W}

/-- The answer to a start. -/
theorem keeps_replays_answer_start (laddr : Bytes) (dial_port : UInt16)
    (origin_header : Option Bytes) (payload : Payload) (response200Flag : Bool)
    (state : DIALStatus) :
    Keeps (replays cs) (answer_start pos app_name laddr dial_port origin_header payload
      response200Flag state : Server W Unit) := by
  have haccept (text : Bytes) : Keeps (replays cs) (do
      reply text
      set_app pos fun app => { app with payload }
      ds_unlock : Server W Unit) :=
    keeps_bind (outside_replays.keeps_reply text) fun _ =>
      keeps_bind (keeps_replays_set fun _ => rfl) fun _ => keeps_replays_unlock
  exact keeps_ite (fun _ => haccept _) fun _ => keeps_ite (fun _ => haccept _) fun _ =>
    keeps_ite (fun _ => keeps_replays_error _ _) fun _ =>
    keeps_ite (fun _ => keeps_replays_error _ _) fun _ =>
    keeps_ite (fun _ => keeps_replays_error _ _) fun _ => keeps_replays_error _ _

/-- A start. The body that is passed has been found to fit. -/
theorem keeps_replays_start (hown : cs[pos]? = some (app_name, app.callbacks))
    (conn : mg_connection) (request_info : mg_request_info) (origin_header : Option Bytes) :
    Keeps (replays cs) (start_app conn request_info app_name origin_header pos app) := by
  unfold start_app
  simp only
  split_ifs with hlong hbad horigin
  · exact keeps_replays_error _ _
  · exact keeps_replays_error _ _
  · exact keeps_bind (keeps_read _) fun _ => keeps_replays_error _ _
  · have hfits : (cstr (start_body conn)).length ≤ DIAL_MAX_PAYLOAD :=
      (List.takeWhile_sublist _).length_le.trans (Nat.le_of_not_lt hlong)
    refine keeps_bind (keeps_read _) fun dial_port => ?_
    refine keeps_bind (keeps_replays_status hown none) fun _ => ?_
    refine keeps_bind (keeps_replays_set fun _ => rfl) fun _ => ?_
    refine keeps_bind (keeps_replays_callback (c := .start app_name (cstr (start_body conn))
      request_info.query_string (additional_data_param app.useAdditionalData dial_port app_name)
      app.run_id app.callback_data) (fun _ => ⟨_, rfl⟩) hown
      ⟨hfits, additional_data_param_length _ _ _⟩) fun _ => ?_
    exact keeps_bind (keeps_replays_set fun _ => rfl) fun _ => keeps_bind (keeps_read _) fun _ =>
      keeps_replays_answer_start _ _ _ _ _ _

/-- A status request. -/
theorem keeps_replays_status_app (hown : cs[pos]? = some (app_name, app.callbacks))
    (below_2_09 : Bool) (origin_header : Option Bytes) :
    Keeps (replays cs) (status_app below_2_09 app_name origin_header pos app) := by
  refine keeps_bind (keeps_replays_alloc _) fun dial_data => ?_
  cases dial_data with
  | none => exact keeps_replays_error _ _
  | some dial_data =>
    refine keeps_bind (keeps_replays_status hown _) fun _ => ?_
    refine keeps_bind (keeps_replays_set fun _ => rfl) fun _ => ?_
    exact keeps_bind (keeps_read _) fun _ => keeps_replays_reply _

/-- A stop. -/
theorem keeps_replays_stop (hown : cs[pos]? = some (app_name, app.callbacks))
    (origin_header : Option Bytes) :
    Keeps (replays cs) (stop_app app_name origin_header pos app) := by
  refine keeps_bind (keeps_replays_status hown _) fun _ => ?_
  refine keeps_bind (keeps_replays_set fun _ => rfl) fun _ => keeps_bind (keeps_read _) fun _ => ?_
  refine keeps_ite (fun _ => keeps_replays_error _ _) fun _ => ?_
  refine keeps_bind (keeps_replays_callback (c := .stop app_name app.run_id app.callback_data)
    (fun _ => ⟨_, rfl⟩) hown trivial) fun _ => ?_
  exact keeps_bind (keeps_replays_set fun _ => rfl) fun _ => keeps_replays_reply _

/-- A hiding. -/
theorem keeps_replays_hide (hown : cs[pos]? = some (app_name, app.callbacks))
    (origin_header : Option Bytes) :
    Keeps (replays cs) (hide_app app_name origin_header pos app) := by
  refine keeps_bind (keeps_replays_status hown _) fun _ => ?_
  refine keeps_bind (keeps_replays_set fun _ => rfl) fun _ => keeps_bind (keeps_read _) fun _ => ?_
  refine keeps_ite (fun _ => keeps_replays_error _ _) fun _ => ?_
  refine keeps_bind (keeps_replays_callback (c := .hide app_name app.run_id app.callback_data)
    (fun _ => ⟨_, rfl⟩) hown trivial) fun _ => ?_
  refine keeps_ite (fun _ => keeps_replays_error _ _) fun _ => ?_
  exact keeps_bind (keeps_replays_set fun _ => rfl) fun _ => keeps_replays_reply _

/-- The dial data are stored without a call. -/
theorem keeps_replays_dial_data (conn : mg_connection) (request_info : mg_request_info)
    (origin_header : Option Bytes) (use_payload : Bool) :
    Keeps (replays cs) (dial_data_app conn request_info origin_header use_payload pos app) := by
  have hstore (dial_data : List DIALData) :
      Keeps (replays cs) (store_dial_data app.name dial_data : Server W Unit) := by
    refine keeps_bind (keeps_replays_alloc _) fun filename => ?_
    cases filename with
    | none => exact keeps_stop
    | some filename =>
      refine keeps_bind (keeps_replays_alloc _) fun _ => keeps_ite (fun _ => ?_) fun _ => keeps_stop
      exact keeps_modify fun _ => replays_quiet rfl rfl rfl
  have hreplace (body : Bytes) :
      Keeps (replays cs) (replace_dial_data body origin_header pos app) := by
    refine keeps_ite (fun _ => keeps_replays_error _ _) fun _ => ?_
    refine keeps_bind (keeps_replays_set fun _ => rfl) fun _ => ?_
    refine keeps_bind (keeps_replays_alloc _) fun dial_data => ?_
    exact keeps_bind (keeps_replays_set fun _ => rfl) fun _ => keeps_bind (hstore _) fun _ =>
      keeps_replays_reply _
  refine keeps_ite (fun _ => hreplace _) fun _ => ?_
  cases request_info.query_string with
  | none => exact hreplace _
  | some query_string => exact keeps_ite (fun _ => keeps_replays_error _ _) fun _ => hreplace _

/-- The lookup finds the record at its position under its name. -/
theorem keeps_replays_found {body : ℕ → DIALApp W → Server W Unit}
    (hbody : ∀ pos app, cs[pos]? = some (app_name, app.callbacks) →
      Keeps (replays cs) (body pos app)) : Keeps (replays cs) (found app_name body) := by
  intro s a e t h hcs
  unfold found at h
  rw [bind_of_quiet (get_app_eq app_name s)] at h
  simp only at h
  cases happ : s.apps[find_app s.apps app_name]? with
  | none =>
    simp only [happ] at h
    exact keeps_replays_error _ _ s a e t h hcs
  | some app =>
    simp only [happ] at h
    have hown : cs[find_app s.apps app_name]? = some (app_name, app.callbacks) := by
      rw [← hcs, List.getElem?_map, happ, ← find_app_name happ]
      rfl
    exact hbody _ app hown s a e t h hcs

/-- Every decision is carried out by calls of its record. -/
theorem keeps_replays_perform (conn : mg_connection) (request_info : mg_request_info)
    (d : Decision) : Keeps (replays cs) (perform conn request_info d : Server W Unit) := by
  have hlocked {p q : Server W Unit} (hp : Keeps (replays cs) p) (hq : Keeps (replays cs) q) :
      Keeps (replays cs) (do if !(← ds_lock) then p else q) :=
    keeps_bind keeps_replays_lock fun _ => keeps_ite (fun _ => hp) fun _ => hq
  have herror (status : ℕ) (reason : String) :
      Keeps (replays cs) (http_error status reason : Server W Unit) :=
    outside_replays.keeps_http_error status reason
  cases d with
  | error status reason => exact herror status reason
  | options methods => exact outside_replays.keeps_reply _
  | start app_name =>
    exact hlocked (herror _ _) (keeps_replays_found fun _ _ hown => keeps_replays_start hown _ _ _)
  | status app_name =>
    refine keeps_bind (keeps_replays_alloc _) fun _ => keeps_bind (keeps_read _) fun _ => ?_
    exact hlocked (herror _ _) (keeps_replays_found fun _ _ hown =>
      keeps_replays_status_app hown _ _)
  | stop app_name =>
    exact hlocked (herror _ _) (keeps_ite (fun _ => keeps_replays_error _ _) fun _ =>
      keeps_replays_found fun _ _ hown => keeps_replays_stop hown _)
  | hide app_name =>
    exact hlocked (herror _ _) (keeps_replays_found fun _ _ hown => keeps_replays_hide hown _)
  | dial_data app_name use_payload =>
    exact hlocked (herror _ _) (keeps_replays_found fun _ _ _ =>
      keeps_replays_dial_data _ _ _ _)

/-- A request does nothing to the world but run callbacks of the records. -/
theorem keeps_replays_handle_request (conn : mg_connection) (ri : mg_request_info) :
    Keeps (replays cs) (handle_request conn ri : Server W Unit) :=
  keeps_bind (route_keeps outside_replays.supply mutexless_replays) fun _ =>
    keeps_replays_perform _ _ _

end Handlers

/-! ## The callbacks of the device -/

/-- The programs that are run by the callbacks of a name, in whichever of the three handlers. -/
inductive CallbackProgram (build : Build) (name : Bytes) : {α : Type} → Manager α → Prop
  | youtube_start (payload additionalDataUrl : Bytes) :
    CallbackProgram build name (youtube_start build name payload additionalDataUrl)
  | netflix_start (payload additionalDataUrl : Bytes) :
    CallbackProgram build name (netflix_start build name payload additionalDataUrl)
  | amazon_start : CallbackProgram build name (amazon_start build name)
  | hide : CallbackProgram build name (hide_current build name)
  | stop : CallbackProgram build name (stop_current build name)
  | status (pCanStop : Option Bool) :
    CallbackProgram build name (status_current build name pCanStop)

/-- What these programs do to the world, the callbacks do. -/
theorem KnownCallbacks.preserves {build : Build} {callbacks : DIALAppCallbacks World}
    (hknown : KnownCallbacks build callbacks) {P : World → Prop} {c : Callback} {w : World}
    (hP : ∀ {α : Type} {p : Manager α}, CallbackProgram build c.app_name p →
      ∀ result, P (w.run p result).2) : P (c.run callbacks w) := by
  rcases hknown.cases with rfl | rfl | rfl <;> cases c with
  | start app_name payload query_string additionalDataUrl run_id callback_data =>
    first
    | exact hP (.youtube_start payload additionalDataUrl) _
    | exact hP (.netflix_start payload additionalDataUrl) _
    | exact hP .amazon_start _
  | hide app_name run_id callback_data => exact hP .hide _
  | stop app_name run_id callback_data => exact hP .stop _
  | status app_name run_id pCanStop callback_data => exact hP (.status pCanStop) _

end DialServer
