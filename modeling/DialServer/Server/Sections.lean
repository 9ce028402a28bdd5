import DialServer.Source.Router

/-!
# Lock sections

Each operation of the server takes the mutex at most once and gives it back by hand, in each of its
branches. This module goes once through the code of each of them, for any guarantee that its steps
keep (`Inside`), and so splits each of its returns into what came before the mutex was taken, what
was done with it, and the `ds_unlock` that ends it (`Sectioned`). What the operations do to the
mutex, to the records and to the files are instances for particular guarantees.
-/

namespace DialServer

open CLib Program

variable {W : Type}

/-- A guarantee that the silent steps of a handler keep while it holds the mutex: it uses up
resources, calls the callbacks of the application at a position by one name, and assigns to the
state and the run of that application. -/
structure Silent (G : Guarantee (System W) Event) (pos : ℕ) (app_name : Bytes) : Prop where
  supply : ∀ s supply, G.rel s [] { s with supply }
  world : ∀ s world, G.rel s [] { s with world }
  state : ∀ s state,
    G.rel s [] { s with apps := s.apps.modify pos fun app => { app with state } }
  run : ∀ s state run_id,
    G.rel s [] { s with apps := s.apps.modify pos fun app => { app with state, run_id } }
  callback : ∀ s call, Callback.app_name call = app_name → G.rel s [.callback pos call] s

/-- A guarantee that a handler keeps when it does not reach its application. -/
structure Outside (G : Guarantee (System W) Event) : Prop where
  supply : ∀ s supply, G.rel s [] { s with supply }
  write : ∀ s text, G.rel s [.write text] s

/-- A guarantee that all steps of a handler keep while it holds the mutex. -/
structure Inside (G : Guarantee (System W) Event) (pos : ℕ) (app_name : Bytes) : Prop
    extends Silent G pos app_name, Outside G

/-- The last step of a lock section. -/
def unlocks {α : Type} (_ : α) (s : System W) (e : List Event) (t : System W) : Prop :=
  e = [.unlock] ∧ t = { s with mux := false }

/-- A return of an operation that takes the mutex at most once. Without it, the guarantee holds of
the whole call. With it, the call is what the guarantee allows up to `ds_lock`, again what the
guarantee allows, and `ds_unlock`. -/
inductive Sectioned (G : Guarantee (System W) Event) (s : System W) :
    List Event → System W → Prop
  | outside {e t} : G.rel s e t → Sectioned G s e t
  | section {e₁ r e₂ t} : G.rel s e₁ r → r.mux = false → G.rel { r with mux := true } e₂ t →
      Sectioned G s (e₁ ++ .lock :: e₂ ++ [.unlock]) { t with mux := false }

/-- A guarantee that does not care for the mutex holds of all of a sectioned call. -/
theorem Sectioned.rel {G : Guarantee (System W) Event}
    (hlock : ∀ s, G.rel s [.lock] { s with mux := true })
    (hunlock : ∀ s, G.rel s [.unlock] { s with mux := false }) {s t : System W} {e : List Event}
    (h : Sectioned G s e t) : G.rel s e t := by
  cases h with
  | outside h => exact h
  | «section» h₁ _ h₂ =>
    have := G.trans (G.trans h₁ (G.trans (hlock _) h₂)) (hunlock _)
    simpa using this

/-- What comes before a sectioned call can be counted to it. -/
theorem Sectioned.after {G : Guarantee (System W) Event} {s r t : System W} {e : List Event}
    (h : Sectioned G r e t) (hr : G.rel s [] r) : Sectioned G s e t := by
  cases h with
  | outside h => exact .outside (G.trans hr h)
  | «section» h₁ hmux h₂ => exact .section (G.trans hr h₁) hmux h₂

section Steps

variable {G : Guarantee (System W) Event} {pos : ℕ} {app_name : Bytes}

/-- A request for resources. -/
theorem Silent.keeps_alloc (hG : Silent G pos app_name) {α : Type} (p : Alloc α) :
    Keeps G (alloc p : Server W α) :=
  keeps_within p hG.supply

/-- An answer. -/
theorem Outside.keeps_reply (hG : Outside G) (text : Bytes) :
    Keeps G (reply text : Server W Unit) :=
  keeps_emit fun s => hG.write s _

/-- An error, which is a head and a body. -/
theorem Outside.keeps_http_error (hG : Outside G) (status : ℕ) (reason : String) :
    Keeps G (http_error status reason : Server W Unit) :=
  keeps_bind (hG.keeps_reply _) fun _ => hG.keeps_reply _

/-- An assignment to the state. -/
theorem Silent.keeps_set_state (hG : Silent G pos app_name) (state : DIALStatus) :
    Keeps G (set_app pos fun app => { app with state } : Server W Unit) :=
  keeps_modify fun s => hG.state s state

/-- An assignment to the state and the run. -/
theorem Silent.keeps_set_run (hG : Silent G pos app_name) (state : DIALStatus) (run_id : Pointer) :
    Keeps G (set_app pos fun app => { app with state, run_id } : Server W Unit) :=
  keeps_modify fun s => hG.run s state run_id

/-- The state that is read is the one that was assigned last. -/
theorem state_modify {apps : List (DIALApp W)} {pos : ℕ} {app : DIALApp W}
    (h : apps[pos]? = some app) (state : DIALStatus) :
    ((apps.modify pos fun app => { app with state })[pos]?.getD app).state = state := by
  rw [List.getElem?_modify_eq, h]
  rfl

/-- A call of `status_cb`. -/
theorem Silent.keeps_status_cb (hG : Silent G pos app_name) (app : DIALApp W)
    (pCanStop : Option Bool) : Keeps G (call_status_cb pos app app_name pCanStop) :=
  keeps_bind (keeps_emit fun s => hG.callback s _ rfl) fun _ => keeps_bind (keeps_read _) fun _ =>
    keeps_bind (keeps_modify fun s => hG.world s _) fun _ => keeps_pure _

/-- A call of `start_cb`. -/
theorem Silent.keeps_start_cb (hG : Silent G pos app_name) (app : DIALApp W) (payload : Bytes)
    (query_string : Option Bytes) (additionalDataUrl : Bytes) :
    Keeps G (call_start_cb pos app app_name payload query_string additionalDataUrl) :=
  keeps_bind (keeps_emit fun s => hG.callback s _ rfl) fun _ => keeps_bind (keeps_read _) fun _ =>
    keeps_bind (keeps_modify fun s => hG.world s _) fun _ => keeps_pure _

/-- A call of `hide_cb`. -/
theorem Silent.keeps_hide_cb (hG : Silent G pos app_name) (app : DIALApp W) :
    Keeps G (call_hide_cb pos app app_name) :=
  keeps_bind (keeps_emit fun s => hG.callback s _ rfl) fun _ => keeps_bind (keeps_read _) fun _ =>
    keeps_bind (keeps_modify fun s => hG.world s _) fun _ => keeps_pure _

/-- A call of `stop_cb`. -/
theorem Silent.keeps_stop_cb (hG : Silent G pos app_name) (app : DIALApp W) :
    Keeps G (call_stop_cb pos app app_name) :=
  keeps_bind (keeps_emit fun s => hG.callback s _ rfl) fun _ => keeps_bind (keeps_read _) fun _ =>
    keeps_modify fun s => hG.world s _

/-- `getAppPath` returns the path when it has the memory. -/
theorem getAppPath_apply (name : Bytes) (supply : Supply) :
    getAppPath name supply =
      some (if supply 0 then some (app_path name) else none, [], supply.after 1) := by
  unfold getAppPath
  cases h : supply 0 <;> simp [bind_apply, request, h]

/-- The path that `getAppPath` returns, when it returns one. -/
theorem getAppPath_eq_some {name filename : Bytes} {supply supply' : Supply} {e : List Empty}
    (h : getAppPath name supply = some (some filename, e, supply')) :
    filename = app_path name ∧ supply' = supply.after 1 := by
  rw [getAppPath_apply] at h
  simp only [Option.some.injEq, Prod.mk.injEq, Option.ite_none_right_eq_some] at h
  exact ⟨h.1.2.symm, h.2.2.symm⟩

/-- The file of an application, when the guarantee allows it to change. -/
theorem Inside.keeps_store (hG : Inside G pos app_name) {name : Bytes} {data : List DIALData}
    (hstore : ∀ s, G.rel s []
      { s with files := Function.update s.files (app_path name) (some (print_dial_data data)) }) :
    Keeps G (store_dial_data name data : Server W Unit) := by
  intro s a e u h
  obtain ⟨filename, e₁, t, e₂, h₁, h₂, rfl⟩ := bind_eq_some.mp h
  cases filename with
  | none =>
    -- The process has ended.
    simp at h₂
  | some filename =>
    have hpath : filename = app_path name := by
      obtain ⟨_, _, hpath, -⟩ := within_eq_some.mp h₁
      exact (getAppPath_eq_some hpath).1
    subst hpath
    refine G.trans (hG.keeps_alloc _ _ _ _ _ h₁) (?_ : G.rel t e₂ u)
    refine keeps_bind (hG.keeps_alloc request) (fun granted => ?_) _ _ _ _ h₂
    exact keeps_ite (fun _ => keeps_modify hstore) fun _ => keeps_stop

/-- `ds_unlock` frees the mutex. -/
theorem ds_unlock_eq_some {s t : System W} {e : List Event} :
    ds_unlock s = some ((), e, t) ↔ e = [.unlock] ∧ t = { s with mux := false } := by
  simp [ds_unlock, bind_apply, eq_comm]

/-- The last step alone. -/
theorem ends_unlock : Ends G unlocks (ds_unlock : Server W Unit) :=
  ends_last fun _ _ _ _ h => ds_unlock_eq_some.mp h

/-- The last step of an operation that returns a value. -/
theorem ends_unlock_return {α : Type} (a : α) :
    Ends G unlocks (do ds_unlock; return a : Server W α) := by
  refine ends_last fun s b e t h => ?_
  obtain ⟨⟨⟩, e₁, r, e₂, h₁, h₂, rfl⟩ := bind_eq_some.mp h
  simp only [pure_apply, Option.some.injEq, Prod.mk.injEq] at h₂
  obtain ⟨-, rfl, rfl⟩ := h₂
  obtain ⟨rfl, rfl⟩ := ds_unlock_eq_some.mp h₁
  exact ⟨rfl, rfl⟩

/-- The way out of a handler through an error. -/
theorem Outside.ends_error (hG : Outside G) (status : ℕ) (reason : String) :
    Ends G unlocks (do http_error status reason; ds_unlock : Server W Unit) :=
  ends_bind (hG.keeps_http_error status reason) fun _ => ends_unlock

/-- The way out of a handler through an answer. -/
theorem Outside.ends_reply (hG : Outside G) (text : Bytes) :
    Ends G unlocks (do reply text; ds_unlock : Server W Unit) :=
  ends_bind (hG.keeps_reply text) fun _ => ends_unlock

/-! ## The handlers with the mutex held -/

/-- The six answers to a start, of which the first two assign to the payload. -/
theorem answer_start_ends (hG : Inside G pos app_name) {payload : Payload}
    (hpayload : ∀ s, G.rel s []
      { s with apps := s.apps.modify pos fun app => { app with payload } })
    (laddr : Bytes) (dial_port : UInt16) (origin_header : Option Bytes) (response200Flag : Bool)
    (state : DIALStatus) :
    Ends G unlocks (answer_start pos app_name laddr dial_port origin_header payload
      response200Flag state : Server W Unit) := by
  have haccept : ∀ text, Ends G unlocks (do
      reply text
      set_app pos fun app => { app with payload }
      ds_unlock : Server W Unit) := fun text =>
    ends_bind (hG.toOutside.keeps_reply text) fun _ => ends_bind (keeps_modify hpayload) fun _ =>
      ends_unlock
  have herror : ∀ status reason,
      Ends G unlocks (do http_error status reason; ds_unlock : Server W Unit) :=
    hG.toOutside.ends_error
  exact ends_ite (fun _ => haccept _) fun _ => ends_ite (fun _ => haccept _) fun _ =>
    ends_ite (fun _ => herror _ _) fun _ => ends_ite (fun _ => herror _ _) fun _ =>
    ends_ite (fun _ => herror _ _) fun _ => herror _ _

/-- A start. -/
theorem start_app_ends (hG : Inside G pos app_name) (hpayload : ∀ s payload, G.rel s []
      { s with apps := s.apps.modify pos fun app => { app with payload } })
    (conn : mg_connection) (request_info : mg_request_info) (origin_header : Option Bytes)
    (app : DIALApp W) :
    Ends G unlocks (start_app conn request_info app_name origin_header pos app) := by
  refine ends_dite (fun _ => hG.toOutside.ends_error _ _) fun _ => ?_
  refine ends_ite (fun _ => hG.toOutside.ends_error _ _) fun _ => ?_
  refine ends_bind (keeps_read _) fun _ => ?_
  refine ends_ite (fun _ => hG.toOutside.ends_error _ _) fun _ => ?_
  refine ends_bind (hG.keeps_status_cb _ _) fun _ => ends_bind (hG.keeps_set_state _) fun _ => ?_
  refine ends_bind (hG.keeps_start_cb _ _ _ _) fun _ => ends_bind (hG.keeps_set_run _ _) fun _ => ?_
  refine ends_bind (keeps_read _) fun _ => ?_
  exact answer_start_ends hG (fun s => hpayload s _) _ _ _ _ _

/-- A status request. -/
theorem status_app_ends (hG : Inside G pos app_name) (below_2_09 : Bool)
    (origin_header : Option Bytes) (app : DIALApp W) :
    Ends G unlocks (status_app below_2_09 app_name origin_header pos app) := by
  refine ends_bind (hG.keeps_alloc _) fun dial_data => ?_
  cases dial_data with
  | none => exact hG.toOutside.ends_error _ _
  | some dial_data =>
    exact ends_bind (hG.keeps_status_cb _ _) fun _ => ends_bind (hG.keeps_set_state _) fun _ =>
      ends_bind (keeps_read _) fun _ => hG.toOutside.ends_reply _

/-- A stop. -/
theorem stop_app_ends (hG : Inside G pos app_name) (origin_header : Option Bytes)
    (app : DIALApp W) : Ends G unlocks (stop_app app_name origin_header pos app) := by
  refine ends_bind (hG.keeps_status_cb _ _) fun _ => ends_bind (hG.keeps_set_state _) fun _ => ?_
  refine ends_bind (keeps_read _) fun _ => ?_
  refine ends_ite (fun _ => hG.toOutside.ends_error _ _) fun _ => ?_
  exact ends_bind (hG.keeps_stop_cb _) fun _ => ends_bind (hG.keeps_set_state _) fun _ =>
    hG.toOutside.ends_reply _

/-- A hiding. -/
theorem hide_app_ends (hG : Inside G pos app_name) (origin_header : Option Bytes)
    (app : DIALApp W) : Ends G unlocks (hide_app app_name origin_header pos app) := by
  refine ends_bind (hG.keeps_status_cb _ _) fun _ => ends_bind (hG.keeps_set_state _) fun _ => ?_
  refine ends_bind (keeps_read _) fun _ => ?_
  refine ends_ite (fun _ => hG.toOutside.ends_error _ _) fun _ => ?_
  refine ends_bind (hG.keeps_hide_cb _) fun _ => ?_
  refine ends_ite (fun _ => hG.toOutside.ends_error _ _) fun _ => ?_
  exact ends_bind (hG.keeps_set_state _) fun _ => hG.toOutside.ends_reply _

/-- The dial data handler also assigns the list and writes the file of the application. -/
theorem dial_data_app_ends (hG : Inside G pos app_name) {app : DIALApp W}
    (hdial_data : ∀ s dial_data, G.rel s []
      { s with apps := s.apps.modify pos fun app => { app with dial_data } })
    (hstore : ∀ s file, G.rel s []
      { s with files := Function.update s.files (app_path app.name) (some file) })
    (conn : mg_connection) (request_info : mg_request_info) (origin_header : Option Bytes)
    (use_payload : Bool) :
    Ends G unlocks (dial_data_app conn request_info origin_header use_payload pos app) := by
  have hfile : ∀ dial_data, Keeps G (store_dial_data app.name dial_data : Server W Unit) :=
    fun _ => hG.keeps_store fun s => hstore s _
  have hreplace : ∀ body, Ends G unlocks (replace_dial_data body origin_header pos app) := by
    intro body
    refine ends_ite (fun _ => hG.toOutside.ends_error _ _) fun _ => ?_
    refine ends_bind (keeps_modify fun s => hdial_data s _) fun _ => ?_
    refine ends_bind (hG.keeps_alloc _) fun dial_data => ?_
    exact ends_bind (keeps_modify fun s => hdial_data s _) fun _ =>
      ends_bind (hfile _) fun _ => hG.toOutside.ends_reply _
  refine ends_ite (fun _ => hreplace _) fun _ => ?_
  cases request_info.query_string with
  | none => exact hreplace _
  | some query_string => exact ends_ite (fun _ => hG.toOutside.ends_error _ _) fun _ => hreplace _

end Steps

/-! ## The operations -/

/-- One request of the server. -/
theorem alloc_request_eq_some {s t : System W} {granted : Bool} {e : List Event} :
    alloc request s = some (granted, e, t) ↔
      granted = s.supply 0 ∧ e = [] ∧ t = { s with supply := s.supply.after 1 } := by
  constructor
  · intro h
    obtain ⟨_, supply, hrequest, rfl, rfl⟩ := within_eq_some.mp h
    simp only [request, Option.some.injEq, Prod.mk.injEq] at hrequest
    obtain ⟨rfl, -, rfl⟩ := hrequest
    exact ⟨rfl, rfl, rfl⟩
  · rintro ⟨rfl, rfl, rfl⟩
    rfl

/-- `ds_lock` fails, or it waits for the mutex to be free and takes it. -/
theorem ds_lock_cases {s t : System W} {taken : Bool} {e : List Event}
    (h : ds_lock s = some (taken, e, t)) :
    (s.supply 0 = false ∧ taken = false ∧ e = [] ∧ t = { s with supply := s.supply.after 1 }) ∨
      (s.supply 0 = true ∧ s.mux = false ∧ taken = true ∧ e = [.lock] ∧
        t = { s with supply := s.supply.after 1, mux := true }) := by
  obtain ⟨granted, e₁, r, e₂, h₁, h, rfl⟩ := bind_eq_some.mp h
  obtain ⟨hgranted, rfl, rfl⟩ := alloc_request_eq_some.mp h₁
  cases granted with
  | false =>
    simp only [Bool.false_eq_true, if_false, pure_apply, Option.some.injEq, Prod.mk.injEq] at h
    obtain ⟨rfl, rfl, rfl⟩ := h
    exact .inl ⟨hgranted.symm, rfl, rfl, rfl⟩
  | true =>
    obtain ⟨held, e₃, r, e₄, h₂, h, rfl⟩ := bind_eq_some.mp h
    simp only [read_apply, Option.some.injEq, Prod.mk.injEq] at h₂
    obtain ⟨hheld, rfl, rfl⟩ := h₂
    cases held with
    | true => simp at h
    | false =>
      simp only [Bool.false_eq_true, if_false, bind_apply, modify_apply, emit_apply, pure_apply,
        List.nil_append, List.append_nil, Option.some.injEq, Prod.mk.injEq] at h
      obtain ⟨rfl, rfl, rfl⟩ := h
      exact .inr ⟨hgranted.symm, hheld, rfl, rfl, rfl⟩

/-- The state in which a handler works, when it has taken the mutex. -/
def locked (s : System W) : System W := { s with supply := s.supply.after 1, mux := true }

/-- The mutex is not to be had. -/
theorem ds_lock_refused {s : System W} (h : s.supply 0 = false) :
    ds_lock s = some (false, [], { s with supply := s.supply.after 1 }) := by
  unfold ds_lock
  rw [bind_of_some (alloc_request_eq_some.mpr ⟨rfl, rfl, rfl⟩), h]
  rfl

/-- The mutex is held for ever. -/
theorem ds_lock_waits {s : System W} (h : s.supply 0 = true) (hmux : s.mux = true) :
    ds_lock s = none := by
  unfold ds_lock
  rw [bind_of_some (alloc_request_eq_some.mpr ⟨rfl, rfl, rfl⟩), h]
  simp only [if_true]
  rw [read_bind_apply, hmux]
  rfl

/-- The mutex is free and is taken. -/
theorem ds_lock_taken {s : System W} (h : s.supply 0 = true) (hmux : s.mux = false) :
    ds_lock s = some (true, [.lock], locked s) := by
  unfold ds_lock
  rw [bind_of_some (alloc_request_eq_some.mpr ⟨rfl, rfl, rfl⟩), h]
  simp only [if_true]
  rw [read_bind_apply, hmux]
  rfl

/-- A call of `status_cb`. -/
theorem call_status_cb_apply (pos : ℕ) (app : DIALApp W) (app_name : Bytes)
    (pCanStop : Option Bool) (s : System W) :
    let r := app.callbacks.status_cb app_name app.run_id pCanStop app.callback_data s.world
    call_status_cb pos app app_name pCanStop s =
      some ((r.1, r.2.1), [.callback pos (.status app_name app.run_id pCanStop app.callback_data)],
        { s with world := r.2.2 }) :=
  rfl

/-- A call of `start_cb`. -/
theorem call_start_cb_apply (pos : ℕ) (app : DIALApp W) (app_name payload : Bytes)
    (query_string : Option Bytes) (additionalDataUrl : Bytes) (s : System W) :
    let r := app.callbacks.start_cb app_name payload query_string additionalDataUrl app.run_id
      app.callback_data s.world
    call_start_cb pos app app_name payload query_string additionalDataUrl s =
      some ((r.1, r.2.1), [.callback pos (.start app_name payload query_string additionalDataUrl
        app.run_id app.callback_data)], { s with world := r.2.2 }) :=
  rfl

/-- A call of `hide_cb`. -/
theorem call_hide_cb_apply (pos : ℕ) (app : DIALApp W) (app_name : Bytes) (s : System W) :
    let r := app.callbacks.hide_cb app_name app.run_id app.callback_data s.world
    call_hide_cb pos app app_name s =
      some (r.1, [.callback pos (.hide app_name app.run_id app.callback_data)],
        { s with world := r.2 }) :=
  rfl

/-- An assignment. -/
theorem set_app_apply (pos : ℕ) (f : DIALApp W → DIALApp W) (s : System W) :
    set_app pos f s = some ((), [], { s with apps := s.apps.modify pos f }) :=
  rfl

section Operations

variable {G : Guarantee (System W) Event} {s t : System W} {e : List Event}

/-- An operation that takes the mutex first. When it does not get it, all of it keeps the guarantee;
when it does, it ends by giving it back. -/
theorem sectioned_of_lock {α : Type} {p q : Server W α} {a : α}
    (hsupply : ∀ s supply, G.rel s [] { s with supply }) (hp : Keeps G p)
    (hq : ∀ r : System W, r.apps = s.apps → EndsFrom G unlocks q r)
    (h : (do if !(← ds_lock) then p else q) s = some (a, e, t)) : Sectioned G s e t := by
  obtain ⟨taken, e₁, r, e₂, h₁, h₂, rfl⟩ := bind_eq_some.mp h
  rcases ds_lock_cases h₁ with ⟨-, rfl, rfl, rfl⟩ | ⟨-, hmux, rfl, rfl, rfl⟩
  · exact .outside (G.trans (hsupply s _) (hp _ _ _ _ h₂))
  · -- The call took the mutex, and `unlocks` is its last step.
    obtain ⟨e₃, u, e₄, h₃, h₄, rfl⟩ :=
      hq { s with supply := s.supply.after 1, mux := true } rfl a e₂ t h₂
    obtain ⟨rfl, rfl⟩ := h₄
    exact @Sectioned.section _ G s [] { s with supply := s.supply.after 1 } e₃ u (hsupply s _) hmux
      h₃

/-- The lookup with the mutex held. -/
theorem found_ends {app_name : Bytes} {body : ℕ → DIALApp W → Server W Unit} {s : System W}
    (hG : Outside G)
    (hbody : ∀ app, s.apps[find_app s.apps app_name]? = some app →
      Ends G unlocks (body (find_app s.apps app_name) app)) :
    EndsFrom G unlocks (found app_name body) s := by
  refine endsFrom_read ?_
  cases happ : s.apps[find_app s.apps app_name]? with
  | none =>
    simp only [happ]
    exact hG.ends_error _ _ s
  | some app =>
    simp only [happ]
    exact hbody app happ s

/-- The opening that the handlers share. -/
theorem with_app_sectioned {app_name : Bytes} {body : ℕ → DIALApp W → Server W Unit}
    (hG : Outside G)
    (hbody : ∀ app, s.apps[find_app s.apps app_name]? = some app →
      Ends G unlocks (body (find_app s.apps app_name) app))
    (h : with_app app_name body s = some ((), e, t)) : Sectioned G s e t := by
  refine sectioned_of_lock hG.supply (hG.keeps_http_error _ _) (fun r hr => ?_) h
  rw [← hr] at hbody
  exact found_ends hG hbody

/-- The guarantee holds of the steps on the application of a name, if there is one. -/
def OnApp (G : Guarantee (System W) Event) (s : System W) (app_name : Bytes) : Prop :=
  ∀ app, s.apps[find_app s.apps app_name]? = some app →
    Inside G (find_app s.apps app_name) app_name

/-- A start is one section, and the payload is the one field that only it assigns to. -/
theorem handle_app_start_sectioned {app_name : Bytes} (hG : Outside G) (hon : OnApp G s app_name)
    (hpayload : ∀ r payload, G.rel r [] { r with
      apps := r.apps.modify (find_app s.apps app_name) fun app => { app with payload } })
    {conn : mg_connection} {request_info : mg_request_info} {origin_header : Option Bytes}
    (h : handle_app_start conn request_info app_name origin_header s = some ((), e, t)) :
    Sectioned G s e t :=
  with_app_sectioned hG (fun app happ => start_app_ends (hon app happ) hpayload _ _ _ app) h

/-- A hiding is one section. -/
theorem handle_app_hide_sectioned {app_name : Bytes} (hG : Outside G) (hon : OnApp G s app_name)
    {origin_header : Option Bytes}
    (h : handle_app_hide app_name origin_header s = some ((), e, t)) : Sectioned G s e t :=
  with_app_sectioned hG (fun app happ => hide_app_ends (hon app happ) _ app) h

/-- A stop is one section, with an error of its own before the lookup. -/
theorem handle_app_stop_sectioned {app_name : Bytes} (hG : Outside G) (hon : OnApp G s app_name)
    {origin_header : Option Bytes}
    (h : handle_app_stop app_name origin_header s = some ((), e, t)) : Sectioned G s e t := by
  refine sectioned_of_lock hG.supply (hG.keeps_http_error _ _) (fun r hr => ?_) h
  unfold OnApp at hon
  rw [← hr] at hon
  split_ifs
  · exact hG.ends_error _ _ r
  · exact found_ends hG fun app happ => stop_app_ends (hon app happ) _ app

/-- A status request reads its parameter before it takes the mutex. -/
theorem handle_app_status_sectioned {app_name : Bytes} (hG : Outside G) (hon : OnApp G s app_name)
    {request_info : mg_request_info} {origin_header : Option Bytes}
    (h : handle_app_status request_info app_name origin_header s = some ((), e, t)) :
    Sectioned G s e t := by
  obtain ⟨version, e₁, r, e₂, h₁, h₂, rfl⟩ := bind_eq_some.mp h
  obtain ⟨platform, e₃, r', e₄, h₃, h₄, rfl⟩ := bind_eq_some.mp h₂
  simp only [read_apply, Option.some.injEq, Prod.mk.injEq] at h₃
  obtain ⟨-, rfl, rfl⟩ := h₃
  obtain ⟨_, supply, -, rfl, rfl⟩ := within_eq_some.mp h₁
  exact (with_app_sectioned (s := { s with supply }) hG
    (fun app happ => status_app_ends (hon app happ) _ _ app) h₄).after (hG.supply s supply)

/-- A request for dial data is one section. -/
theorem handle_dial_data_sectioned {app_name : Bytes} (hG : Outside G) (hon : OnApp G s app_name)
    (hdial_data : ∀ r dial_data, G.rel r [] { r with
      apps := r.apps.modify (find_app s.apps app_name) fun app => { app with dial_data } })
    (hstore : ∀ app, s.apps[find_app s.apps app_name]? = some app → ∀ r file, G.rel r []
      { r with files := Function.update r.files (app_path app.name) (some file) })
    {conn : mg_connection} {request_info : mg_request_info} {origin_header : Option Bytes}
    {use_payload : Bool}
    (h : handle_dial_data conn request_info app_name origin_header use_payload s =
      some ((), e, t)) : Sectioned G s e t :=
  with_app_sectioned hG
    (fun app happ => dial_data_app_ends (hon app happ) hdial_data (hstore app happ) _ _ _ _) h

/-- The origin check is one section, or none when there is no origin to check. -/
theorem is_allowed_origin_sectioned (hsupply : ∀ s supply, G.rel s [] { s with supply })
    {origin : Option Bytes} {app_name : Bytes} {allowed : Bool}
    (h : is_allowed_origin origin app_name s = some (allowed, e, t)) : Sectioned G s e t := by
  cases origin with
  | none =>
    simp only [is_allowed_origin, pure_apply, Option.some.injEq, Prod.mk.injEq] at h
    obtain ⟨-, rfl, rfl⟩ := h
    exact .outside (G.refl s)
  | some origin =>
    unfold is_allowed_origin at h
    simp only at h
    split_ifs at h with hlen
    · simp only [pure_apply, Option.some.injEq, Prod.mk.injEq] at h
      obtain ⟨-, rfl, rfl⟩ := h
      exact .outside (G.refl s)
    · refine sectioned_of_lock hsupply (keeps_pure _) (fun r _ => ?_) h
      exact ends_bind (keeps_read _) (fun _ => ends_bind (keeps_within _ hsupply) fun _ =>
        ends_unlock_return _) r

/-- Unregistering is one section. -/
theorem DIAL_unregister_app_sectioned (hsupply : ∀ s supply, G.rel s [] { s with supply })
    {app_name : Bytes}
    (herase : ∀ r : System W, r.apps = s.apps →
      G.rel r [] { r with apps := r.apps.eraseIdx (find_app s.apps app_name) }) {a : ℤ}
    (h : DIAL_unregister_app app_name s = some (a, e, t)) : Sectioned G s e t := by
  refine sectioned_of_lock hsupply (keeps_pure _) (fun r hr => endsFrom_read ?_) h
  cases happ : r.apps[find_app r.apps app_name]? with
  | none =>
    simp only [happ]
    exact ends_unlock_return _ r
  | some app =>
    simp only [happ]
    exact endsFrom_modify (hr ▸ herase r hr) (ends_unlock_return _)

end Operations

end DialServer
