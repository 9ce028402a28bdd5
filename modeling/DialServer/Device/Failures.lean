import DialServer.Device.Registration
import DialServer.Device.Replies
import DialServer.Server.Admission

/-!
# Failures of the manager

What the server answers when the manager of the device does not do what it is asked for. A start is
answered 2xx whatever becomes of its launch, a stop whatever becomes of its end, and with the
application manager a hiding too. `Honest` is what a client may expect of a 2xx answer: that the
call of its request was carried out, or that the application was running without it. `Obeyed` is the
condition on the replies to come under which the answer is honest, request by request, in every run
of requests on the server that `runDial` has set up.
-/

namespace DialServer

open CLib Program DIALStatus APPMGR_APPSTATE

/-! ## The callbacks in the world -/

section World

variable {α : Type} {build : Build} {entries : List appInfo} {callbacks : DIALAppCallbacks World}
  {name : Bytes} {app : appInfo} {w : World}

/-- A callback after which the process is there has returned. -/
theorem World.run_eq_some {p : Manager α} {result : α} (h : (w.run p result).2.crashed = false) :
    ∃ a e device, p w.device = some (a, e, device) ∧
      w.run p result = (a, { w with device, made := w.made ++ e }) ∧ w.crashed = false := by
  unfold World.run at h ⊢
  cases hp : p w.device with
  | none => simp [hp] at h
  | some r =>
    obtain ⟨a, e, device⟩ := r
    exact ⟨a, e, device, rfl, rfl, by simpa [hp] using h⟩

/-- The world in which the callbacks work: the cache is valid, and the mode is the active one. -/
structure Working (entries : List appInfo) (w : World) : Prop where
  valid : CacheValid entries w.device
  active : w.device._passivemode = false

/-- The start callback of a known handler, with what a start passes to it. -/
theorem start_cb_replies (hknown : KnownCallbacks build callbacks) (hw : Working entries w)
    (hentry : entry_of entries name = some app) {payload additionalDataUrl : Bytes}
    (hpayload : payload.length ≤ DIAL_MAX_PAYLOAD)
    (hadditional : additionalDataUrl.length ≤ DIAL_MAX_ADDITIONALURL - 1)
    {query_string : Option Bytes} {run_id callback_data : Pointer}
    (hlive : (callbacks.start_cb name payload query_string additionalDataUrl run_id callback_data
      w).2.2.crashed = false) :
    let r := callbacks.start_cb name payload query_string additionalDataUrl run_id callback_data w
    w.crashed = false ∧ r.1 = kDIALStatusRunning ∧
      ∃ e, r.2.2.made = w.made ++ e ∧ StartReplies build app w.device.replies e := by
  obtain ⟨hvalid, hactive⟩ := hw
  have hresult {p : Manager DIALStatus}
      (hp : ∀ status e device, p w.device = some (status, e, device) →
        status = kDIALStatusRunning ∧ StartReplies build app w.device.replies e)
      (hlive : (w.run p kDIALStatusError).2.crashed = false) :
      w.crashed = false ∧ (w.run p kDIALStatusError).1 = kDIALStatusRunning ∧
        ∃ e, (w.run p kDIALStatusError).2.made = w.made ++ e ∧
          StartReplies build app w.device.replies e := by
    obtain ⟨status, e, device, hrun, heq, hcrashed⟩ := World.run_eq_some hlive
    obtain ⟨rfl, hreplies⟩ := hp status e device hrun
    rw [heq]
    exact ⟨hcrashed, rfl, e, rfl, hreplies⟩
  rcases hknown.cases with rfl | rfl | rfl
  · exact hresult (fun _ _ _ h => youtube_start_replies hvalid hentry hactive h) hlive
  · exact hresult (fun _ _ _ h =>
      netflix_start_replies hpayload hadditional hvalid hentry hactive h) hlive
  · exact hresult (fun _ _ _ h => start_named_replies hvalid hentry hactive h) hlive

/-- The status callback. -/
theorem status_cb_replies (hknown : KnownCallbacks build callbacks) (hw : Working entries w)
    (hentry : entry_of entries name = some app) {run_id callback_data : Pointer}
    {pCanStop : Option Bool}
    (hlive : (callbacks.status_cb name run_id pCanStop callback_data w).2.2.crashed = false) :
    let r := callbacks.status_cb name run_id pCanStop callback_data w
    w.crashed = false ∧ r.1 = reply_status build (w.device.replies 0) ∧
      (∀ i, r.2.2.device.replies i = w.device.replies (i + 1)) ∧
      ∃ c : ManagerCall, c.kind = .query ∧ r.2.2.made = w.made ++ [(c, w.device.replies 0)] := by
  have hcb : callbacks.status_cb name run_id pCanStop callback_data w =
      (let r := w.run (status_current build name pCanStop) (kDIALStatusError, pCanStop)
      (r.1.1, r.1.2, r.2)) := by
    rcases hknown.cases with rfl | rfl | rfl <;> rfl
  rw [hcb] at hlive ⊢
  obtain ⟨⟨status, canStop⟩, e, device, hrun, heq, hcrashed⟩ := World.run_eq_some hlive
  obtain ⟨rfl, hreplies, c, hquery, rfl⟩ := status_current_replies hw.valid hentry hrun
  rw [heq]
  exact ⟨hcrashed, rfl, hreplies, c, hquery, rfl⟩

/-- The hide callback. -/
theorem hide_cb_replies (hknown : KnownCallbacks build callbacks) (hw : Working entries w)
    (hentry : entry_of entries name = some app) {run_id callback_data : Pointer}
    (hlive : (callbacks.hide_cb name run_id callback_data w).2.crashed = false) :
    let r := callbacks.hide_cb name run_id callback_data w
    w.crashed = false ∧
      (r.1 = kDIALStatusHide ↔ build = .appman ∨ (w.device.replies 0).ok = true) ∧
      ∃ e, r.2.made = w.made ++ e ∧ replies_to .suspend e = [w.device.replies 0] := by
  have hcb : callbacks.hide_cb name run_id callback_data w =
      w.run (hide_current build name) kDIALStatusError := by
    rcases hknown.cases with rfl | rfl | rfl <;> rfl
  rw [hcb] at hlive ⊢
  obtain ⟨status, e, device, hrun, heq, hcrashed⟩ := World.run_eq_some hlive
  obtain ⟨hreplies, hstatus⟩ := hide_current_replies hw.valid hentry hw.active hrun
  rw [heq]
  exact ⟨hcrashed, hstatus, e, rfl, hreplies⟩

/-- The stop callback. -/
theorem stop_cb_replies (hknown : KnownCallbacks build callbacks) (hw : Working entries w)
    (hentry : entry_of entries name = some app) {run_id callback_data : Pointer}
    (hlive : (callbacks.stop_cb name run_id callback_data w).crashed = false) :
    let r := callbacks.stop_cb name run_id callback_data w
    w.crashed = false ∧
      ∃ e, r.made = w.made ++ e ∧ replies_to .kill e = [w.device.replies 0] := by
  have hcb : callbacks.stop_cb name run_id callback_data w =
      (w.run (stop_current build name) ()).2 := by
    rcases hknown.cases with rfl | rfl | rfl <;> rfl
  rw [hcb] at hlive ⊢
  obtain ⟨⟨⟩, e, device, hrun, heq, hcrashed⟩ := World.run_eq_some hlive
  rw [heq]
  exact ⟨hcrashed, e, rfl, stop_current_replies hw.valid hentry hw.active hrun⟩

end World

/-! ## The handlers -/

section Handlers

variable {W : Type} {app_name : Bytes} {origin_header : Option Bytes} {pos : ℕ} {app : DIALApp W}
  {s : System W}

/-- The state that is read is the one that was assigned. -/
theorem assigned_state (happ : s.apps[pos]? = some app) (f : DIALApp W → DIALApp W) (world : W) :
    let r : System W := { s with apps := s.apps.modify pos f, world }
    get_state pos app r = some ((f app).state, [], r) := by
  refine get_state_apply ?_
  rw [List.getElem?_modify_eq, happ]
  rfl

/-- A stop asks for the status, and stops the application unless it is stopped. -/
theorem stop_app_run (happ : s.apps[pos]? = some app) :
    let asked := app.callbacks.status_cb app_name app.run_id (some false) app.callback_data s.world
    ∃ e t, stop_app app_name origin_header pos app s = some ((), e, t) ∧
      if asked.1 = kDIALStatusStopped then answered_2xx e = false ∧ t.world = asked.2.2
      else answered_2xx e = true ∧
        t.world = app.callbacks.stop_cb app_name app.run_id app.callback_data asked.2.2 := by
  intro asked
  unfold stop_app
  rw [bind_of_some (call_status_cb_apply pos app app_name (some false) s)]
  simp only
  rw [bind_of_some (set_app_apply _ _ _), bind_of_some (assigned_state happ _ _)]
  split_ifs with hstopped
  · obtain ⟨e, hrun, -, -⟩ := @refusal_run _ 404 "Not Found" rfl _
    rw [hrun]
    exact ⟨_, _, rfl, (refusal_eq_some rfl (by decide) hrun).1, rfl⟩
  · exact ⟨_, _, rfl, answered_ok origin_header [.unlock], rfl⟩

/-- A hiding asks for the status, and hides the application if it is running or hidden. -/
theorem hide_app_run (happ : s.apps[pos]? = some app) :
    let asked := app.callbacks.status_cb app_name app.run_id (some false) app.callback_data s.world
    let hidden := app.callbacks.hide_cb app_name app.run_id app.callback_data asked.2.2
    ∃ e t, hide_app app_name origin_header pos app s = some ((), e, t) ∧
      if asked.1 = kDIALStatusRunning ∨ asked.1 = kDIALStatusHide then
        (answered_2xx e = true ↔ hidden.1 = kDIALStatusHide) ∧ t.world = hidden.2
      else answered_2xx e = false ∧ t.world = asked.2.2 := by
  intro asked hidden
  unfold hide_app
  rw [bind_of_some (call_status_cb_apply pos app app_name (some false) s)]
  simp only
  rw [bind_of_some (set_app_apply _ _ _), bind_of_some (assigned_state happ _ _)]
  split_ifs with hother hshown hshown
  · exact absurd hshown (not_or.mpr hother)
  · obtain ⟨e, hrun, -, -⟩ := @refusal_run _ 404 "Not Found" rfl _
    rw [hrun]
    exact ⟨_, _, rfl, (refusal_eq_some rfl (by decide) hrun).1, rfl⟩
  · rw [bind_of_some (call_hide_cb_apply pos app app_name _)]
    simp only
    split_ifs with hrefused
    · obtain ⟨e, hrun, -, -⟩ := @refusal_run _ 501 "Not Implemented" rfl _
      have hanswer := (refusal_eq_some rfl (by decide) hrun).1
      rw [hrun]
      exact ⟨_, _, rfl, iff_of_false (ne_true_of_eq_false hanswer) hrefused, rfl⟩
    · have hok := answered_ok origin_header [.unlock]
      exact ⟨_, _, rfl, iff_of_true hok (not_not.mp hrefused), rfl⟩
  · exact absurd (not_or.mp hshown) hother

end Handlers

/-! ## Honest answers -/

/-- What a request asks the manager for. -/
def Call.asks_for {W : Type} : Call W → Option ManagerCallKind
  | .start .. => some .launch
  | .hide .. => some .suspend
  | .stop .. => some .kill
  | _ => none

@[simp] theorem asks_for_hide {W : Type} (app_name : Bytes) (origin_header : Option Bytes) :
    (Call.hide app_name origin_header : Call W).asks_for = some .suspend := rfl

@[simp] theorem asks_for_stop {W : Type} (app_name : Bytes) (origin_header : Option Bytes) :
    (Call.stop app_name origin_header : Call W).asks_for = some .kill := rfl

/-- A call of the kind was carried out. For a launch it is enough that there was none because the
application was reported to be running. -/
def CarriedOut (build : Build) (kind : ManagerCallKind) (made : List (ManagerCall × Reply)) :
    Prop :=
  (∃ reply ∈ replies_to kind made, reply.ok = true) ∨
    (kind = .launch ∧ replies_to .launch made = [] ∧ ∃ reply,
      (replies_to .query made).getLast? = some reply ∧
      reply_status build reply = kDIALStatusRunning)

/-- A request that is answered 2xx was carried out. -/
def Honest (build : Build) (c : Call World) (s : System World) (e : List Event)
    (t : System World) : Prop :=
  answered_2xx e = true → ∀ kind, c.asks_for = some kind →
    CarriedOut build kind (t.world.made.drop s.world.made.length)

/-- The mutex is to be had, and the application is registered. -/
def FindsApp {W : Type} (s : System W) (app_name : Bytes) : Prop :=
  s.supply 0 = true ∧ app_name ∈ s.apps.map DIALApp.name

/-- The manager will do what a request asks it for, as far as the program does not look: it will
launch or resume the application in an admitted start unless it is running, end it in a stop unless
it is stopped, and suspend it in a hiding with the application manager. The first of the replies to
come is that to the status callback. -/
def Obeyed (build : Build) (entries : List appInfo) (s : System World) : Call World → Prop
  | .start conn _ app_name origin_header =>
    FindsApp s app_name → Admitted (start_body conn) origin_header app_name →
      ∀ app, entry_of entries app_name = some app →
      let replies := fun i => s.world.device.replies (i + 1)
      start_status build replies = kDIALStatusRunning ∨
        ∃ reply, launch_reply build app replies = some reply ∧ reply.ok = true
  | .hide app_name _ =>
    FindsApp s app_name → build = .appman →
      let status := reply_status build (s.world.device.replies 0)
      status = kDIALStatusRunning ∨ status = kDIALStatusHide →
        (s.world.device.replies 1).ok = true
  | .stop app_name _ =>
    FindsApp s app_name → app_name ≠ bytes "system" →
      reply_status build (s.world.device.replies 0) ≠ kDIALStatusStopped →
        (s.world.device.replies 1).ok = true
  | _ => True

/-- The server after `runDial` and any requests: its callbacks are known ones, their names are
configured, and they find the cache valid and the mode active. -/
structure Serving (build : Build) (entries : List appInfo) (s : System World) : Prop where
  known : ∀ app ∈ s.apps, KnownCallbacks build app.callbacks
  configured : ∀ app ∈ s.apps, ∃ entry, entry_of entries app.name = some entry
  working : Working entries s.world

section Serving

variable {build : Build} {entries : List appInfo} {s t : System World} {e : List Event}

/-- Of a request that does not reach its application nothing is asked. -/
theorem honest_of_refused {c : Call World} (h : answered_2xx e = false) :
    Honest build c s e t := fun hanswer => absurd hanswer (by simp [h])

/-- The application that is found is registered under the name. -/
theorem FindsApp.of_found {W : Type} {s : System W} {app_name : Bytes} {app : DIALApp W}
    (hgranted : s.supply 0 = true) (h : s.apps[find_app s.apps app_name]? = some app) :
    FindsApp s app_name := by
  refine ⟨hgranted, List.mem_map.mpr ⟨app, List.mem_of_getElem? h, find_app_name h⟩⟩

/-- An application that is not found is not. -/
theorem FindsApp.not_of_none {W : Type} {s : System W} {app_name : Bytes}
    (h : s.apps[find_app s.apps app_name]? = none) : ¬FindsApp s app_name :=
  fun hreaches => find_app_eq_none.mp h hreaches.2

/-- The parameter for the additional data fits into its buffer. -/
theorem additional_data_param_length (useAdditionalData : Bool) (dial_port : UInt16)
    (app_name : Bytes) : (additional_data_param useAdditionalData dial_port app_name).length ≤
      DIAL_MAX_ADDITIONALURL - 1 := by
  unfold additional_data_param
  split_ifs
  · exact List.length_take_le _ _
  · exact Nat.zero_le _

/-- The status callback of an application that is found: it is the first part of every request. -/
theorem Serving.status_cb (hs : Serving build entries s) {app_name : Bytes} {app : DIALApp World}
    (happ : s.apps[find_app s.apps app_name]? = some app) (pCanStop : Option Bool) :
    let asked := app.callbacks.status_cb app_name app.run_id pCanStop app.callback_data s.world
    KnownCallbacks build app.callbacks ∧ Working entries asked.2.2 ∧
      ∃ entry, entry_of entries app_name = some entry ∧ (asked.2.2.crashed = false →
        asked.1 = reply_status build (s.world.device.replies 0) ∧
        (asked.2.2.device.replies = fun i => s.world.device.replies (i + 1)) ∧
        ∃ c : ManagerCall, c.kind = .query ∧
          asked.2.2.made = s.world.made ++ [(c, s.world.device.replies 0)]) := by
  intro asked
  have hmem := List.mem_of_getElem? happ
  have hknown := hs.known app hmem
  obtain ⟨entry, hentry⟩ := hs.configured app hmem
  rw [find_app_name happ] at hentry
  obtain ⟨hvalid, hmode⟩ := Callback.run_cacheValid hknown
    (.status app_name app.run_id pCanStop app.callback_data) hs.working.valid
  refine ⟨hknown, ⟨hvalid, hmode.trans hs.working.active⟩, entry, hentry, fun hlive => ?_⟩
  obtain ⟨-, hstatus, hreplies, hmade⟩ := status_cb_replies hknown hs.working hentry hlive
  exact ⟨hstatus, funext hreplies, hmade⟩

/-- An application that is running is not launched. -/
theorem launch_reply_running {app : appInfo} {replies : ℕ → Reply}
    (h : start_status build replies = kDIALStatusRunning) :
    launch_reply build app replies = none := by
  cases build with
  | appman => exact if_pos h
  | thunder_api =>
    have hstatus : thunder_status (replies (power_calls (replies 0))) = kDIALStatusRunning := h
    simp only [launch_reply, hstatus]
    rfl

/-- What the calls of a start carry out. -/
theorem carriedOut_launch_iff {app : appInfo} {replies : ℕ → Reply} {c : ManagerCall}
    (hc : c.kind = .query) (first : Reply) {made : List (ManagerCall × Reply)}
    (h : StartReplies build app replies made) :
    CarriedOut build .launch ((c, first) :: made) ↔
      start_status build replies = kDIALStatusRunning ∨
        ∃ reply, launch_reply build app replies = some reply ∧ reply.ok = true := by
  obtain ⟨hlaunch, hquery⟩ := h
  obtain ⟨last, hlast, hstatus⟩ := List.map_eq_singleton_iff.mp hquery
  unfold CarriedOut
  rw [replies_to_cons, replies_to_cons, hc, if_neg (by decide), if_pos rfl, hlaunch, hlast,
    ← hstatus]
  cases hreply : launch_reply build app replies with
  | none => simp
  | some reply =>
    -- A launch has been asked for, so that the application was not running.
    have hnot : reply_status build last ≠ kDIALStatusRunning := fun hrunning => by
      rw [launch_reply_running (hstatus ▸ hrunning)] at hreply
      exact absurd hreply (by simp)
    simp [hnot]

/-- A start is answered honestly if and only if its launch is obeyed. -/
theorem start_honest_iff (hs : Serving build entries s) {conn : mg_connection}
    {request_info : mg_request_info} {app_name : Bytes} {origin_header : Option Bytes}
    (h : handle_app_start conn request_info app_name origin_header s = some ((), e, t))
    (hlive : t.world.crashed = false) :
    Honest build (.start conn request_info app_name origin_header) s e t ↔
      Obeyed build entries s (.start conn request_info app_name origin_header) := by
  rcases lock_cases h with ⟨hnot, hanswer, -⟩ | ⟨hgranted, e', hfound, rfl⟩
  · refine iff_of_true (honest_of_refused hanswer) fun hreaches => ?_
    exact absurd hreaches.1 (by simp [hnot])
  rcases found_cases hfound with ⟨hnone, hanswer, -⟩ | ⟨app, happ, hstart⟩
  · exact iff_of_true (honest_of_refused hanswer) fun hreaches =>
      absurd hreaches (FindsApp.not_of_none hnone)
  by_cases hadmitted : Admitted (start_body conn) origin_header app_name
  · obtain ⟨e₁, t₁, hrun, -, hanswer, hworld⟩ := @start_app_admitted _ _ request_info _ _ _ _ _
      hadmitted happ
    rw [hrun, Option.some.injEq, Prod.mk.injEq, Prod.mk.injEq] at hstart
    obtain ⟨-, rfl, rfl⟩ := hstart
    rw [hworld] at hlive
    obtain ⟨hknown, hworking, entry, hentry, hasked⟩ := hs.status_cb happ none
    obtain ⟨hbefore, hrunning, made, hmade, hreplies⟩ := start_cb_replies hknown hworking hentry
      hadmitted.fits (additional_data_param_length _ _ _) hlive
    obtain ⟨-, hnext, c, hc, hfirst⟩ := hasked hbefore
    rw [hnext] at hreplies
    have hnew : t₁.world.made.drop s.world.made.length =
        (c, s.world.device.replies 0) :: made := by
      rw [hworld]
      refine (congrArg (List.drop s.world.made.length) (hmade.trans ?_)).trans List.drop_left
      rw [hfirst, List.append_assoc]
      rfl
    have hiff := carriedOut_launch_iff hc (s.world.device.replies 0) hreplies
    constructor
    · intro hhonest _ _ app' happ'
      obtain rfl : entry = app' := Option.some.inj (hentry.symm.trans happ')
      have hcarried := hhonest (hanswer.mpr hrunning) .launch rfl
      rw [hnew] at hcarried
      exact hiff.mp hcarried
    · intro hobeyed _ kind hkind
      obtain rfl : ManagerCallKind.launch = kind := Option.some.inj hkind
      rw [hnew]
      exact hiff.mpr (hobeyed (FindsApp.of_found hgranted happ) hadmitted entry hentry)
  · obtain ⟨e₁, hrun, -, code, hcode, hanswer⟩ := @start_app_refused _ _ request_info _ _
      hadmitted (find_app s.apps app_name) app (locked s)
    obtain ⟨rfl, -⟩ : e₁ = e' ∧ _ = t := by
      simpa using hrun.symm.trans hstart
    refine iff_of_true (honest_of_refused ?_) fun _ h => absurd h hadmitted
    have hcodes : ∀ code ∈ start_refusals, code.head? ≠ some (chr '2') := by decide
    show answered_2xx e₁ = false
    unfold answered_2xx
    rw [hanswer]
    simpa using hcodes code hcode

/-- A hiding is answered honestly if and only if its suspension is obeyed; the plugins are heard
when they refuse. -/
theorem hide_honest_iff (hs : Serving build entries s) {app_name : Bytes}
    {origin_header : Option Bytes}
    (h : handle_app_hide app_name origin_header s = some ((), e, t))
    (hlive : t.world.crashed = false) :
    Honest build (.hide app_name origin_header) s e t ↔
      Obeyed build entries s (.hide app_name origin_header) := by
  rcases lock_cases h with ⟨hnot, hanswer, -⟩ | ⟨hgranted, e', hfound, rfl⟩
  · refine iff_of_true (honest_of_refused hanswer) fun hreaches => ?_
    exact absurd hreaches.1 (by simp [hnot])
  rcases found_cases hfound with ⟨hnone, hanswer, -⟩ | ⟨app, happ, hhide⟩
  · exact iff_of_true (honest_of_refused hanswer) fun hreaches =>
      absurd hreaches (FindsApp.not_of_none hnone)
  have hreaches : FindsApp s app_name := FindsApp.of_found hgranted happ
  obtain ⟨hknown, hworking, entry, hentry, hasked⟩ := hs.status_cb happ (some false)
  obtain ⟨e₁, t₁, hrun, hcases⟩ := @hide_app_run _ app_name origin_header _ _ _ happ
  rw [hrun, Option.some.injEq, Prod.mk.injEq, Prod.mk.injEq] at hhide
  obtain ⟨-, rfl, rfl⟩ := hhide
  split_ifs at hcases with hshown
  · obtain ⟨hanswer, hworld⟩ := hcases
    rw [hworld] at hlive
    obtain ⟨hbefore, hhidden, made, hmade, hreplies⟩ :=
      hide_cb_replies hknown hworking hentry hlive
    obtain ⟨hstatus, hnext, c, hc, hfirst⟩ := hasked hbefore
    rw [hnext] at hhidden hreplies
    have hnew : t₁.world.made.drop s.world.made.length =
        (c, s.world.device.replies 0) :: made := by
      rw [hworld]
      refine (congrArg (List.drop s.world.made.length) (hmade.trans ?_)).trans List.drop_left
      rw [hfirst, List.append_assoc]
      rfl
    have hcarried : CarriedOut build .suspend ((c, s.world.device.replies 0) :: made) ↔
        (s.world.device.replies 1).ok = true := by
      unfold CarriedOut
      rw [replies_to_cons, hc, if_neg (by decide), hreplies]
      simp
    have hheard : answered_2xx (.lock :: e₁) = true ↔
        build = .appman ∨ (s.world.device.replies 1).ok = true := hanswer.trans hhidden
    unfold Honest Obeyed
    simp only [hnew, asks_for_hide, Option.some.injEq, forall_eq', hcarried, hheard]
    refine ⟨fun hhonest _ happman _ => hhonest (.inl happman), fun hobeyed hanswered => ?_⟩
    rcases hanswered with happman | hok
    · exact hobeyed hreaches happman (hstatus ▸ hshown)
    · exact hok
  · obtain ⟨hanswer, hworld⟩ := hcases
    rw [hworld] at hlive
    obtain ⟨hstatus, -⟩ := hasked hlive
    exact iff_of_true (honest_of_refused hanswer) fun _ _ h => absurd (hstatus ▸ h) hshown

/-- A stop is answered honestly if and only if it is obeyed. -/
theorem stop_honest_iff (hs : Serving build entries s) {app_name : Bytes}
    {origin_header : Option Bytes}
    (h : handle_app_stop app_name origin_header s = some ((), e, t))
    (hlive : t.world.crashed = false) :
    Honest build (.stop app_name origin_header) s e t ↔
      Obeyed build entries s (.stop app_name origin_header) := by
  rcases lock_cases h with ⟨hnot, hanswer, -⟩ | ⟨hgranted, e', hrest, rfl⟩
  · refine iff_of_true (honest_of_refused hanswer) fun hreaches => ?_
    exact absurd hreaches.1 (by simp [hnot])
  split_ifs at hrest with hsystem
  · exact iff_of_true (honest_of_refused (refusal_eq_some rfl (by decide) hrest).1) fun _ h =>
      absurd hsystem h
  rcases found_cases hrest with ⟨hnone, hanswer, -⟩ | ⟨app, happ, hstop⟩
  · exact iff_of_true (honest_of_refused hanswer) fun hreaches =>
      absurd hreaches (FindsApp.not_of_none hnone)
  have hreaches : FindsApp s app_name := FindsApp.of_found hgranted happ
  obtain ⟨hknown, hworking, entry, hentry, hasked⟩ := hs.status_cb happ (some false)
  obtain ⟨e₁, t₁, hrun, hcases⟩ := @stop_app_run _ app_name origin_header _ _ _ happ
  rw [hrun, Option.some.injEq, Prod.mk.injEq, Prod.mk.injEq] at hstop
  obtain ⟨-, rfl, rfl⟩ := hstop
  split_ifs at hcases with hstopped
  · obtain ⟨hanswer, hworld⟩ := hcases
    rw [hworld] at hlive
    obtain ⟨hstatus, -⟩ := hasked hlive
    exact iff_of_true (honest_of_refused hanswer) fun _ _ h => absurd (hstatus ▸ hstopped) h
  · obtain ⟨hanswer, hworld⟩ := hcases
    rw [hworld] at hlive
    obtain ⟨hbefore, made, hmade, hreplies⟩ := stop_cb_replies hknown hworking hentry hlive
    obtain ⟨hstatus, hnext, c, hc, hfirst⟩ := hasked hbefore
    rw [hnext] at hreplies
    have hnew : t₁.world.made.drop s.world.made.length =
        (c, s.world.device.replies 0) :: made := by
      rw [hworld]
      refine (congrArg (List.drop s.world.made.length) (hmade.trans ?_)).trans List.drop_left
      rw [hfirst, List.append_assoc]
      rfl
    have hcarried : CarriedOut build .kill ((c, s.world.device.replies 0) :: made) ↔
        (s.world.device.replies 1).ok = true := by
      unfold CarriedOut
      rw [replies_to_cons, hc, if_neg (by decide), hreplies]
      simp
    have hheard : answered_2xx (.lock :: e₁) = true := hanswer
    unfold Honest Obeyed
    simp only [hnew, asks_for_stop, Option.some.injEq, forall_eq', hcarried, hheard, true_imp_iff]
    exact ⟨fun hok _ _ _ => hok, fun hobeyed => hobeyed hreaches hsystem (hstatus ▸ hstopped)⟩

/-! ## Runs of requests -/

/-- A request changes the world by callbacks of the application that it names. -/
theorem callbackRun_of_request {c : Call World} (hc : c.asks_for ≠ none)
    (h : c.exec s = some ((), e, t)) : CallbackRun s.apps s.world t.world := by
  have hname {app : DIALApp World} {app_name : Bytes}
      (happ : s.apps[find_app s.apps app_name]? = some app) :
      app ∈ s.apps ∧ app_name = app.name :=
    ⟨List.mem_of_getElem? happ, (find_app_name happ).symm⟩
  have hasked {app : DIALApp World} {app_name : Bytes}
      (happ : s.apps[find_app s.apps app_name]? = some app) (pCanStop : Option Bool) :
      CallbackRun s.apps s.world (Callback.run app.callbacks
        (.status app_name app.run_id pCanStop app.callback_data) s.world) :=
    (CallbackRun.refl _).step (hname happ).1 (hname happ).2
  cases c with
  | start conn request_info app_name origin_header =>
    rcases lock_cases h with ⟨-, -, hworld⟩ | ⟨-, e', hfound, -⟩
    · exact hworld ▸ .refl _
    rcases found_cases hfound with ⟨-, -, hworld⟩ | ⟨app, happ, hstart⟩
    · exact hworld ▸ .refl _
    by_cases hadmitted : Admitted (start_body conn) origin_header app_name
    · obtain ⟨e₁, t₁, hrun, -, -, hworld⟩ := @start_app_admitted _ _ request_info _ _ _ _ _
        hadmitted happ
      rw [hrun, Option.some.injEq, Prod.mk.injEq, Prod.mk.injEq] at hstart
      obtain ⟨-, -, rfl⟩ := hstart
      rw [hworld]
      exact (hasked happ none).step (c := .start app_name (start_body conn)
        request_info.query_string _ app.run_id app.callback_data) (hname happ).1 (hname happ).2
    · obtain ⟨e₁, hrun, -⟩ := @start_app_refused _ _ request_info _ _
        hadmitted (find_app s.apps app_name) app (locked s)
      obtain ⟨-, rfl⟩ : e₁ = e' ∧ { locked s with mux := false } = t := by
        simpa using hrun.symm.trans hstart
      exact .refl _
  | hide app_name origin_header =>
    rcases lock_cases h with ⟨-, -, hworld⟩ | ⟨-, e', hfound, -⟩
    · exact hworld ▸ .refl _
    rcases found_cases hfound with ⟨-, -, hworld⟩ | ⟨app, happ, hhide⟩
    · exact hworld ▸ .refl _
    obtain ⟨e₁, t₁, hrun, hcases⟩ := @hide_app_run _ app_name origin_header _ _ _ happ
    rw [hrun, Option.some.injEq, Prod.mk.injEq, Prod.mk.injEq] at hhide
    obtain ⟨-, -, rfl⟩ := hhide
    split_ifs at hcases
    · rw [hcases.2]
      exact (hasked happ (some false)).step (c := .hide app_name app.run_id app.callback_data)
        (hname happ).1 (hname happ).2
    · rw [hcases.2]
      exact hasked happ (some false)
  | stop app_name origin_header =>
    rcases lock_cases h with ⟨-, -, hworld⟩ | ⟨-, e', hrest, -⟩
    · exact hworld ▸ .refl _
    split_ifs at hrest
    · exact (refusal_eq_some rfl (by decide) hrest).2 ▸ .refl _
    rcases found_cases hrest with ⟨-, -, hworld⟩ | ⟨app, happ, hstop⟩
    · exact hworld ▸ .refl _
    obtain ⟨e₁, t₁, hrun, hcases⟩ := @stop_app_run _ app_name origin_header _ _ _ happ
    rw [hrun, Option.some.injEq, Prod.mk.injEq, Prod.mk.injEq] at hstop
    obtain ⟨-, -, rfl⟩ := hstop
    split_ifs at hcases
    · rw [hcases.2]
      exact hasked happ (some false)
    · rw [hcases.2]
      exact (hasked happ (some false)).step (c := .stop app_name app.run_id app.callback_data)
        (hname happ).1 (hname happ).2
  | _ => exact absurd rfl hc

/-- The server goes on serving. -/
theorem Serving.request (hs : Serving build entries s) {c : Call World} (hc : c.asks_for ≠ none)
    (h : c.exec s = some ((), e, t)) : Serving build entries t := by
  -- Names and callbacks are those from before.
  have hedits : c.edits_list = false := by
    cases c with
    | register => exact absurd rfl hc
    | unregister => exact absurd rfl hc
    | _ => rfl
  have hsame : t.apps.map (fun app => (app.name, app.callbacks)) =
      s.apps.map fun app => (app.name, app.callbacks) :=
    (Call.exec_sectioned (everywhere_unchanged (g := fun app => (app.name, app.callbacks))
      (fun _ _ _ => rfl) (fun _ _ => rfl) fun _ _ => rfl) hedits h).rel (fun _ => rfl) fun _ => rfl
  have hold : ∀ app ∈ t.apps, ∃ old ∈ s.apps, old.name = app.name ∧
      old.callbacks = app.callbacks := by
    intro app happ
    have hmem := List.mem_map_of_mem (f := fun app => (app.name, app.callbacks)) happ
    rw [hsame] at hmem
    obtain ⟨old, hold, heq⟩ := List.mem_map.mp hmem
    exact ⟨old, hold, (Prod.mk.inj heq).1, (Prod.mk.inj heq).2⟩
  obtain ⟨hvalid, hmode⟩ :=
    (callbackRun_of_request hc h).cacheValid hs.known hs.working.valid
  refine ⟨fun app happ => ?_, fun app happ => ?_, hvalid, hmode.trans hs.working.active⟩
  · obtain ⟨old, hmem, -, hcallbacks⟩ := hold app happ
    exact hcallbacks ▸ hs.known old hmem
  · obtain ⟨old, hmem, hname, -⟩ := hold app happ
    exact hname ▸ hs.configured old hmem

/-- One request is answered honestly if and only if it is obeyed. -/
theorem Serving.honest_iff (hs : Serving build entries s) {c : Call World} (hc : c.asks_for ≠ none)
    (h : c.exec s = some ((), e, t)) (hlive : t.world.crashed = false) :
    Honest build c s e t ↔ Obeyed build entries s c := by
  cases c with
  | start => exact start_honest_iff hs h hlive
  | hide => exact hide_honest_iff hs h hlive
  | stop => exact stop_honest_iff hs h hlive
  | _ => exact absurd rfl hc

/-- A configured name has an entry. -/
theorem entry_of_named {name : Bytes} {entry : appInfo} (hmem : entry ∈ entries)
    (hname : entry.name = some name) : ∃ app, entry_of entries name = some app := by
  obtain ⟨pos, hpos⟩ : ∃ pos, first_entry entries name = some pos := by
    rw [← Option.isSome_iff_exists, first_entry, List.findIdx?_isSome, List.any_eq_true]
    exact ⟨entry, hmem, by simpa using hname⟩
  obtain ⟨⟨app, hget, -⟩, -⟩ := first_entry_eq_some.mp hpos
  exact ⟨app, Option.bind_eq_some_iff.mpr ⟨pos, hpos, hget⟩⟩

/-- `runDial` sets up a server that serves. -/
theorem serving_of_runDial {blocks : ℕ → Block} (hs : s.apps = []) (hfree : s.mux = false)
    (hlist : s.world.device.appInfoList = some ⟨entries, none⟩)
    (hcurrent : s.world.device.curAppForDial = none)
    (hactive : s.world.device._passivemode = false)
    (hrun : runDial build blocks s = some ((), e, t)) : Serving build entries t := by
  have hreturn : ReachesEntry build blocks entries s entries.length t := by
    unfold runDial at hrun
    rw [read_bind_apply, hlist] at hrun
    exact ⟨e, (List.take_length (l := entries)).symm ▸ hrun⟩
  have hafter := hreturn.registered hs hfree le_rfl
  refine ⟨hafter.known, fun app happ => ?_, ?_⟩
  · obtain ⟨i, -, hfrom⟩ := hafter.origin app happ
    obtain ⟨entry, r, -, hget, hname, -⟩ := (registeredFrom_iff hs hfree).mp hfrom
    exact entry_of_named (List.mem_of_getElem? hget) hname
  · rw [hafter.world]
    exact ⟨CacheValid.start hlist hcurrent, hactive⟩

/-- **A 2xx answer is honest if and only if the manager obeys.** In every run of start, hide and
stop requests in the active mode, on a server that `runDial` has set up with either backend and any
configuration, a request after which the process is still there is answered honestly if and only if
it is obeyed. -/
theorem success_honest_iff {blocks : ℕ → Block} (hs : s.apps = []) (hfree : s.mux = false)
    (hlist : s.world.device.appInfoList = some ⟨entries, none⟩)
    (hcurrent : s.world.device.curAppForDial = none)
    (hactive : s.world.device._passivemode = false)
    (hrun : runDial build blocks s = some ((), e, t)) {u : System World}
    (hrequests : Run (fun c _ => c.asks_for ≠ none) t u) {c : Call World}
    (hc : c.asks_for ≠ none) {e' : List Event} {u' : System World}
    (hexec : c.exec u = some ((), e', u')) (hlive : u'.world.crashed = false) :
    Honest build c u e' u' ↔ Obeyed build entries u c := by
  have hserving : Serving build entries u := by
    refine hrequests.induct (fun c s e t hok hs h => hs.request hok h) ?_
    exact serving_of_runDial hs hfree hlist hcurrent hactive hrun
  exact hserving.honest_iff hc hexec hlive

end Serving

/-! ## Requests on a device -/

/-- A start of YouTube with a video. -/
def device_start : Call World :=
  .start ⟨3, 0, bytes "v=1", []⟩
    ⟨bytes "POST", bytes "/apps/YouTube", none, ⟨192, 168, 0, 2⟩, ⟨192, 168, 0, 3⟩, []⟩
    (bytes "YouTube") (some (bytes "package:com.google.android.youtube"))

/-- On the configured device the plugins obey, and the start is answered honestly. -/
theorem configured_start_honest : ∃ e t e' u,
    runDial .thunder_api zero_blocks (device_server configured_device) = some ((), e, t) ∧
      device_start.exec t = some ((), e', u) ∧ answered_2xx e' = true ∧
      Honest .thunder_api device_start t e' u := by
  refine ⟨_, _, _, _, rfl, rfl, rfl, ?_⟩
  refine (@success_honest_iff .thunder_api [netflix_info, youtube_info]
    (device_server configured_device) _ _ zero_blocks rfl rfl rfl rfl rfl rfl _ (.refl _)
    device_start (by simp [device_start, Call.asks_for]) _ _ rfl rfl).mpr ?_
  intro _ _ app happ
  obtain rfl : youtube_info = app := Option.some.inj happ
  exact .inr ⟨_, rfl, rfl⟩

/-- A device on which the application is in a state, and the call of a number fails. -/
def failing_device (state : APPMGR_APPSTATE) (text : String) (i : ℕ) : Device :=
  { configured_device with replies := fun j => ⟨j ≠ i, state, some (bytes text)⟩ }

/-- The device is asked once for what the request wants, refuses, and the answer is 2xx. -/
def AnsweredFalsely (build : Build) (device : Device) (c : Call World) : Prop :=
  ∃ e t e' u, runDial build zero_blocks (device_server device) = some ((), e, t) ∧
    c.exec t = some ((), e', u) ∧ u.world.crashed = false ∧ answered_2xx e' = true ∧
    ¬Honest build c t e' u

/-- One call of the kind that failed. -/
theorem not_carriedOut {build : Build} {kind : ManagerCallKind}
    {made : List (ManagerCall × Reply)} (h : (replies_to kind made).map Reply.ok = [false]) :
    ¬CarriedOut build kind made := by
  obtain ⟨reply, hreply, hfailed⟩ := List.map_eq_singleton_iff.mp h
  rintro (⟨reply', hmem, hok⟩ | ⟨rfl, hnone, -⟩)
  · rw [hreply, List.mem_singleton] at hmem
    rw [hmem, hfailed] at hok
    exact absurd hok (by simp)
  · rw [hnone] at hreply
    exact absurd hreply (by simp)

/-- Launches and ends that fail are answered 2xx with both backends, and a suspension that fails
with the application manager. -/
theorem failures_answered :
    AnsweredFalsely .appman (failing_device APPMGR_APPSTATE_STOPPED "" 2) device_start ∧
      AnsweredFalsely .thunder_api
        (failing_device APPMGR_APPSTATE_STOPPED "deactivated" 5) device_start ∧
      AnsweredFalsely .appman (failing_device APPMGR_APPSTATE_RUNNING "" 1)
        (.stop (bytes "YouTube") none) ∧
      AnsweredFalsely .thunder_api (failing_device APPMGR_APPSTATE_RUNNING "resumed" 1)
        (.stop (bytes "YouTube") none) ∧
      AnsweredFalsely .appman (failing_device APPMGR_APPSTATE_RUNNING "" 1)
        (.hide (bytes "YouTube") none) := by
  have hanswered {build : Build} {device : Device} {c : Call World} {kind : ManagerCallKind}
      (hkind : c.asks_for = some kind) (h : ∃ e t e' u,
        runDial build zero_blocks (device_server device) = some ((), e, t) ∧
          c.exec t = some ((), e', u) ∧ u.world.crashed = false ∧ answered_2xx e' = true ∧
          (replies_to kind (u.world.made.drop t.world.made.length)).map Reply.ok = [false]) :
      AnsweredFalsely build device c := by
    obtain ⟨e, t, e', u, hrun, hexec, hlive, hanswer, hfailed⟩ := h
    exact ⟨e, t, e', u, hrun, hexec, hlive, hanswer, fun hhonest =>
      not_carriedOut hfailed (hhonest hanswer kind hkind)⟩
  exact ⟨hanswered rfl ⟨_, _, _, _, rfl, rfl, rfl, rfl, rfl⟩,
    hanswered rfl ⟨_, _, _, _, rfl, rfl, rfl, rfl, rfl⟩,
    hanswered rfl ⟨_, _, _, _, rfl, rfl, rfl, rfl, rfl⟩,
    hanswered rfl ⟨_, _, _, _, rfl, rfl, rfl, rfl, rfl⟩,
    hanswered rfl ⟨_, _, _, _, rfl, rfl, rfl, rfl, rfl⟩⟩

end DialServer
