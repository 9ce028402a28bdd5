import DialServer.Device.Matching
import DialServer.Device.Netflix

/-!
# What the callbacks make of replies

In the active mode the calls of a callback that matter for its request are the one that launches or
resumes the application, the one that suspends it, and the one that ends it. `launch_reply` is the
reply that a start gets to its call, if it makes one, in terms of the replies to come. The results
of the callbacks come next: a start is always said to have succeeded, and of the replies to a
hiding only one of the backends takes notice.
-/

namespace DialServer

open CLib Program DIALStatus APPMGR_APPSTATE

/-- The replies to the calls of a kind. -/
def replies_to (kind : ManagerCallKind) (made : List (ManagerCall × Reply)) : List Reply :=
  (made.filter fun x => x.1.kind = kind).map Prod.snd

/-- The replies to one call after another. -/
@[simp] theorem replies_to_append (kind : ManagerCallKind)
    (made made' : List (ManagerCall × Reply)) :
    replies_to kind (made ++ made') = replies_to kind made ++ replies_to kind made' := by
  simp [replies_to]

@[simp] theorem replies_to_nil (kind : ManagerCallKind) : replies_to kind [] = [] := rfl

/-- The reply to one call. -/
@[simp] theorem replies_to_cons (kind : ManagerCallKind) (c : ManagerCall) (reply : Reply)
    (made : List (ManagerCall × Reply)) :
    replies_to kind ((c, reply) :: made) =
      if c.kind = kind then reply :: replies_to kind made else replies_to kind made := by
  unfold replies_to
  rw [List.filter_cons]
  split_ifs with h <;> simp_all

/-- Calls of other kinds have no such replies. -/
theorem replies_to_eq_nil {kind : ManagerCallKind} {kinds : List ManagerCallKind} (h : kind ∉ kinds)
    {made : List (ManagerCall × Reply)} (hmade : ∀ x ∈ made, x.1.kind ∈ kinds) :
    replies_to kind made = [] := by
  have hnone : made.filter (fun x => x.1.kind = kind) = [] :=
    List.filter_eq_nil_iff.mpr fun x hx => by
      simpa using ne_of_mem_of_not_mem (hmade x hx) h
  rw [replies_to, hnone, List.map_nil]

/-! ## The status -/

/-- The status that a reply of the application manager stands for. -/
def appman_status (reply : Reply) : DIALStatus :=
  match reply.state with
  | APPMGR_APPSTATE_STOPPED => kDIALStatusStopped
  | APPMGR_APPSTATE_SUSPEND => kDIALStatusHide
  | APPMGR_APPSTATE_RUNNING => kDIALStatusRunning
  | APPMGR_APPSTATE_INVALID => kDIALStatusError

/-- The status that a reply of the controller stands for. -/
def thunder_status (reply : Reply) : DIALStatus :=
  if reply.ok = false then kDIALStatusError
  else if reply.text = some (bytes "resumed") then kDIALStatusRunning
  else if reply.text = some (bytes "suspended") then kDIALStatusHide
  else if reply.text = some (bytes "deactivated") then kDIALStatusStopped
  else kDIALStatusError

/-- The status that a reply stands for. -/
def reply_status : Build → Reply → DIALStatus
  | .appman => appman_status
  | .thunder_api => thunder_status

/-- The call that asks for the status. -/
def status_call : Build → Bytes → ManagerCall
  | .appman => .GetAppState
  | .thunder_api => .status

/-- `getAppStatus` is one call, and the status that its reply stands for. -/
theorem getAppStatus_eq (build : Build) (callsign : Bytes) (d : Device) :
    getAppStatus build (some callsign) d = some (reply_status build (d.replies 0),
      [(status_call build callsign, d.replies 0)], d.next) := by
  cases build with
  | appman =>
    show appman.getAppStatus (some callsign) d = some (appman_status (d.replies 0), _, _)
    unfold appman.getAppStatus appman_status
    rw [deref_some, ret_bind, bind_of_some (call_apply _ _)]
    cases (d.replies 0).state <;> rfl
  | thunder_api =>
    show thunder_api.getAppStatus (some callsign) d = some (thunder_status (d.replies 0), _, _)
    unfold thunder_api.getAppStatus thunder_status
    rw [deref_some, ret_bind, bind_of_some (call_apply _ _)]
    cases (d.replies 0).ok with
    | false => rfl
    | true =>
      cases (d.replies 0).text with
      | none => rfl
      | some state =>
        simp only [if_true, Bool.true_eq_false, if_false, Option.some.injEq]
        split_ifs <;> rfl

/-- A null callsign is followed. -/
theorem getAppStatus_none (build : Build) (d : Device) : getAppStatus build none d = none := by
  cases build <;> rfl

/-! ## Starts -/

/-- The handlers for which an application is configured before it is activated. -/
def has_item (app : appInfo) : Prop :=
  app.handler = some (bytes "YouTube") ∨ app.handler = some (bytes "Netflix") ∨
    app.handler = some (bytes "Amazon")

instance (app : appInfo) : Decidable (has_item app) := by
  unfold has_item
  infer_instance

/-- How many calls the part of a start makes that asks for power. -/
def power_calls (reply : Reply) : ℕ := if reply.ok ∧ reply.text = some (bytes "ON") then 1 else 2

/-- Which of the calls behind the request for the status launches or resumes the application, with
the plugins. -/
def thunder_launch (app : appInfo) : DIALStatus → Option ℕ
  | kDIALStatusHide => some 0
  | kDIALStatusStopped => some (if has_item app then 1 else 0)
  | _ => none

/-- The status that a start goes by, in terms of the replies to all its calls. -/
def start_status (build : Build) (replies : ℕ → Reply) : DIALStatus :=
  match build with
  | .appman => appman_status (replies 0)
  | .thunder_api => thunder_status (replies (power_calls (replies 0)))

/-- The reply to the call of a start that launches or resumes the application, if there is one,
among the replies to all its calls. -/
def launch_reply (build : Build) (app : appInfo) (replies : ℕ → Reply) : Option Reply :=
  match build with
  | .appman =>
    if appman_status (replies 0) = kDIALStatusRunning then none else some (replies 1)
  | .thunder_api =>
    let asked := power_calls (replies 0)
    (thunder_launch app (thunder_status (replies asked))).map fun i => replies (asked + (i + 1))

section Start

variable {app : appInfo} {d d' : Device} {e : List (ManagerCall × Reply)}

/-- A program that begins with a call makes it with the next reply. -/
theorem call_bind_eq_some {α : Type} {c : ManagerCall} {f : Reply → Manager α} {a : α}
    (h : (call c >>= f) d = some (a, e, d')) :
    ∃ e', f (d.replies 0) d.next = some (a, e', d') ∧ e = (c, d.replies 0) :: e' := by
  obtain ⟨reply, e₁, t, e₂, hcall, hf, rfl⟩ := bind_eq_some.mp h
  simp only [call_apply, Option.some.injEq, Prod.mk.injEq] at hcall
  obtain ⟨rfl, rfl, rfl⟩ := hcall
  exact ⟨e₂, hf, rfl⟩

/-- A program that begins with a test of the handler goes on where it is. -/
theorem handler_bind_eq_some {α : Type} {handler : String} {f : Bool → Manager α} {a : α}
    (h : (current_handler_is handler >>= f) d = some (a, e, d')) :
    ∃ b, f b d = some (a, e, d') := by
  obtain ⟨b, e₁, t, e₂, htest, hf, rfl⟩ := bind_eq_some.mp h
  obtain ⟨-, rfl, rfl⟩ := current_handler_is_eq_some.mp htest
  exact ⟨b, hf⟩

/-- A program that begins with a pointer goes on with what it points to. -/
theorem deref_bind_eq_some {α β : Type} {p : Option β} {f : β → Manager α} {a : α}
    (h : (deref p >>= f) d = some (a, e, d')) : ∃ b, p = some b ∧ f b d = some (a, e, d') := by
  obtain ⟨b, e₁, t, e₂, hderef, hf, rfl⟩ := bind_eq_some.mp h
  obtain ⟨hp, rfl, rfl⟩ := deref_eq_some.mp hderef
  exact ⟨b, hp, hf⟩

/-- The end of a program. -/
theorem return_eq_some {α : Type} {a b : α} (h : (return b : Manager α) d = some (a, e, d')) :
    a = b ∧ e = [] ∧ d' = d := by
  simpa [eq_comm] using h

/-- The application manager is asked to launch or to resume, unless the application is running. -/
theorem appman_bring_up_replies {callsign : Option Bytes} {status : DIALStatus}
    (hstatus : status = kDIALStatusRunning ∨ status = kDIALStatusHide ∨
      status = kDIALStatusStopped ∨ status = kDIALStatusError)
    (h : appman.bring_up status callsign d = some ((), e, d')) :
    replies_to .launch e = if status = kDIALStatusRunning then [] else [d.replies 0] := by
  have hlaunch {callsign : Option Bytes}
      (h : (do let appname ← deref callsign; let _ ← call (.LaunchApp appname)) d =
        some ((), e, d')) : replies_to .launch e = [d.replies 0] := by
    obtain ⟨appname, -, hcall⟩ := deref_bind_eq_some h
    obtain ⟨e', hreturn, rfl⟩ := call_bind_eq_some hcall
    obtain ⟨-, rfl, -⟩ := return_eq_some hreturn
    rfl
  unfold appman.bring_up at h
  rcases hstatus with rfl | rfl | rfl | rfl
  · obtain ⟨-, rfl, -⟩ := return_eq_some h
    rfl
  · -- A hidden application is resumed.
    obtain ⟨resumed, e₁, t, e₂, hresume, htest, rfl⟩ := bind_eq_some.mp h
    obtain ⟨b, hpure⟩ := handler_bind_eq_some htest
    obtain ⟨-, rfl, -⟩ := return_eq_some hpure
    obtain ⟨appname, -, hcall⟩ := deref_bind_eq_some hresume
    obtain ⟨e', hreturn, rfl⟩ := call_bind_eq_some hcall
    obtain ⟨-, rfl, -⟩ := return_eq_some hreturn
    rfl
  · exact hlaunch h
  · exact hlaunch h

/-- Asking for power takes the replies that it takes, and makes no other calls. -/
theorem wake_up_eq_some (h : thunder_api.wake_up d = some ((), e, d')) :
    d'.config = d.config ∧ (∀ i, d'.replies i = d.replies (power_calls (d.replies 0) + i)) ∧
      ∀ x ∈ e, x.1.kind ∈ [.power] := by
  obtain ⟨hconfig, hkinds⟩ := thunder_api.wake_up_acts d () e d' h
  refine ⟨hconfig, ?_, hkinds⟩
  obtain ⟨e', hrest, -⟩ := call_bind_eq_some h
  unfold power_calls
  split_ifs at hrest ⊢
  · obtain ⟨-, -, rfl⟩ := return_eq_some hrest
    exact fun i => congrArg d.replies (Nat.add_comm i 1)
  · obtain ⟨e'', hreturn, -⟩ := call_bind_eq_some hrest
    obtain ⟨-, -, rfl⟩ := return_eq_some hreturn
    exact fun i => congrArg d.replies (by omega)

/-- An application is configured before it is activated when it has an item. -/
theorem launch_item_isSome (app : appInfo) {handler : Bytes} (h : app.handler = some handler)
    (url : Bytes) : (thunder_api.launch_item app handler url).isSome ↔ has_item app := by
  unfold thunder_api.launch_item has_item
  rw [h]
  split_ifs <;> simp_all

/-- The plugins are asked to resume a hidden application, and to activate one that is stopped. -/
theorem thunder_bring_up_replies {callsign : Option Bytes} {url : Bytes} {status : DIALStatus}
    (happ : Current app d) (h : thunder_api.bring_up status callsign url d = some ((), e, d')) :
    replies_to .launch e = ((thunder_launch app status).map d.replies).toList := by
  unfold thunder_api.bring_up at h
  split_ifs at h with hhide hstopped
  · subst hhide
    obtain ⟨resumed, e₁, t, e₂, hresume, htest, rfl⟩ := bind_eq_some.mp h
    -- What follows the resumption is a command.
    have hcommand : replies_to .launch e₂ = [] := by
      obtain ⟨b, htest⟩ := handler_bind_eq_some htest
      split_ifs at htest
      · obtain ⟨name, -, hcall⟩ := deref_bind_eq_some htest
        obtain ⟨e', hreturn, rfl⟩ := call_bind_eq_some hcall
        obtain ⟨-, rfl, -⟩ := return_eq_some hreturn
        rfl
      · obtain ⟨-, rfl, -⟩ := return_eq_some htest
        rfl
    obtain ⟨name, -, hcall⟩ := deref_bind_eq_some hresume
    obtain ⟨e', hrest, rfl⟩ := call_bind_eq_some hcall
    rw [replies_to_append, hcommand]
    split_ifs at hrest
    · obtain ⟨e'', hfocus, rfl⟩ := call_bind_eq_some hrest
      obtain ⟨⟨⟩, e₃, t', e₄, hmodify, hreturn, rfl⟩ := bind_eq_some.mp hfocus
      obtain ⟨-, rfl, -⟩ := return_eq_some hreturn
      obtain ⟨rfl, -⟩ : [] = e₃ ∧ _ = t' := by simpa using hmodify
      rfl
    · obtain ⟨-, rfl, -⟩ := return_eq_some hrest
      rfl
  · subst hstopped
    obtain ⟨app', e₁, t, e₂, hcurrent, hrest, rfl⟩ := bind_eq_some.mp h
    obtain ⟨happ', rfl, rfl⟩ := get_current_eq_some.mp hcurrent
    obtain rfl : app' = app := happ'.unique happ
    obtain ⟨handler, hhandler, hderef⟩ := deref_bind_eq_some hrest
    obtain ⟨name, -, hcalls⟩ := deref_bind_eq_some hderef
    have hitem := launch_item_isSome app' hhandler url
    cases hlaunch : thunder_api.launch_item app' handler url with
    | none =>
      simp only [hlaunch] at hcalls hitem
      obtain ⟨e', hreturn, rfl⟩ := call_bind_eq_some hcalls
      obtain ⟨-, rfl, -⟩ := return_eq_some hreturn
      rw [thunder_launch, if_neg (by simpa using hitem)]
      rfl
    | some item =>
      simp only [hlaunch] at hcalls hitem
      obtain ⟨e', hactivate, rfl⟩ := call_bind_eq_some hcalls
      obtain ⟨e'', hreturn, rfl⟩ := call_bind_eq_some hactivate
      obtain ⟨-, rfl, -⟩ := return_eq_some hreturn
      rw [thunder_launch, if_pos (by simpa using hitem)]
      rfl
  · obtain ⟨-, rfl, -⟩ := return_eq_some h
    cases status <;> simp_all [thunder_launch]

/-- The status is one call. -/
theorem getAppStatus_eq_some {build : Build} {callsign : Option Bytes} {status : DIALStatus}
    (h : getAppStatus build callsign d = some (status, e, d')) :
    status = reply_status build (d.replies 0) ∧ d' = d.next ∧
      ∃ c : ManagerCall, c.kind = .query ∧ e = [(c, d.replies 0)] := by
  cases callsign with
  | none => simp [getAppStatus_none] at h
  | some callsign =>
    rw [getAppStatus_eq, Option.some.injEq, Prod.mk.injEq, Prod.mk.injEq] at h
    obtain ⟨rfl, rfl, rfl⟩ := h
    refine ⟨rfl, rfl, status_call build callsign, ?_, rfl⟩
    cases build <;> rfl

/-- A start asks for the status once, and its launch or resumption gets the reply that
`launch_reply` gives. -/
structure StartReplies (build : Build) (app : appInfo) (replies : ℕ → Reply)
    (made : List (ManagerCall × Reply)) : Prop where
  launch : replies_to .launch made = (launch_reply build app replies).toList
  query : (replies_to .query made).map (reply_status build) = [start_status build replies]

/-- The first part of an activation makes these calls. -/
theorem bring_up_app_replies {build : Build} {callsign : Option Bytes} {url : Bytes}
    (happ : Current app d) (h : bring_up_app build callsign url d = some ((), e, d')) :
    StartReplies build app d.replies e := by
  cases build with
  | appman =>
    obtain ⟨status, e₁, t, e₂, hstatus, hbring, rfl⟩ := bind_eq_some.mp h
    obtain ⟨rfl, rfl, c, hquery, rfl⟩ := @getAppStatus_eq_some _ _ _ .appman _ _ hstatus
    obtain ⟨-, hkinds⟩ := appman.bring_up_acts _ _ _ _ _ _ hbring
    have hnone : replies_to .query e₂ = [] := replies_to_eq_nil (by decide) hkinds
    have hvalues : appman_status (d.replies 0) = kDIALStatusRunning ∨
        appman_status (d.replies 0) = kDIALStatusHide ∨
        appman_status (d.replies 0) = kDIALStatusStopped ∨
        appman_status (d.replies 0) = kDIALStatusError := by
      unfold appman_status
      cases (d.replies 0).state <;> simp
    constructor
    · rw [replies_to_append, replies_to_cons, hquery, appman_bring_up_replies hvalues hbring,
        launch_reply]
      split_ifs <;> simp_all [reply_status]
    · rw [replies_to_append, replies_to_cons, hquery, if_pos rfl, hnone]
      rfl
  | thunder_api =>
    obtain ⟨⟨⟩, e₁, t, e₂, hpower, hrest, rfl⟩ := bind_eq_some.mp h
    obtain ⟨hconfig, hreplies, hpowered⟩ := wake_up_eq_some hpower
    obtain ⟨status, e₃, t', e₄, hstatus, hbring, rfl⟩ := bind_eq_some.mp hrest
    obtain ⟨rfl, rfl, c, hquery, rfl⟩ := @getAppStatus_eq_some _ _ _ .thunder_api _ _ hstatus
    obtain ⟨-, hkinds⟩ := thunder_api.bring_up_acts _ _ _ _ _ _ _ hbring
    have hnone : replies_to .query e₄ = [] := replies_to_eq_nil (by decide) hkinds
    have hlaunch : replies_to .launch e₁ = [] := replies_to_eq_nil (by decide) hpowered
    have hasked : replies_to .query e₁ = [] := replies_to_eq_nil (by decide) hpowered
    have happ' : Current app t.next := happ.of_config hconfig
    constructor
    · rw [replies_to_append, replies_to_append, hlaunch, replies_to_cons, hquery,
        thunder_bring_up_replies happ' hbring, if_neg (by decide), replies_to_nil,
        List.nil_append, List.nil_append, launch_reply, reply_status, hreplies 0, Nat.add_zero]
      congr 2
      funext i
      exact hreplies (i + 1)
    · rw [replies_to_append, replies_to_append, hasked, replies_to_cons, hquery, if_pos rfl, hnone,
        hreplies 0]
      rfl

/-- A start in the active mode returns that the application is running, whatever the replies are. -/
theorem start_current_replies {build : Build} {url : Bytes} {status : DIALStatus}
    (happ : Current app d) (hactive : d._passivemode = false)
    (h : start_current build url d = some (status, e, d')) :
    status = kDIALStatusRunning ∧ StartReplies build app d.replies e := by
  obtain ⟨app', e₁, t, e₂, hcurrent, hrest, rfl⟩ := bind_eq_some.mp h
  obtain ⟨-, rfl, rfl⟩ := get_current_eq_some.mp hcurrent
  obtain ⟨ret, e₃, t', e₄, hactivate, hreturn, rfl⟩ := bind_eq_some.mp hrest
  rw [activateApp_active _ _ _ hactive] at hactivate
  obtain ⟨⟨⟩, e₅, t₁, e₆, hbring, hbehind, rfl⟩ := bind_eq_some.mp hactivate
  obtain ⟨⟨⟩, e₇, t₂, e₈, hlink, hfocus, rfl⟩ := bind_eq_some.mp hbehind
  obtain rfl : ret = 0 := by
    obtain ⟨name, -, hcall⟩ := deref_bind_eq_some hfocus
    obtain ⟨e', hpure, -⟩ := call_bind_eq_some hcall
    exact (return_eq_some hpure).1
  -- The other parts neither launch nor ask for the status.
  have hother : ∀ kind ∈ [ManagerCallKind.launch, .query],
      replies_to kind e₇ = [] ∧ replies_to kind e₈ = [] := by
    obtain ⟨-, hlinks⟩ := link_app_acts build _ _ _ _ _ _ hlink
    obtain ⟨-, hfocuses⟩ := focus_app_acts build _ _ _ _ _ hfocus
    intro kind hkind
    rcases List.mem_pair.mp hkind with rfl | rfl
    · exact ⟨replies_to_eq_nil (by decide) hlinks, replies_to_eq_nil (by decide) hfocuses⟩
    · exact ⟨replies_to_eq_nil (by decide) hlinks, replies_to_eq_nil (by decide) hfocuses⟩
  obtain ⟨hlink₁, hfocus₁⟩ := hother .launch (by simp)
  obtain ⟨hlink₂, hfocus₂⟩ := hother .query (by simp)
  obtain ⟨hlaunch, hquery⟩ := bring_up_app_replies happ hbring
  obtain ⟨rfl, rfl, -⟩ := return_eq_some hreturn
  refine ⟨rfl, ?_, ?_⟩
  · simpa only [replies_to_append, hlink₁, hfocus₁, replies_to_nil, List.append_nil,
      List.nil_append] using hlaunch
  · simpa only [replies_to_append, hlink₂, hfocus₂, replies_to_nil, List.append_nil,
      List.nil_append] using hquery

end Start

/-! ## The callbacks of a name -/

/-- The entry on which the callbacks for a name act: the first of that name. -/
def entry_of (entries : List appInfo) (name : Bytes) : Option appInfo :=
  (first_entry entries name).bind fun pos => entries[pos]?

section Callbacks

variable {entries : List appInfo} {app : appInfo} {appname : Bytes} {d d' : Device}
  {status : DIALStatus} {e : List (ManagerCall × Reply)} {build : Build}

/-- The search for the name makes this entry the current one, and does nothing else. -/
theorem match_entry_of (hvalid : CacheValid entries d)
    (hentry : entry_of entries appname = some app)
    (h : matchAppInfo appname d = some ((), e, d')) :
    e = [] ∧ Current app d' ∧ d'.replies = d.replies ∧ d'._passivemode = d._passivemode := by
  obtain ⟨pos, hpos, hget⟩ := Option.bind_eq_some_iff.mp hentry
  obtain ⟨rfl, rfl⟩ := matchAppInfo_eq_some hvalid h
  rw [hpos]
  exact ⟨rfl, ⟨_, pos, hvalid.list, rfl, hget⟩, rfl, rfl⟩

/-- The end of every start callback. -/
theorem start_named_replies {url : Bytes} (hvalid : CacheValid entries d)
    (hentry : entry_of entries appname = some app) (hactive : d._passivemode = false)
    (h : (do matchAppInfo appname; start_current build url) d = some (status, e, d')) :
    status = kDIALStatusRunning ∧ StartReplies build app d.replies e := by
  obtain ⟨⟨⟩, e₁, t, e₂, hmatch, hstart, rfl⟩ := bind_eq_some.mp h
  obtain ⟨rfl, hcurrent, hreplies, hmode⟩ := match_entry_of hvalid hentry hmatch
  rw [List.nil_append, ← hreplies]
  exact start_current_replies hcurrent (hmode.trans hactive) hstart

/-- The start callback of YouTube. -/
theorem youtube_start_replies {payload additionalDataUrl : Bytes} (hvalid : CacheValid entries d)
    (hentry : entry_of entries appname = some app) (hactive : d._passivemode = false)
    (h : youtube_start build appname payload additionalDataUrl d = some (status, e, d')) :
    status = kDIALStatusRunning ∧ StartReplies build app d.replies e := by
  obtain ⟨⟨⟩, e₁, t, e₂, hmatch, hrest, rfl⟩ := bind_eq_some.mp h
  obtain ⟨app', e₃, t', e₄, hcurrent, hstart, rfl⟩ := bind_eq_some.mp hrest
  obtain ⟨-, rfl, rfl⟩ := get_current_eq_some.mp hcurrent
  exact start_named_replies hvalid hentry hactive
    (bind_eq_some.mpr ⟨(), e₁, t', e₄, hmatch, hstart, rfl⟩)

/-- The payload is added or, without memory, left out; no error is returned when there is room. -/
theorem add_payload_returns {sQueryParam payload : Bytes}
    (hroom : sQueryParam.length + 3 * payload.length < sQueryParam_size) (d : Device) :
    ∃ param supply, add_payload sQueryParam payload d =
        some (some param, [], { d with supply }) ∧
      param.length ≤ sQueryParam.length + 3 * payload.length := by
  have hlength := url_encoded_length payload
  unfold add_payload
  split_ifs with hpayload
  · have hencode : alloc_device (url_encode payload) d = some
        (if d.supply 0 then some (url_encoded payload) else none, [],
          { d with supply := d.supply.after 1 }) := by
      refine within_eq_some.mpr ⟨[], d.supply.after 1, ?_, rfl, rfl⟩
      unfold url_encode
      rw [bind_of_some (show request d.supply = some (d.supply 0, [], d.supply.after 1) from rfl)]
      cases d.supply 0 <;> rfl
    rw [bind_of_some hencode]
    cases d.supply 0 with
    | true =>
      have hfits : sQueryParam.length + (url_encoded payload).length < sQueryParam_size := by omega
      simp only [if_true, if_pos hfits, strcat_fits hfits]
      refine ⟨_, _, rfl, ?_⟩
      rw [List.length_append]
      omega
    | false => exact ⟨sQueryParam, _, rfl, by omega⟩
  · exact ⟨sQueryParam, d.supply, rfl, by omega⟩

/-- The start callback of Netflix, with a payload that a start admits. -/
theorem netflix_start_replies {payload additionalDataUrl : Bytes}
    (hpayload : payload.length ≤ DIAL_MAX_PAYLOAD)
    (hadditional : additionalDataUrl.length ≤ DIAL_MAX_ADDITIONALURL - 1)
    (hvalid : CacheValid entries d) (hentry : entry_of entries appname = some app)
    (hactive : d._passivemode = false)
    (h : netflix_start build appname payload additionalDataUrl d = some (status, e, d')) :
    status = kDIALStatusRunning ∧ StartReplies build app d.replies e := by
  have hmax : DIAL_MAX_PAYLOAD = 4096 := rfl
  have hurl : DIAL_MAX_ADDITIONALURL = 1024 := rfl
  have hsize : sQueryParam_size = 13352 := rfl
  have hdefault : strcat sQueryParam_size (defaultLaunchParam.take (sQueryParam_size - 1))
      (bytes "&dial=") = return bytes "source_type=12&dial=" := by
    rfl
  have hprefix : (bytes "source_type=12&dial=").length = 20 := rfl
  -- Neither of the two error returns is taken.
  obtain ⟨param, supply, hadd, hlength⟩ := @add_payload_returns (bytes "source_type=12&dial=")
    payload (by omega) d
  unfold netflix_start at h
  rw [hdefault, ret_bind, bind_of_some hadd] at h
  simp only at h
  rw [bind_of_some (add_additional_eq (by omega) _)] at h
  exact @start_named_replies entries app appname { d with supply } d' status e build _
    (hvalid.of_config rfl) hentry hactive (by simpa using h)

/-- The status callback makes one call, and returns what its reply stands for. -/
theorem status_current_replies {pCanStop canStop : Option Bool}
    (hvalid : CacheValid entries d) (hentry : entry_of entries appname = some app)
    (h : status_current build appname pCanStop d = some ((status, canStop), e, d')) :
    status = reply_status build (d.replies 0) ∧ (∀ i, d'.replies i = d.replies (i + 1)) ∧
      ∃ c : ManagerCall, c.kind = .query ∧ e = [(c, d.replies 0)] := by
  obtain ⟨⟨⟩, e₁, t, e₂, hmatch, hrest, rfl⟩ := bind_eq_some.mp h
  obtain ⟨rfl, -, hreplies, -⟩ := match_entry_of hvalid hentry hmatch
  obtain ⟨app', e₃, t', e₄, hcurrent, hrest', rfl⟩ := bind_eq_some.mp hrest
  obtain ⟨-, rfl, rfl⟩ := get_current_eq_some.mp hcurrent
  obtain ⟨status', e₅, t'', e₆, hstatus, hreturn, rfl⟩ := bind_eq_some.mp hrest'
  obtain ⟨rfl, rfl, c, hquery, rfl⟩ := getAppStatus_eq_some hstatus
  obtain ⟨heq, rfl, rfl⟩ := return_eq_some hreturn
  rw [← hreplies]
  exact ⟨(Prod.mk.inj heq).1, fun _ => rfl, c, hquery, rfl⟩

/-- The hide callback in the active mode asks for the suspension; the application manager may refuse
it without being heard. -/
theorem hide_current_replies (hvalid : CacheValid entries d)
    (hentry : entry_of entries appname = some app) (hactive : d._passivemode = false)
    (h : hide_current build appname d = some (status, e, d')) :
    replies_to .suspend e = [d.replies 0] ∧
      (status = kDIALStatusHide ↔ build = .appman ∨ (d.replies 0).ok = true) := by
  obtain ⟨⟨⟩, e₁, t, e₂, hmatch, hrest, rfl⟩ := bind_eq_some.mp h
  obtain ⟨rfl, -, hreplies, hmode⟩ := match_entry_of hvalid hentry hmatch
  obtain ⟨app', e₃, t', e₄, hcurrent, hrest', rfl⟩ := bind_eq_some.mp hrest
  obtain ⟨-, rfl, rfl⟩ := get_current_eq_some.mp hcurrent
  obtain ⟨hidden, e₅, t'', e₆, hhide, hresult, rfl⟩ := bind_eq_some.mp hrest'
  have hstatus : e₆ = [] ∧ (status = kDIALStatusHide ↔ hidden = true) := by
    cases hidden with
    | true =>
      obtain ⟨rfl, rfl, -⟩ := return_eq_some hresult
      simp
    | false =>
      obtain ⟨rfl, rfl, -⟩ := return_eq_some hresult
      simp
  obtain ⟨rfl, hstatus⟩ := hstatus
  have hmode' : t'._passivemode = false := hmode.trans hactive
  rw [hstatus, ← hreplies]
  cases build with
  | appman =>
    change appman.hideApp app'.callsign t' = _ at hhide
    unfold appman.hideApp at hhide
    rw [read_bind_apply, hmode', if_neg (by simp)] at hhide
    obtain ⟨name, -, hcall⟩ := deref_bind_eq_some hhide
    obtain ⟨e', hreturn, rfl⟩ := call_bind_eq_some hcall
    obtain ⟨rfl, rfl, -⟩ := return_eq_some hreturn
    exact ⟨rfl, by simp⟩
  | thunder_api =>
    change thunder_api.hideApp app'.callsign t' = _ at hhide
    unfold thunder_api.hideApp at hhide
    rw [read_bind_apply, hmode', if_neg (by simp)] at hhide
    obtain ⟨name, -, hcall⟩ := deref_bind_eq_some hhide
    obtain ⟨e', hresult', rfl⟩ := call_bind_eq_some hcall
    split_ifs at hresult' with hok
    · obtain ⟨⟨⟩, e₇, t₁, e₈, hmodify, hreturn, rfl⟩ := bind_eq_some.mp hresult'
      obtain ⟨rfl, rfl, -⟩ := return_eq_some hreturn
      obtain ⟨rfl, -⟩ : [] = e₇ ∧ _ = t₁ := by simpa using hmodify
      exact ⟨rfl, by simp [hok]⟩
    · obtain ⟨rfl, rfl, -⟩ := return_eq_some hresult'
      exact ⟨rfl, by simp [hok]⟩

/-- The stop callback in the active mode asks for the end of the application. -/
theorem stop_current_replies (hvalid : CacheValid entries d)
    (hentry : entry_of entries appname = some app) (hactive : d._passivemode = false)
    (h : stop_current build appname d = some ((), e, d')) :
    replies_to .kill e = [d.replies 0] := by
  obtain ⟨⟨⟩, e₁, t, e₂, hmatch, hrest, rfl⟩ := bind_eq_some.mp h
  obtain ⟨rfl, -, hreplies, hmode⟩ := match_entry_of hvalid hentry hmatch
  obtain ⟨app', e₃, t', e₄, hcurrent, hrest', rfl⟩ := bind_eq_some.mp hrest
  obtain ⟨-, rfl, rfl⟩ := get_current_eq_some.mp hcurrent
  obtain ⟨ret, e₅, t'', e₆, hstop, hreturn, rfl⟩ := bind_eq_some.mp hrest'
  obtain ⟨-, rfl, -⟩ := return_eq_some hreturn
  have hmode' : t'._passivemode = false := hmode.trans hactive
  rw [← hreplies]
  have hforget {e' : List (ManagerCall × Reply)} {t₁ : Device}
      (h : (do modify fun d : Device => { d with _appHidden := false }; return (0 : ℤ)) t₁ =
        some (ret, e', t'')) : e' = [] := by
    obtain ⟨⟨⟩, e₇, t₂, e₈, hmodify, hreturn, rfl⟩ := bind_eq_some.mp h
    obtain ⟨-, rfl, -⟩ := return_eq_some hreturn
    obtain ⟨rfl, -⟩ : [] = e₇ ∧ _ = t₂ := by simpa using hmodify
    rfl
  cases build with
  | appman =>
    change appman.deActivateApp app'.callsign t' = _ at hstop
    unfold appman.deActivateApp at hstop
    rw [read_bind_apply, hmode', if_neg (by simp)] at hstop
    obtain ⟨name, -, hcall⟩ := deref_bind_eq_some hstop
    obtain ⟨e', hresult, rfl⟩ := call_bind_eq_some hcall
    rw [hforget hresult]
    rfl
  | thunder_api =>
    change thunder_api.deActivateApp app'.callsign t' = _ at hstop
    unfold thunder_api.deActivateApp at hstop
    rw [read_bind_apply, hmode', if_neg (by simp)] at hstop
    obtain ⟨name, -, hcall⟩ := deref_bind_eq_some hstop
    obtain ⟨e', hresult, rfl⟩ := call_bind_eq_some hcall
    rw [hforget hresult]
    rfl

end Callbacks

end DialServer
