import DialServer.Source.Callbacks

/-!
# Calls of the manager

What the backends do in terms of calls: a call takes the next reply, `get_current` is the entry that
`curAppForDial` points to, and everything a backend does leaves the configuration and the current
entry alone. `acts` says so, together with a property of all calls that are made; the lemmas on the
functions of the backends ask for the property only for the calls that each of them makes.
-/

namespace DialServer

open CLib Program DIALStatus APPMGR_APPSTATE

/-- The device after a call. -/
def Device.next (d : Device) : Device := { d with replies := fun i => d.replies (i + 1) }

/-- What a backend leaves alone. -/
def Device.config (d : Device) : Option AppInfoList × Option ℕ × Bool :=
  (d.appInfoList, d.curAppForDial, d._passivemode)

@[simp] theorem next_replies (d : Device) (i : ℕ) : d.next.replies i = d.replies (i + 1) := rfl

@[simp] theorem next_config (d : Device) : d.next.config = d.config := rfl

/-- A call takes the next reply. -/
@[simp] theorem call_apply (c : ManagerCall) (d : Device) :
    call c d = some (d.replies 0, [(c, d.replies 0)], d.next) := rfl

/-- A pointer that is not null. -/
@[simp] theorem deref_some {α : Type} (a : α) : deref (some a) = return a := rfl

/-- A pointer that can be followed is not null. -/
theorem deref_eq_some {α : Type} {p : Option α} {a : α} {d d' : Device}
    {e : List (ManagerCall × Reply)} :
    deref p d = some (a, e, d') ↔ p = some a ∧ e = [] ∧ d' = d := by
  cases p with
  | none => simp [deref]
  | some b => simp [deref, eq_comm]

/-- `curAppForDial` points to an entry. -/
def Current (app : appInfo) (d : Device) : Prop :=
  ∃ list pos, d.appInfoList = some list ∧ d.curAppForDial = some pos ∧
    list.entries[pos]? = some app

/-- Which entry is current is part of the configuration. -/
theorem Current.of_config {app : appInfo} {d d' : Device} (h : Current app d)
    (hconfig : d'.config = d.config) : Current app d' := by
  obtain ⟨list, pos, hlist, hpos, happ⟩ := h
  obtain ⟨hlist', hpos', -⟩ : d'.appInfoList = d.appInfoList ∧
      d'.curAppForDial = d.curAppForDial ∧ d'._passivemode = d._passivemode := by
    simpa [Device.config] using hconfig
  exact ⟨list, pos, hlist'.trans hlist, hpos'.trans hpos, happ⟩

/-- There is one current entry. -/
theorem Current.unique {app app' : appInfo} {d : Device} (h : Current app d)
    (h' : Current app' d) : app = app' := by
  obtain ⟨list, pos, hlist, hpos, happ⟩ := h
  obtain ⟨list', pos', hlist', hpos', happ'⟩ := h'
  obtain rfl := Option.some.inj (hlist.symm.trans hlist')
  obtain rfl := Option.some.inj (hpos.symm.trans hpos')
  exact Option.some.inj (happ.symm.trans happ')

/-- The entry at a position. -/
theorem get_entry_eq_some {pos : ℕ} {app : appInfo} {d d' : Device}
    {e : List (ManagerCall × Reply)} :
    get_entry pos d = some (app, e, d') ↔
      (∃ list, d.appInfoList = some list ∧ list.entries[pos]? = some app) ∧ e = [] ∧ d' = d := by
  unfold get_entry get_list
  rw [bind_bind, read_bind_apply]
  cases hlist : d.appInfoList with
  | none => simp [deref, bind_apply]
  | some list =>
    rw [deref_some, ret_bind, deref_eq_some]
    simp

/-- The current entry. -/
theorem get_current_eq_some {app : appInfo} {d d' : Device} {e : List (ManagerCall × Reply)} :
    get_current d = some (app, e, d') ↔ Current app d ∧ e = [] ∧ d' = d := by
  unfold get_current Current
  rw [read_bind_apply]
  cases hpos : d.curAppForDial with
  | none => simp [deref, bind_apply]
  | some pos =>
    rw [deref_some, ret_bind, get_entry_eq_some]
    simp

/-- The test of the handler of the current entry. -/
theorem current_handler_is_eq_some {handler : String} {b : Bool} {d d' : Device}
    {e : List (ManagerCall × Reply)} :
    current_handler_is handler d = some (b, e, d') ↔
      (∃ app name, Current app d ∧ app.handler = some name ∧ b = decide (name = bytes handler)) ∧
        e = [] ∧ d' = d := by
  unfold current_handler_is
  constructor
  · intro h
    obtain ⟨app, e₁, t, e₂, happ, hrest, rfl⟩ := bind_eq_some.mp h
    obtain ⟨hcurrent, rfl, rfl⟩ := get_current_eq_some.mp happ
    obtain ⟨name, e₃, t', e₄, hname, htest, rfl⟩ := bind_eq_some.mp hrest
    obtain ⟨hhandler, rfl, rfl⟩ := deref_eq_some.mp hname
    simp only [pure_apply, Option.some.injEq, Prod.mk.injEq] at htest
    obtain ⟨rfl, rfl, rfl⟩ := htest
    exact ⟨⟨app, name, hcurrent, hhandler, rfl⟩, rfl, rfl⟩
  · rintro ⟨⟨app, name, hcurrent, hhandler, rfl⟩, rfl, rfl⟩
    rw [bind_of_some (get_current_eq_some.mpr ⟨hcurrent, rfl, rfl⟩), hhandler]
    rfl

/-! ## What the backends leave alone -/

/-- The configuration stays, and all calls have a property. -/
def acts (P : ManagerCall → Prop) : Guarantee Device (ManagerCall × Reply) :=
  Guarantee.both (Guarantee.unchanged Device.config) (Guarantee.emits fun made => P made.1)

section Acts

variable {P : ManagerCall → Prop} {α : Type}

/-- A call with the property. -/
theorem acts_call {c : ManagerCall} (h : P c) : Keeps (acts P) (call c) := by
  intro d reply e d' hcall
  obtain ⟨-, rfl, rfl⟩ : d.replies 0 = reply ∧ [(c, d.replies 0)] = e ∧ d.next = d' := by
    simpa using hcall
  exact ⟨rfl, by simpa using h⟩

/-- Following a pointer. -/
theorem acts_deref (p : Option α) : Keeps (acts P) (deref p) := by
  cases p with
  | none => exact keeps_stop
  | some a => exact keeps_pure a

/-- Looking at the current entry. -/
theorem acts_get_current : Keeps (acts P) get_current := by
  intro d app e d' h
  obtain ⟨-, rfl, rfl⟩ := get_current_eq_some.mp h
  exact (acts P).refl _

/-- Looking at its handler. -/
theorem acts_current_handler_is (handler : String) : Keeps (acts P) (current_handler_is handler) :=
  keeps_bind acts_get_current fun _ => keeps_bind (acts_deref _) fun _ => keeps_pure _

/-- The program keeps track of what it has hidden. -/
theorem acts_hidden (hidden : Bool) :
    Keeps (acts P) (modify fun d : Device => { d with _appHidden := hidden }) :=
  keeps_modify fun _ => ⟨rfl, by simp⟩

/-- A pointer is followed, and a call is made with what it points to. -/
theorem acts_call_with {p : Option Bytes} {c : Bytes → ManagerCall} {f : Manager α}
    (hcall : ∀ a, P (c a)) (hf : Keeps (acts P) f) :
    Keeps (acts P) (do let a ← deref p; let _ ← call (c a); f) :=
  keeps_bind (acts_deref p) fun a => keeps_bind (acts_call (hcall a)) fun _ => hf

/-- A weaker property of the calls. -/
theorem acts_mono {Q : ManagerCall → Prop} {p : Manager α} (h : Keeps (acts P) p)
    (hPQ : ∀ c, P c → Q c) :
    Keeps (acts Q) p := by
  intro d a e d' hp
  obtain ⟨hconfig, hcalls⟩ := h d a e d' hp
  exact ⟨hconfig, fun made hmade => hPQ _ (hcalls made hmade)⟩

end Acts

/-! ## Kinds of calls -/

/-- What a call asks the manager for. -/
inductive ManagerCallKind
  | query
  | power
  | item
  | launch
  | suspend
  | kill
  | link
  | command
  | focus
  | broadcast
  deriving DecidableEq, Repr

/-- The kind of a call. To be resumed counts as to be launched. -/
def ManagerCall.kind : ManagerCall → ManagerCallKind
  | .GetAppState _ | .status _ => .query
  | .getPowerState | .setPowerState _ => .power
  | .configitem .. => .item
  | .LaunchApp _ | .activate _ | .launch _ => .launch
  | .SetAppState _ state => if state = APPMGR_APPSTATE_RUNNING then .launch else .suspend
  | .suspend _ => .suspend
  | .KillApp _ | .deactivate _ => .kill
  | .SetDeepLink .. | .deeplink .. => .link
  | .systemcommand .. => .command
  | .SetFocus _ | .setFocus _ => .focus
  | .broadcastEvent .. => .broadcast

/-- Only calls of some kinds are made. -/
abbrev actsOnly (kinds : List ManagerCallKind) : Guarantee Device (ManagerCall × Reply) :=
  acts fun c => c.kind ∈ kinds

/-- The status of an application is asked for. -/
theorem getAppStatus_acts (build : Build) (callsign : Option Bytes) :
    Keeps (actsOnly [.query]) (getAppStatus build callsign) := by
  cases build with
  | appman =>
    refine keeps_bind (acts_deref _) fun appname => ?_
    refine keeps_bind (acts_call (List.mem_singleton.mpr rfl)) fun reply => ?_
    cases reply.state <;> exact keeps_pure _
  | thunder_api =>
    refine keeps_bind (acts_deref _) fun callsign => ?_
    refine keeps_bind (acts_call (List.mem_singleton.mpr rfl)) fun reply => ?_
    refine keeps_ite (fun _ => ?_) fun _ => keeps_pure _
    cases reply.text with
    | none => exact keeps_pure _
    | some state =>
      exact keeps_ite (fun _ => keeps_pure _) fun _ => keeps_ite (fun _ => keeps_pure _) fun _ =>
        keeps_ite (fun _ => keeps_pure _) fun _ => keeps_pure _

namespace appman

/-- The application is brought up. -/
theorem bring_up_acts (appStatus : DIALStatus) (callsign : Option Bytes) :
    Keeps (actsOnly [.launch]) (bring_up appStatus callsign) := by
  refine keeps_ite (fun _ => ?_) fun _ => keeps_ite (fun _ => ?_) fun _ => keeps_pure _
  · refine keeps_bind (keeps_bind (acts_deref _) fun _ => ?_) fun _ => ?_
    · exact keeps_bind (acts_call (List.mem_singleton.mpr rfl)) fun _ => keeps_pure _
    · exact keeps_bind (acts_current_handler_is _) fun _ => keeps_pure _
  · refine keeps_bind (acts_deref _) fun _ => ?_
    exact keeps_bind (acts_call (List.mem_singleton.mpr rfl)) fun _ => keeps_pure _

/-- YouTube gets its deep link. -/
theorem set_deep_link_acts (callsign : Option Bytes) (url : Bytes) :
    Keeps (actsOnly [.link]) (set_deep_link callsign url) := by
  refine keeps_bind (acts_current_handler_is _) fun _ => ?_
  refine keeps_ite (fun _ => keeps_bind (acts_deref _) fun _ => ?_) fun _ => keeps_pure _
  exact keeps_bind (acts_call (List.mem_singleton.mpr rfl)) fun _ => keeps_pure _

end appman

namespace thunder_api

/-- Power is asked for. -/
theorem wake_up_acts : Keeps (actsOnly [.power]) wake_up := by
  refine keeps_bind (acts_call (List.mem_singleton.mpr rfl)) fun reply => ?_
  refine keeps_ite (fun _ => keeps_pure _) fun _ => ?_
  exact keeps_bind (acts_call (List.mem_singleton.mpr rfl)) fun _ => keeps_pure _

/-- The application is resumed. -/
theorem resumeApp_acts (callsign : Option Bytes) :
    Keeps (actsOnly [.launch, .focus]) (resumeApp callsign) := by
  refine keeps_bind (acts_deref _) fun callsign => ?_
  refine keeps_bind (acts_call (by simp [ManagerCall.kind])) fun reply => ?_
  refine keeps_ite (fun _ => ?_) fun _ => keeps_pure _
  refine keeps_bind (acts_call (by simp [ManagerCall.kind])) fun _ => ?_
  exact keeps_bind (acts_hidden _) fun _ => keeps_pure _

/-- The application is brought up. -/
theorem bring_up_acts (appStatus : DIALStatus) (callsign : Option Bytes) (url : Bytes) :
    Keeps (actsOnly [.launch, .focus, .command, .item]) (bring_up appStatus callsign url) := by
  refine keeps_ite (fun _ => ?_) fun _ => keeps_ite (fun _ => ?_) fun _ => keeps_pure _
  · refine keeps_bind (acts_mono (resumeApp_acts callsign) (by simp; tauto)) fun _ => ?_
    refine keeps_bind (acts_current_handler_is _) fun _ => ?_
    refine keeps_ite (fun _ => keeps_bind (acts_deref _) fun _ => ?_) fun _ => keeps_pure _
    exact keeps_bind (acts_call (by simp [ManagerCall.kind])) fun _ => keeps_pure _
  · refine keeps_bind acts_get_current fun app => keeps_bind (acts_deref _) fun handler => ?_
    refine keeps_bind (acts_deref _) fun callsign => ?_
    have hactivate : Keeps (actsOnly [.launch, .focus, .command, .item])
        (do let _ ← call (.activate callsign)) :=
      keeps_bind (acts_call (by simp [ManagerCall.kind])) fun _ => keeps_pure _
    cases launch_item app handler url with
    | none => exact hactivate
    | some item => exact keeps_bind (acts_call (by simp [ManagerCall.kind])) fun _ => hactivate

/-- YouTube gets its deep link. -/
theorem deep_link_acts (callsign : Option Bytes) (url : Bytes) :
    Keeps (actsOnly [.link]) (deep_link callsign url) := by
  refine keeps_bind (acts_current_handler_is _) fun _ => ?_
  refine keeps_ite (fun _ => keeps_bind (acts_deref _) fun _ => ?_) fun _ => keeps_pure _
  exact keeps_bind (acts_call (List.mem_singleton.mpr rfl)) fun _ => keeps_pure _

end thunder_api

/-! ## The parts of an activation -/

/-- The part of `activateApp` in which the application is brought up. -/
def bring_up_app (build : Build) (callsign : Option Bytes) (url : Bytes) : Manager Unit :=
  match build with
  | .appman => do
    let appStatus ← appman.getAppStatus callsign
    appman.bring_up appStatus callsign
  | .thunder_api => do
    thunder_api.wake_up
    let appStatus ← thunder_api.getAppStatus callsign
    thunder_api.bring_up appStatus callsign url

/-- The part with the deep link. -/
def link_app : Build → Option Bytes → Bytes → Manager Unit
  | .appman => appman.set_deep_link
  | .thunder_api => thunder_api.deep_link

/-- The method that gives an application the focus. -/
def focus_call : Build → Bytes → ManagerCall
  | .appman => .SetFocus
  | .thunder_api => .setFocus

/-- The last part, in which the application gets the focus. -/
def focus_app (build : Build) (callsign : Option Bytes) : Manager ℤ := do
  let callsign ← deref callsign
  let _ ← call (focus_call build callsign)
  return 0

/-- In the active mode an activation has these parts. -/
theorem activateApp_active (build : Build) (callsign : Option Bytes) (url : Bytes) {d : Device}
    (hactive : d._passivemode = false) :
    activateApp build callsign url d = (do
      bring_up_app build callsign url
      link_app build callsign url
      focus_app build callsign) d := by
  cases build with
  | appman =>
    show appman.activateApp callsign url d = _
    unfold appman.activateApp bring_up_app
    rw [read_bind_apply, hactive]
    simp only [Bool.false_eq_true, if_false, bind_bind]
    rfl
  | thunder_api =>
    show thunder_api.activateApp callsign url d = _
    unfold thunder_api.activateApp bring_up_app
    rw [read_bind_apply, hactive]
    simp only [Bool.false_eq_true, if_false, bind_bind]
    rfl

/-- The calls of the first part. -/
theorem bring_up_app_acts (build : Build) (callsign : Option Bytes) (url : Bytes) :
    Keeps (actsOnly [.power, .query, .launch, .focus, .command, .item])
      (bring_up_app build callsign url) := by
  have hquery := getAppStatus_acts build callsign
  cases build with
  | appman =>
    refine keeps_bind (acts_mono hquery (by simp; tauto)) fun appStatus => ?_
    exact acts_mono (appman.bring_up_acts appStatus callsign) (by simp; tauto)
  | thunder_api =>
    refine keeps_bind (acts_mono thunder_api.wake_up_acts (by simp; tauto)) fun _ => ?_
    refine keeps_bind (acts_mono hquery (by simp; tauto)) fun appStatus => ?_
    exact acts_mono (thunder_api.bring_up_acts appStatus callsign url) (by simp; tauto)

/-- The calls of the second part. -/
theorem link_app_acts (build : Build) (callsign : Option Bytes) (url : Bytes) :
    Keeps (actsOnly [.link]) (link_app build callsign url) := by
  cases build with
  | appman => exact appman.set_deep_link_acts callsign url
  | thunder_api => exact thunder_api.deep_link_acts callsign url

/-- The calls of the last part. -/
theorem focus_app_acts (build : Build) (callsign : Option Bytes) :
    Keeps (actsOnly [.focus]) (focus_app build callsign) := by
  refine keeps_bind (acts_deref _) fun callsign => keeps_bind (acts_call ?_) fun _ => keeps_pure _
  cases build <;> exact List.mem_singleton.mpr rfl

/-- An activation leaves the configuration alone. -/
theorem activateApp_acts (build : Build) (callsign : Option Bytes) (url : Bytes) :
    Keeps (acts fun _ => True) (activateApp build callsign url) := by
  intro d ret e d' h
  cases hmode : d._passivemode with
  | false =>
    rw [activateApp_active build callsign url hmode] at h
    refine keeps_bind (acts_mono (bring_up_app_acts build callsign url) (by simp)) (fun _ => ?_)
      d ret e d' h
    exact keeps_bind (acts_mono (link_app_acts build callsign url) (by simp)) fun _ =>
      acts_mono (focus_app_acts build callsign) (by simp)
  | true =>
    cases build with
    | appman =>
      change appman.activateApp callsign url d = _ at h
      unfold appman.activateApp at h
      rw [read_bind_apply, hmode, if_pos rfl] at h
      exact keeps_pure _ d ret e d' h
    | thunder_api =>
      change thunder_api.activateApp callsign url d = _ at h
      unfold thunder_api.activateApp at h
      rw [read_bind_apply, hmode, if_pos rfl] at h
      exact acts_call_with (fun _ => trivial) (keeps_pure _) d ret e d' h

/-- So does the end of an application. -/
theorem deActivateApp_acts (build : Build) (callsign : Option Bytes) :
    Keeps (acts fun _ => True) (deActivateApp build callsign) := by
  have hforget : Keeps (acts fun _ => True)
      (do modify fun d : Device => { d with _appHidden := false }; return (0 : ℤ)) :=
    keeps_bind (acts_hidden false) fun _ => keeps_pure _
  cases build with
  | appman =>
    refine keeps_bind (keeps_read _) fun _ => keeps_ite (fun _ => keeps_pure _) fun _ => ?_
    exact acts_call_with (fun _ => trivial) hforget
  | thunder_api =>
    refine keeps_bind (keeps_read _) fun _ => keeps_ite (fun _ => ?_) fun _ => ?_
    · exact acts_call_with (fun _ => trivial) hforget
    · exact acts_call_with (fun _ => trivial) hforget

/-- So does hiding. -/
theorem hideApp_acts (build : Build) (callsign : Option Bytes) :
    Keeps (acts fun _ => True) (hideApp build callsign) := by
  have hkeep : Keeps (acts fun _ => True)
      (do modify fun d : Device => { d with _appHidden := true }; return true) :=
    keeps_bind (acts_hidden true) fun _ => keeps_pure _
  cases build with
  | appman =>
    refine keeps_bind (keeps_read _) fun _ => keeps_ite (fun _ => keeps_pure _) fun _ => ?_
    exact acts_call_with (fun _ => trivial) (keeps_pure _)
  | thunder_api =>
    refine keeps_bind (keeps_read _) fun _ => keeps_ite (fun _ => ?_) fun _ => ?_
    · exact acts_call_with (fun _ => trivial) hkeep
    · refine keeps_bind (acts_deref _) fun _ => keeps_bind (acts_call trivial) fun reply => ?_
      exact keeps_ite (fun _ => hkeep) fun _ => keeps_pure _

/-! ## An entry that is complete -/

/-- The current entry is an application with a callsign and a handler, in the active mode. -/
structure Ready (app : appInfo) (callsign handler : Bytes) (d : Device) : Prop where
  current : Current app d
  callsign_eq : app.callsign = some callsign
  handler_eq : app.handler = some handler
  active : d._passivemode = false

section Ready

variable {app : appInfo} {callsign handler : Bytes} {d d' : Device} {α β : Type}

/-- It stays what it is. -/
theorem Ready.of_config (h : Ready app callsign handler d) (hconfig : d'.config = d.config) :
    Ready app callsign handler d' where
  current := h.current.of_config hconfig
  callsign_eq := h.callsign_eq
  handler_eq := h.handler_eq
  active := (congrArg (fun config => config.2.2) hconfig).trans h.active

/-- The call returns, and the entry is still ready. -/
abbrev Proceeds (app : appInfo) (callsign handler : Bytes) (p : Manager α) : Prop :=
  Returns (Ready app callsign handler) (fun _ => Ready app callsign handler) p

/-- A call of the manager. -/
theorem proceeds_call (c : ManagerCall) : Proceeds app callsign handler (call c) :=
  fun d hd => ⟨_, _, _, call_apply c d, hd.of_config rfl⟩

/-- A value. -/
theorem proceeds_pure (a : α) : Proceeds app callsign handler (pure a : Manager α) :=
  returns_pure fun _ hd => hd

/-- One call after another. -/
theorem proceeds_bind {p : Manager α} {f : α → Manager β} (hp : Proceeds app callsign handler p)
    (hf : ∀ a, Proceeds app callsign handler (f a)) : Proceeds app callsign handler (p >>= f) :=
  returns_bind hp hf

/-- The test of the handler. -/
theorem Ready.handler_is (h : Ready app callsign handler d) (name : String) :
    current_handler_is name d = some (decide (handler = bytes name), [], d) :=
  current_handler_is_eq_some.mpr ⟨⟨app, handler, h.current, h.handler_eq, rfl⟩, rfl, rfl⟩

/-- The test of the handler returns. -/
theorem proceeds_handler_is (name : String) :
    Proceeds app callsign handler (current_handler_is name) :=
  fun _ hd => ⟨_, _, _, hd.handler_is name, hd⟩

/-- The status can be asked for. -/
theorem getAppStatus_proceeds (build : Build) :
    Proceeds app callsign handler (getAppStatus build (some callsign)) := by
  cases build with
  | appman =>
    refine proceeds_bind (proceeds_pure callsign) fun appname => ?_
    refine proceeds_bind (proceeds_call _) fun reply => ?_
    cases reply.state <;> exact proceeds_pure _
  | thunder_api =>
    refine proceeds_bind (proceeds_pure callsign) fun callsign => ?_
    refine proceeds_bind (proceeds_call _) fun reply => ?_
    refine returns_ite (fun _ => ?_) fun _ => proceeds_pure _
    cases reply.text with
    | none => exact proceeds_pure _
    | some state =>
      exact returns_ite (fun _ => proceeds_pure _) fun _ => returns_ite (fun _ => proceeds_pure _)
        fun _ => returns_ite (fun _ => proceeds_pure _) fun _ => proceeds_pure _

/-- The application can be brought up. -/
theorem bring_up_app_proceeds (build : Build) (url : Bytes) :
    Proceeds app callsign handler (bring_up_app build (some callsign) url) := by
  have hstatus : Proceeds app callsign handler (getAppStatus build (some callsign)) :=
    getAppStatus_proceeds build
  have hhidden (hidden : Bool) : Proceeds app callsign handler
      (modify fun d : Device => { d with _appHidden := hidden }) :=
    returns_modify fun _ hd => hd.of_config rfl
  cases build with
  | appman =>
    refine proceeds_bind hstatus fun appStatus => ?_
    refine returns_ite (fun _ => ?_) fun _ => returns_ite (fun _ => ?_) fun _ => proceeds_pure _
    · refine proceeds_bind (proceeds_bind (proceeds_pure callsign) fun _ => ?_) fun _ => ?_
      · exact proceeds_bind (proceeds_call _) fun _ => proceeds_pure _
      · exact proceeds_bind (proceeds_handler_is _) fun _ => proceeds_pure _
    · exact proceeds_bind (proceeds_pure callsign) fun _ => proceeds_bind (proceeds_call _) fun _ =>
        proceeds_pure _
  | thunder_api =>
    refine proceeds_bind (proceeds_bind (proceeds_call _) fun reply => ?_) fun _ => ?_
    · exact returns_ite (fun _ => proceeds_pure _) fun _ =>
        proceeds_bind (proceeds_call _) fun _ => proceeds_pure _
    refine proceeds_bind hstatus fun appStatus => ?_
    refine returns_ite (fun _ => ?_) fun _ => returns_ite (fun _ => ?_) fun _ => proceeds_pure _
    · refine proceeds_bind (proceeds_bind (proceeds_pure callsign) fun _ => ?_) fun _ => ?_
      · refine proceeds_bind (proceeds_call _) fun reply => ?_
        refine returns_ite (fun _ => ?_) fun _ => proceeds_pure _
        exact proceeds_bind (proceeds_call _) fun _ => proceeds_bind (hhidden _) fun _ =>
          proceeds_pure _
      · refine proceeds_bind (proceeds_handler_is _) fun _ => ?_
        refine returns_ite (fun _ => ?_) fun _ => proceeds_pure _
        exact proceeds_bind (proceeds_pure callsign) fun _ => proceeds_bind (proceeds_call _)
          fun _ => proceeds_pure _
    · -- The handler and the name that the branch looks at are those of the entry.
      refine returns_bind (Q := fun a d => a = app ∧ Ready app callsign handler d)
        (fun d hd => ⟨app, [], d, get_current_eq_some.mpr ⟨hd.current, rfl, rfl⟩, rfl, hd⟩) ?_
      rintro a d ⟨rfl, hd⟩
      have hactivate : Proceeds a callsign handler (do let _ ← call (.activate callsign)) :=
        proceeds_bind (proceeds_call _) fun _ => proceeds_pure _
      rw [hd.handler_eq, deref_some, ret_bind, deref_some, ret_bind]
      cases thunder_api.launch_item a handler url with
      | none => exact hactivate d hd
      | some item => exact proceeds_bind (proceeds_call _) (fun _ => hactivate) d hd

/-- The part with the deep link. For YouTube it makes one call, and for others none. -/
theorem Ready.link_app_eq (h : Ready app callsign handler d) (build : Build) (url : Bytes) :
    ∃ e d', link_app build (some callsign) url d = some ((), e, d') ∧ d'.config = d.config ∧
      e.map Prod.fst = if handler = bytes "YouTube" then
        [match build with
          | .appman => .SetDeepLink callsign (launch_url url)
          | .thunder_api => .deeplink callsign (launch_url url)]
      else [] := by
  have hyoutube := h.handler_is "YouTube"
  cases build with
  | appman =>
    show ∃ e d', appman.set_deep_link (some callsign) url d = some ((), e, d') ∧ _
    unfold appman.set_deep_link
    rw [bind_of_some hyoutube]
    by_cases hhandler : handler = bytes "YouTube"
    · simp only [hhandler, decide_true, if_true]
      exact ⟨_, _, rfl, rfl, rfl⟩
    · simp only [hhandler, decide_false, Bool.false_eq_true, if_false]
      exact ⟨_, _, rfl, rfl, rfl⟩
  | thunder_api =>
    show ∃ e d', thunder_api.deep_link (some callsign) url d = some ((), e, d') ∧ _
    unfold thunder_api.deep_link
    rw [bind_of_some hyoutube]
    by_cases hhandler : handler = bytes "YouTube"
    · simp only [hhandler, decide_true, if_true]
      exact ⟨_, _, rfl, rfl, rfl⟩
    · simp only [hhandler, decide_false, Bool.false_eq_true, if_false]
      exact ⟨_, _, rfl, rfl, rfl⟩

end Ready

/-! ## A configured device -/

/-- The entry of YouTube in the configuration. -/
def youtube_info : appInfo :=
  ⟨some (bytes "YouTube"), some (bytes "YouTube"), some (bytes "youtube"), some (bytes "true"),
    some (bytes "https://www.youtube.com/tv")⟩

/-- The entry of Netflix, which has no URL. -/
def netflix_info : appInfo :=
  ⟨some (bytes "Netflix"), some (bytes "Netflix"), some (bytes "netflix"), some (bytes "true"),
    none⟩

/-- A device with these entries, on which nothing runs and no call of the manager fails. -/
def configured_device : Device where
  appInfoList := some ⟨[netflix_info, youtube_info], none⟩
  curAppForDial := none
  _passivemode := false
  _appHidden := false
  supply := plenty
  replies _ := ⟨true, APPMGR_APPSTATE_STOPPED, some (bytes "deactivated")⟩

end DialServer
