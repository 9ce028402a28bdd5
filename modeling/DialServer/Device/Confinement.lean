import DialServer.Device.Loading
import DialServer.Device.Replay
import DialServer.Incoming.Launch

/-!
# What clients can do to the device

Whatever arrives on whatever connections, the process does not end, and the manager of the device is
only ever asked about applications of the configuration that have a known handler. A connection
changes the world by callbacks alone (`Device/Replay.lean`), each under a name that is registered;
`Behaves` is that a callback returns, in either mode and with either backend, with calls about the
entry of its name.
-/

namespace DialServer

open CLib Program DIALStatus

/-! ## Programs on the device -/

/-- The application that a call is about, by its callsign. Power is about none. -/
def ManagerCall.callsign : ManagerCall → Option Bytes
  | .LaunchApp appname | .SetAppState appname _ | .GetAppState appname | .SetDeepLink appname _
  | .SetFocus appname | .KillApp appname => some appname
  | .broadcastEvent _ params => params.lookup "callsign"
  | .getPowerState | .setPowerState _ => none
  | .status callsign | .configitem callsign _ | .activate callsign | .deactivate callsign
  | .systemcommand callsign _ | .deeplink callsign _ | .launch callsign | .suspend callsign
  | .setFocus callsign => some callsign

/-- A call about this application, or about none. -/
def About (callsign : Bytes) (c : ManagerCall) : Prop :=
  ∀ other, c.callsign = some other → other = callsign

/-- From every device of `I` the program returns, with calls about the application, and leaves a
device of `J`. -/
def Behaves {α : Type} (callsign : Bytes) (I J : Device → Prop) (p : Manager α) : Prop :=
  ∀ d, I d → ∃ a e d', p d = some (a, e, d') ∧ J d' ∧ ∀ x ∈ e, About callsign x.1

/-- The cache is valid, and the application is the current one. -/
structure On (entries : List appInfo) (app : appInfo) (d : Device) : Prop where
  valid : CacheValid entries d
  current : Current app d

section Rules

variable {α β : Type} {callsign : Bytes} {I J K : Device → Prop} {entries : List appInfo}
  {app : appInfo}

/-- It stays so as long as the configuration does. -/
theorem On.of_config {d d' : Device} (h : On entries app d) (hconfig : d'.config = d.config) :
    On entries app d' :=
  ⟨h.valid.of_config hconfig, h.current.of_config hconfig⟩

/-- A value. -/
theorem behaves_pure (a : α) : Behaves callsign I I (pure a) :=
  fun d hd => ⟨a, [], d, pure_apply a d, hd, by simp⟩

/-- One program after another. -/
theorem behaves_bind {p : Manager α} {f : α → Manager β} (hp : Behaves callsign I J p)
    (hf : ∀ a, Behaves callsign J K (f a)) : Behaves callsign I K (p >>= f) := by
  intro d hd
  obtain ⟨a, e₁, d₁, h₁, hd₁, habout₁⟩ := hp d hd
  obtain ⟨b, e₂, d₂, h₂, hd₂, habout₂⟩ := hf a d₁ hd₁
  refine ⟨b, e₁ ++ e₂, d₂, bind_eq_some.mpr ⟨a, e₁, d₁, e₂, h₁, h₂, rfl⟩, hd₂, fun x hx => ?_⟩
  exact (List.mem_append.mp hx).elim (habout₁ x) (habout₂ x)

/-- A branch. -/
theorem behaves_ite {c : Prop} [Decidable c] {p q : Manager α} (hp : c → Behaves callsign I J p)
    (hq : ¬c → Behaves callsign I J q) : Behaves callsign I J (if c then p else q) := by
  split_ifs with h
  · exact hp h
  · exact hq h

/-- A read. -/
theorem behaves_read (g : Device → α) : Behaves callsign I I (read g) :=
  fun d hd => ⟨g d, [], d, rfl, hd, by simp⟩

/-- A pointer that is not null is followed. -/
theorem behaves_deref {a : α} {f : α → Manager β} (hf : Behaves callsign I J (f a)) :
    Behaves callsign I J (deref (some a) >>= f) := by
  rw [deref_some, ret_bind]
  exact hf

/-- A call about the application. -/
theorem behaves_call {c : ManagerCall} (h : About callsign c) :
    Behaves callsign (On entries app) (On entries app) (call c) :=
  fun d hd => ⟨_, _, _, call_apply c d, hd.of_config rfl, by simpa using h⟩

/-- The program keeps track of what it has hidden. -/
theorem behaves_hidden (hidden : Bool) : Behaves callsign (On entries app) (On entries app)
    (modify fun d : Device => { d with _appHidden := hidden }) :=
  fun d hd => ⟨(), [], _, rfl, hd.of_config rfl, by simp⟩

/-- A look at the current entry. -/
theorem behaves_current {f : appInfo → Manager α}
    (hf : Behaves callsign (On entries app) J (f app)) :
    Behaves callsign (On entries app) J (get_current >>= f) := by
  intro d hd
  rw [bind_of_some (get_current_eq_some.mpr ⟨hd.current, rfl, rfl⟩)]
  obtain ⟨a, e, d', h, hrest⟩ := hf d hd
  exact ⟨a, e, d', by simp [h], hrest⟩

/-- A test of its handler. -/
theorem behaves_handler_is {handler : Bytes} (happ : app.handler = some handler) (name : String) :
    Behaves callsign (On entries app) (On entries app) (current_handler_is name) := by
  unfold current_handler_is
  refine behaves_current ?_
  rw [happ]
  exact behaves_deref (behaves_pure _)

end Rules

/-! ## The backends -/

section Backends

variable {entries : List appInfo} {app : appInfo} {callsign handler : Bytes}

/-- A call about the application, in whichever way it is about it. -/
theorem about_of_callsign {c : ManagerCall} (h : c.callsign = some callsign) : About callsign c :=
  fun _ hother => Option.some.inj (hother.symm.trans h)

/-- A call about none. -/
theorem about_of_none {c : ManagerCall} (h : c.callsign = none) : About callsign c :=
  fun _ hother => absurd (h.symm.trans hother) (by simp)

/-- A call with the callsign, and then a value. -/
theorem behaves_last_call {α : Type} {c : ManagerCall} (h : c.callsign = some callsign) (a : α) :
    Behaves callsign (On entries app) (On entries app) (do let _ ← call c; return a) :=
  behaves_bind (behaves_call (about_of_callsign h)) fun _ => behaves_pure a

/-- The status is asked for. -/
theorem behaves_getAppStatus (build : Build) :
    Behaves callsign (On entries app) (On entries app) (getAppStatus build (some callsign)) := by
  cases build with
  | appman =>
    refine behaves_deref (behaves_bind (behaves_call (about_of_callsign rfl)) fun reply => ?_)
    cases reply.state <;> exact behaves_pure _
  | thunder_api =>
    refine behaves_deref (behaves_bind (behaves_call (about_of_callsign rfl)) fun reply => ?_)
    refine behaves_ite (fun _ => ?_) fun _ => behaves_pure _
    cases reply.text with
    | none => exact behaves_pure _
    | some state =>
      exact behaves_ite (fun _ => behaves_pure _) fun _ => behaves_ite (fun _ => behaves_pure _)
        fun _ => behaves_ite (fun _ => behaves_pure _) fun _ => behaves_pure _

/-- The application is hidden. -/
theorem behaves_hideApp (build : Build) :
    Behaves callsign (On entries app) (On entries app) (hideApp build (some callsign)) := by
  have hkeep : Behaves callsign (On entries app) (On entries app)
      (do modify fun d : Device => { d with _appHidden := true }; return true) :=
    behaves_bind (behaves_hidden true) fun _ => behaves_pure _
  cases build with
  | appman =>
    refine behaves_bind (behaves_read _) fun _ => behaves_ite (fun _ => behaves_pure _) fun _ => ?_
    exact behaves_deref (behaves_last_call rfl true)
  | thunder_api =>
    refine behaves_bind (behaves_read _) fun _ => behaves_ite (fun _ => ?_) fun _ => ?_
    · exact behaves_deref (behaves_bind (behaves_call (about_of_callsign rfl)) fun _ => hkeep)
    · refine behaves_deref (behaves_bind (behaves_call (about_of_callsign rfl)) fun reply => ?_)
      exact behaves_ite (fun _ => hkeep) fun _ => behaves_pure _

/-- The application is ended. -/
theorem behaves_deActivateApp (build : Build) :
    Behaves callsign (On entries app) (On entries app) (deActivateApp build (some callsign)) := by
  have hforget : Behaves callsign (On entries app) (On entries app)
      (do modify fun d : Device => { d with _appHidden := false }; return (0 : ℤ)) :=
    behaves_bind (behaves_hidden false) fun _ => behaves_pure _
  have hcall {c : ManagerCall} (hc : c.callsign = some callsign) :
      Behaves callsign (On entries app) (On entries app) (do
        let _ ← call c
        modify fun d : Device => { d with _appHidden := false }
        return (0 : ℤ)) :=
    behaves_bind (behaves_call (about_of_callsign hc)) fun _ => hforget
  cases build with
  | appman =>
    refine behaves_bind (behaves_read _) fun _ => behaves_ite (fun _ => behaves_pure _) fun _ => ?_
    exact behaves_deref (hcall rfl)
  | thunder_api =>
    refine behaves_bind (behaves_read _) fun _ => behaves_ite (fun _ => ?_) fun _ => ?_
    · exact behaves_deref (hcall rfl)
    · exact behaves_deref (hcall rfl)

/-- The application is activated with `appman.cpp`. -/
theorem behaves_activateApp_appman (happ : app.handler = some handler) (url : Bytes) :
    Behaves callsign (On entries app) (On entries app)
      (appman.activateApp (some callsign) url) := by
  refine behaves_bind (behaves_read _) fun _ => behaves_ite (fun _ => behaves_pure _) fun _ => ?_
  refine behaves_bind (behaves_getAppStatus .appman) fun appStatus => ?_
  refine behaves_bind (J := On entries app) ?_ fun _ => behaves_bind (J := On entries app) ?_
    fun _ => behaves_deref (behaves_last_call rfl 0)
  · refine behaves_ite (fun _ => ?_) fun _ => behaves_ite (fun _ => ?_) fun _ => behaves_pure _
    · exact behaves_bind (behaves_deref (behaves_last_call rfl true)) fun _ =>
        behaves_bind (behaves_handler_is happ _) fun _ => behaves_pure _
    · exact behaves_deref (behaves_last_call rfl ())
  · refine behaves_bind (behaves_handler_is happ _) fun _ => ?_
    exact behaves_ite (fun _ => behaves_deref (behaves_last_call rfl ())) fun _ => behaves_pure _

/-- The application is activated with `thunder_api.cpp`. -/
theorem behaves_activateApp_thunder_api (happ : app.handler = some handler) (url : Bytes) :
    Behaves callsign (On entries app) (On entries app)
      (thunder_api.activateApp (some callsign) url) := by
  refine behaves_bind (behaves_read _) fun _ => behaves_ite (fun _ => ?_) fun _ => ?_
  · exact behaves_deref (behaves_last_call rfl 0)
  -- The power is about no application.
  refine behaves_bind (J := On entries app) ?_ fun _ =>
    behaves_bind (behaves_getAppStatus .thunder_api) fun appStatus =>
      behaves_bind (J := On entries app) ?_ fun _ => behaves_bind (J := On entries app) ?_
        fun _ => behaves_deref (behaves_last_call rfl 0)
  · refine behaves_bind (behaves_call (about_of_none rfl)) fun reply => ?_
    exact behaves_ite (fun _ => behaves_pure _) fun _ =>
      behaves_bind (behaves_call (about_of_none rfl)) fun _ => behaves_pure _
  · refine behaves_ite (fun _ => ?_) fun _ => behaves_ite (fun _ => ?_) fun _ => behaves_pure _
    · refine behaves_bind (J := On entries app) (behaves_deref ?_) fun _ => ?_
      · refine behaves_bind (behaves_call (about_of_callsign rfl)) fun reply => ?_
        refine behaves_ite (fun _ => ?_) fun _ => behaves_pure _
        exact behaves_bind (behaves_call (about_of_callsign rfl)) fun _ =>
          behaves_bind (behaves_hidden false) fun _ => behaves_pure _
      · refine behaves_bind (behaves_handler_is happ _) fun _ => ?_
        exact behaves_ite (fun _ => behaves_deref (behaves_last_call rfl ())) fun _ =>
          behaves_pure _
    · unfold thunder_api.activate_stopped
      refine behaves_current ?_
      rw [happ]
      refine behaves_deref (behaves_deref ?_)
      cases thunder_api.launch_item app handler url with
      | none => exact behaves_last_call rfl ()
      | some item =>
        exact behaves_bind (behaves_call (about_of_callsign rfl)) fun _ => behaves_last_call rfl ()
  · refine behaves_bind (behaves_handler_is happ _) fun _ => ?_
    exact behaves_ite (fun _ => behaves_deref (behaves_last_call rfl ())) fun _ => behaves_pure _

/-- The application is activated. -/
theorem behaves_activateApp (build : Build) (happ : app.handler = some handler) (url : Bytes) :
    Behaves callsign (On entries app) (On entries app) (activateApp build (some callsign) url) := by
  cases build with
  | appman => exact behaves_activateApp_appman happ url
  | thunder_api => exact behaves_activateApp_thunder_api happ url

end Backends

/-! ## The callbacks -/

section Named

variable {α : Type} {entries : List appInfo} {app : appInfo} {name callsign handler : Bytes}

/-- The search for a name makes its first entry the current one. -/
theorem behaves_match (hnamed : AllNamed entries) (hentry : entry_of entries name = some app) :
    Behaves callsign (CacheValid entries) (On entries app) (matchAppInfo name) := by
  intro d hd
  have hmatch := @matchAppInfo_eq entries name d hd hnamed
  obtain ⟨-, hcurrent, -, -⟩ := match_entry_of hd hentry hmatch
  exact ⟨(), [], _, hmatch, ⟨hd.matched hmatch, hcurrent⟩, by simp⟩

/-- What is done to the entry of a name. -/
theorem behaves_named (hnamed : AllNamed entries) (hentry : entry_of entries name = some app)
    {f : appInfo → Manager α} (hf : Behaves callsign (On entries app) (On entries app) (f app)) :
    Behaves callsign (CacheValid entries) (CacheValid entries)
      (do matchAppInfo name; let app ← get_current; f app) := by
  intro d hd
  obtain ⟨a, e, d', h, hon, habout⟩ :=
    behaves_bind (behaves_match hnamed hentry) (fun _ => behaves_current hf) d hd
  exact ⟨a, e, d', h, hon.valid, habout⟩

/-- What `netflix_start` does before it looks for its entry ends in a text, or in none, and touches
nothing but memory. What it puts behind the text has been found to fit. -/
theorem behaves_param (payload additionalDataUrl : Bytes) {f : Bytes → Manager DIALStatus}
    (hf : ∀ param, Behaves callsign (CacheValid entries) (CacheValid entries) (f param)) :
    Behaves callsign (CacheValid entries) (CacheValid entries) (do
      let sQueryParam ← strcat sQueryParam_size (defaultLaunchParam.take (sQueryParam_size - 1))
        (bytes "&dial=")
      match ← add_payload sQueryParam payload with
      | none => return kDIALStatusError
      | some sQueryParam =>
        match ← add_additional sQueryParam additionalDataUrl with
        | none => return kDIALStatusError
        | some sQueryParam => f sQueryParam) := by
  have hstart : strcat sQueryParam_size (defaultLaunchParam.take (sQueryParam_size - 1))
      (bytes "&dial=") = return bytes "source_type=12&dial=" := rfl
  have hencode (str : Bytes) : Behaves callsign (CacheValid entries) (CacheValid entries)
      (alloc_device (url_encode str)) := by
    have htotal : Total (url_encode str) :=
      returns_bind total_request fun _ => returns_ite (fun _ => total_pure _) fun _ => total_pure _
    intro d hd
    obtain ⟨encoded, e, supply, h, -⟩ := htotal d.supply trivial
    exact ⟨encoded, [], _, within_eq_some.mpr ⟨e, supply, h, rfl, rfl⟩, hd.of_config rfl, by simp⟩
  have hpayload (param : Bytes) : Behaves callsign (CacheValid entries) (CacheValid entries)
      (add_payload param payload) := by
    refine behaves_ite (fun _ => ?_) fun _ => behaves_pure _
    refine behaves_bind (hencode payload) fun encoded => ?_
    cases encoded with
    | none => exact behaves_pure _
    | some encoded =>
      refine behaves_ite (fun hfits => ?_) fun _ => behaves_pure _
      rw [strcat_fits hfits, ret_bind]
      exact behaves_pure _
  have hadditional (param : Bytes) : Behaves callsign (CacheValid entries) (CacheValid entries)
      (add_additional param additionalDataUrl) := by
    have hamp : (bytes "&").length = 1 := rfl
    refine behaves_ite (fun _ => behaves_ite (fun hfits => ?_) fun _ => behaves_pure _) fun _ =>
      behaves_pure _
    have hsecond : (param ++ bytes "&").length + additionalDataUrl.length < sQueryParam_size := by
      rw [List.length_append]
      omega
    rw [strcat_fits (by omega), ret_bind, strcat_fits hsecond, ret_bind]
    exact behaves_pure _
  rw [hstart, ret_bind]
  refine behaves_bind (hpayload _) fun param => ?_
  cases param with
  | none => exact behaves_pure _
  | some param =>
    refine behaves_bind (hadditional _) fun param => ?_
    cases param with
    | none => exact behaves_pure _
    | some param => exact hf param

section Callbacks

variable (build : Build) (hnamed : AllNamed entries) (hentry : entry_of entries name = some app)
  (hcallsign : app.callsign = some callsign)

include hnamed hentry hcallsign

/-- The start callbacks. -/
theorem behaves_start (happ : app.handler = some handler) (payload additionalDataUrl : Bytes) :
    Behaves callsign (CacheValid entries) (CacheValid entries)
        (youtube_start build name payload additionalDataUrl) ∧
      Behaves callsign (CacheValid entries) (CacheValid entries)
        (netflix_start build name payload additionalDataUrl) ∧
      Behaves callsign (CacheValid entries) (CacheValid entries) (amazon_start build name) := by
  have hactivate (url : Bytes) : Behaves callsign (On entries app) (On entries app) (do
      let ret ← activateApp build app.callsign url
      if ret = 0 then return kDIALStatusRunning else return kDIALStatusStopped) := by
    rw [hcallsign]
    refine behaves_bind (behaves_activateApp build happ url) fun ret => ?_
    exact behaves_ite (fun _ => behaves_pure _) fun _ => behaves_pure _
  have hstart (url : Bytes) : Behaves callsign (CacheValid entries) (CacheValid entries)
      (do matchAppInfo name; start_current build url) :=
    behaves_named hnamed hentry (hactivate url)
  refine ⟨?_, behaves_param payload additionalDataUrl fun param => hstart param, hstart []⟩
  exact behaves_named hnamed hentry (behaves_current (hactivate _))

/-- The other callbacks, in terms of which all handlers have theirs. -/
theorem behaves_other (pCanStop : Option Bool) :
    Behaves callsign (CacheValid entries) (CacheValid entries) (hide_current build name) ∧
      Behaves callsign (CacheValid entries) (CacheValid entries) (stop_current build name) ∧
      Behaves callsign (CacheValid entries) (CacheValid entries)
        (status_current build name pCanStop) := by
  refine ⟨behaves_named hnamed hentry ?_, behaves_named hnamed hentry ?_,
    behaves_named hnamed hentry ?_⟩
  · rw [hcallsign]
    refine behaves_bind (behaves_hideApp build) fun hidden => ?_
    exact behaves_ite (fun _ => behaves_pure _) fun _ => behaves_pure _
  · rw [hcallsign]
    exact behaves_bind (behaves_deActivateApp build) fun _ => behaves_pure _
  · rw [hcallsign]
    exact behaves_bind (behaves_getAppStatus build) fun status => behaves_pure _

end Callbacks

end Named

/-! ## The world -/

/-- The process is there, with a valid cache, and all calls of the manager have been about entries
with a known handler. -/
structure Confined (build : Build) (entries : List appInfo) (w : World) : Prop where
  alive : w.crashed = false
  valid : CacheValid entries w.device
  about : ∀ x ∈ w.made, ∀ callsign, x.1.callsign = some callsign →
    ∃ entry ∈ entries, Known build entry ∧ entry.callsign = some callsign

section World

variable {build : Build} {entries : List appInfo} {callsign name : Bytes} {app : appInfo}
  {w : World}

/-- A program that behaves keeps the world so. -/
theorem Confined.run {α : Type} {p : Manager α} (hw : Confined build entries w)
    (hentry : ∃ entry ∈ entries, Known build entry ∧ entry.callsign = some callsign)
    (hp : Behaves callsign (CacheValid entries) (CacheValid entries) p) (result : α) :
    Confined build entries (w.run p result).2 := by
  obtain ⟨a, e, d', hrun, hvalid, habout⟩ := hp w.device hw.valid
  simp only [World.run, hrun]
  refine ⟨hw.alive, hvalid, fun x hx other hother => ?_⟩
  rcases List.mem_append.mp hx with hx | hx
  · exact hw.about x hx other hother
  · rw [habout x hx other hother]
    exact hentry

/-- So does a callback of a known handler, under a name whose first entry is filled in and has a
known handler too. -/
theorem Confined.callback (hw : Confined build entries w) {callbacks : DIALAppCallbacks World}
    (hcallbacks : KnownCallbacks build callbacks) (hnamed : AllNamed entries) {c : Callback}
    (hentry : entry_of entries c.app_name = some app) (hmem : app ∈ entries)
    (hknown : Known build app) (hfilled : FilledIn build app) :
    Confined build entries (c.run callbacks w) := by
  obtain ⟨callsign, hcallsign⟩ := Option.ne_none_iff_exists'.mp (hfilled.callsign hknown)
  obtain ⟨handler, happ⟩ := Option.ne_none_iff_exists'.mp hfilled.handler
  refine hcallbacks.preserves fun hp result => hw.run ⟨app, hmem, hknown, hcallsign⟩ ?_ result
  have hstart := behaves_start build hnamed hentry hcallsign happ
  have hother := behaves_other build hnamed hentry hcallsign
  cases hp with
  | youtube_start payload additionalDataUrl => exact (hstart payload additionalDataUrl).1
  | netflix_start payload additionalDataUrl => exact (hstart payload additionalDataUrl).2.1
  | amazon_start => exact (hstart [] []).2.2
  | hide => exact (hother none).1
  | stop => exact (hother none).2.1
  | status pCanStop => exact (hother pCanStop).2.2

end World

/-! ## Connections -/

/-- A connection changes the world by own callbacks alone. -/
theorem keeps_replays_serve_connection {W : Type} {cs : List (Bytes × DIALAppCallbacks W)}
    (c : Incoming) : Keeps (replays cs)
      (serve_connection c.local_addr c.remote_addr c.pending : Server W Unit) := by
  rcases serve_connection_cases (W := W) c.local_addr c.remote_addr c.pending with
    hclosed | ⟨error, -, fmt, hrefused⟩ | ⟨conn, ri, -, -, hhanded⟩
  · rw [hclosed]
    exact keeps_pure ()
  · rw [hrefused]
    exact keeps_bind (outside_replays.keeps_reply _) fun _ => outside_replays.keeps_reply _
  · rw [hhanded]
    exact keeps_replays_handle_request conn ri

/-- So do any connections. -/
theorem keeps_replays_serve_all {W : Type} {cs : List (Bytes × DIALAppCallbacks W)}
    (connections : List Incoming) : Keeps (replays cs) (serve_all connections : Server W Unit) := by
  induction connections with
  | nil => exact keeps_pure ()
  | cons c rest ih => exact keeps_bind (keeps_replays_serve_connection c) fun _ => ih

section Configured

variable {build : Build} {blocks : ℕ → Block} {entries : List appInfo} {s t : System World}

/-- The records that `runDial` leaves: their callbacks are known ones, and the first entry of their
name is one with a known handler. -/
theorem first_entry_of_record (hs : s.apps = []) (hfree : s.mux = false)
    (hreturn : ReachesEntry build blocks entries s entries.length t)
    (hfirst : FirstKnown build entries) {app : DIALApp World} (happ : app ∈ t.apps) :
    KnownCallbacks build app.callbacks ∧
      ∃ entry ∈ entries, entry_of entries app.name = some entry ∧ Known build entry := by
  have hafter := hreturn.registered hs hfree le_rfl
  refine ⟨hafter.known app happ, ?_⟩
  obtain ⟨i, -, hfrom⟩ := hafter.origin app happ
  obtain ⟨entry, r, -, hget, hname, hknown, -⟩ := (registeredFrom_iff hs hfree).mp hfrom
  have hmem := List.mem_of_getElem? hget
  obtain ⟨first, hentry⟩ := entry_of_named hmem hname
  obtain ⟨pos, hpos, hget'⟩ := Option.bind_eq_some_iff.mp hentry
  exact ⟨first, List.mem_of_getElem? hget', hentry, hfirst entry hmem hknown _ hname pos first hpos
    hget'⟩

/-- A new server with memory has no records and is ready, in a world in which nothing has been
called yet. -/
theorem StartsOn.confined {d : Device} (hstarts : StartsOn d s) (hsupplied : Supplied s)
    (hlist : d.appInfoList = some ⟨entries, none⟩) (hcurrent : d.curAppForDial = none)
    (build : Build) : s.apps = [] ∧ Idle s ∧ Confined build entries s.world := by
  obtain ⟨files, supply, platform, rfl⟩ := hstarts
  exact ⟨rfl, ⟨hsupplied, rfl⟩, rfl, CacheValid.start hlist hcurrent, by simp [DIAL_create]⟩

/-- When `runDial` has returned, its loop has come to the end of the entries. -/
theorem reaches_of_runDial {d : Device} (hstarts : StartsOn d s)
    (hlist : d.appInfoList = some ⟨entries, none⟩) {e : List Event}
    (hrun : runDial build blocks s = some ((), e, t)) :
    ReachesEntry build blocks entries s entries.length t := by
  obtain ⟨files, supply, platform, rfl⟩ := hstarts
  refine ⟨e, ?_⟩
  unfold runDial at hrun
  rw [read_bind_apply] at hrun
  simp only [DIAL_create, hlist] at hrun
  exact (List.take_length (l := entries)).symm ▸ hrun

/-- On a new server, with entries that are filled in, the registrations return. -/
theorem runDial_reaches {d : Device} (hstarts : StartsOn d s)
    (hlist : d.appInfoList = some ⟨entries, none⟩)
    (hfilled : ∀ entry ∈ entries, FilledIn build entry) (blocks : ℕ → Block) :
    ∃ e t, runDial build blocks s = some ((), e, t) ∧
      ReachesEntry build blocks entries s entries.length t := by
  obtain ⟨e, t, hrun⟩ :=
    Sound.runDial_returns (sound_iff.mpr ⟨entries, hlist, hfilled⟩) blocks hstarts
  exact ⟨e, t, hrun, reaches_of_runDial hstarts hlist hrun⟩

/-- From then on the server serves any connections, in a world that stays confined. -/
theorem serve_all_confined (hs : s.apps = []) (hidle : Idle s)
    (hworld : Confined build entries s.world)
    (hreturn : ReachesEntry build blocks entries s entries.length t)
    (hfilled : ∀ entry ∈ entries, FilledIn build entry) (hfirst : FirstKnown build entries)
    (connections : List Incoming) :
    ∃ e u, serve_all connections t = some ((), e, u) ∧ Idle u ∧ setting u = setting t ∧
      Confined build entries u.world ∧
      u.world.device._passivemode = s.world.device._passivemode ∧
      (∀ c ∈ callbacks e, OwnCall (t.apps.map calling) c) ∧
      u.world = replay (t.apps.map calling) (callbacks e) t.world := by
  obtain ⟨e, u, hserve, hu, hsetting⟩ := serve_all_idle (hreturn.idle hidle le_rfl) connections
  obtain ⟨-, hown, hreplay⟩ := keeps_replays_serve_all connections t () e u hserve rfl
  -- Own callbacks keep the world confined, and the mode.
  let P (w : World) : Prop :=
    Confined build entries w ∧ w.device._passivemode = s.world.device._passivemode
  have hstart : P t.world := by
    rw [(hreturn.registered hs hidle.free le_rfl).world]
    exact ⟨hworld, rfl⟩
  have hcallback (c : Callback) (f : DIALAppCallbacks World)
      (hmem : (c.app_name, f) ∈ t.apps.map calling) (w : World) (hw : P w) : P (c.run f w) := by
    obtain ⟨app, happ, hcalling⟩ := List.mem_map.mp hmem
    obtain ⟨hname, rfl⟩ := Prod.mk.inj hcalling
    obtain ⟨hknown, entry, hentry, hof, hentry_known⟩ :=
      first_entry_of_record hs hidle.free hreturn hfirst happ
    refine ⟨hw.1.callback hknown (fun other hother => (hfilled other hother).name) (hname ▸ hof)
      hentry hentry_known (hfilled entry hentry), ?_⟩
    exact (Callback.run_cacheValid hknown c hw.1.valid).2.trans hw.2
  have hend : P u.world :=
    hreplay ▸ replay_preserves (fun c f hmem _ => hcallback c f hmem) hown hstart
  exact ⟨e, u, hserve, hu, hsetting, hend.1, hend.2, hown, hreplay⟩

/-- **Clients are confined.** On a device whose entries are filled in, each name having a known
handler first if it has one at all, the server comes up; and whatever then arrives on whatever
connections, all of them are served, the registrations stay, the process does not end, and every
call of the manager is about an entry with a known handler, or about none. The connections change
the world by calls of the callbacks of records under their names, with texts that fit, and by
nothing else. -/
theorem clients_confined {d : Device} (hstarts : StartsOn d s) (hsupplied : Supplied s)
    (hlist : d.appInfoList = some ⟨entries, none⟩) (hcurrent : d.curAppForDial = none)
    (hfilled : ∀ entry ∈ entries, FilledIn build entry) (hfirst : FirstKnown build entries)
    (connections : List Incoming) :
    ∃ e₀ t e u, runDial build blocks s = some ((), e₀, t) ∧
      serve_all connections t = some ((), e, u) ∧ Idle u ∧ setting u = setting t ∧
      Confined build entries u.world ∧
      (∀ c ∈ callbacks e, OwnCall (t.apps.map calling) c) ∧
      u.world = replay (t.apps.map calling) (callbacks e) t.world := by
  obtain ⟨e₀, t, hrun, hreturn⟩ := runDial_reaches hstarts hlist hfilled blocks
  obtain ⟨hnone, hidle, hworld⟩ := hstarts.confined hsupplied hlist hcurrent build
  obtain ⟨e, u, hserve, hu, hsetting, hconfined, -, hown, hreplay⟩ :=
    serve_all_confined hnone hidle hworld hreturn hfilled hfirst connections
  exact ⟨e₀, t, e, u, hrun, hserve, hu, hsetting, hconfined, hown, hreplay⟩

end Configured

/-- The entries of the configured device are filled in. -/
theorem configured_filled (build : Build) :
    ∀ entry ∈ [netflix_info, youtube_info], FilledIn build entry := by
  intro entry hentry
  rcases List.mem_pair.mp hentry with rfl | rfl
  · exact ⟨by simp [netflix_info], by simp [netflix_info], by simp [netflix_info],
      by simp [netflix_info, bytes]⟩
  · exact ⟨by simp [youtube_info], by simp [youtube_info], by simp [youtube_info],
      by simp [youtube_info]⟩

/-- Connections with nothing in them, and then a start of YouTube. -/
def some_connections : List Incoming :=
  nonsense ++ [⟨some ⟨10, 0, 0, 1⟩, ⟨10, 0, 0, 2⟩, [launch_message.print ++ bytes "v=1"]⟩]

/-- On the configured device, with the plugins. -/
theorem clients_confined_configured : ∃ e₀ t e u,
    runDial .thunder_api zero_blocks (device_server configured_device) = some ((), e₀, t) ∧
      serve_all some_connections t = some ((), e, u) ∧
      Confined .thunder_api [netflix_info, youtube_info] u.world := by
  have hfirst : FirstKnown .thunder_api [netflix_info, youtube_info] := by
    intro _ _ _ _ _ i first _ hget
    rcases List.mem_pair.mp (List.mem_of_getElem? hget) with rfl | rfl
    · exact ⟨bytes "Netflix", rfl, by decide⟩
    · exact ⟨bytes "YouTube", rfl, by decide⟩
  obtain ⟨e₀, t, e, u, hrun, hserve, -, -, hconfined, -⟩ := @clients_confined .thunder_api
    zero_blocks [netflix_info, youtube_info] (device_server configured_device) configured_device
    ⟨_, _, _, rfl⟩ rfl rfl rfl (configured_filled .thunder_api) hfirst some_connections
  exact ⟨e₀, t, e, u, hrun, hserve, hconfined⟩

end DialServer
