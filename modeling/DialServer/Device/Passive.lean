import DialServer.Device.Confinement

/-!
# The passive mode

In the passive mode the server does nothing to the applications of the device: whatever arrives on
whatever connections, the manager is only asked for states, and told what was asked for. That needs
nothing of the configuration, since it holds of every callback, also of one in which the process
ends.
-/

namespace DialServer

open CLib Program DIALStatus

/-- In the passive mode, the calls of the manager ask for a state or broadcast a request, and the
mode stays. -/
def hands_off : Guarantee Device (ManagerCall × Reply) where
  rel d e d' := d._passivemode = true →
    d'._passivemode = true ∧ ∀ x ∈ e, x.1.kind ∈ [.query, .broadcast]
  refl _ h := ⟨h, by simp⟩
  trans h₁ h₂ h := by
    obtain ⟨hmode, hcalls⟩ := h₁ h
    obtain ⟨hmode', hcalls'⟩ := h₂ hmode
    exact ⟨hmode', fun x hx => (List.mem_append.mp hx).elim (hcalls x) (hcalls' x)⟩

section Steps

variable {α : Type} {appname : Bytes}

/-- What leaves the configuration alone, with calls of these kinds only. -/
theorem hands_off_of_acts {p : Manager α}
    (h : Keeps (acts fun c => c.kind ∈ [.query, .broadcast]) p) : Keeps hands_off p := by
  intro d a e d' hp hmode
  obtain ⟨hconfig, hcalls⟩ := h d a e d' hp
  exact ⟨(congrArg (fun config => config.2.2) hconfig).trans hmode, hcalls⟩

/-- A pointer is followed. -/
theorem hands_off_deref (p : Option α) : Keeps hands_off (deref p) :=
  hands_off_of_acts (acts_deref p)

/-- A look at the current entry. -/
theorem hands_off_current : Keeps hands_off get_current := hands_off_of_acts acts_get_current

/-- The search of the loop assigns to the current entry only. -/
theorem hands_off_match_loop (next : Option Pointer) (entries : List appInfo) (pos : ℕ) :
    Keeps hands_off (match_loop appname next entries pos) := by
  induction entries generalizing pos with
  | nil => exact keeps_ite (fun _ => keeps_pure _) fun _ => keeps_stop
  | cons temp entries ih =>
    refine keeps_bind (hands_off_deref _) fun name => keeps_ite (fun _ => ?_) fun _ => ih _
    exact keeps_modify fun _ hmode => ⟨hmode, by simp⟩

/-- So does the search for a name. -/
theorem hands_off_match (appname : Bytes) : Keeps hands_off (matchAppInfo appname) := by
  have hlist : Keeps hands_off get_list := keeps_bind (keeps_read _) fun _ => hands_off_deref _
  refine keeps_bind (keeps_bind (keeps_read _) fun pos => ?_) fun current => ?_
  · cases pos with
    | none => exact keeps_pure _
    | some pos =>
      refine keeps_bind (keeps_bind hlist fun _ => hands_off_deref _) fun temp => ?_
      exact keeps_bind (hands_off_deref _) fun _ => keeps_pure _
  · exact keeps_ite (fun _ => keeps_pure _) fun _ => keeps_bind hlist fun _ =>
      hands_off_match_loop _ _ _

/-- Of a branch on the mode only the arm of the passive mode counts. -/
theorem hands_off_passive {p q : Manager α} (hp : Keeps hands_off p) :
    Keeps hands_off (do if ← read Device._passivemode then p else q) := by
  intro d a e d' h hmode
  rw [read_bind_apply, if_pos hmode] at h
  exact hp d a e d' h hmode

/-- A broadcast about the application, and what comes after it. -/
theorem hands_off_broadcast {event : String} {params : Bytes → List (String × Bytes)}
    {p : Option Bytes} {f : Manager α}
    (hf : Keeps (acts fun c => c.kind ∈ [.query, .broadcast]) f) :
    Keeps hands_off
      (do let callsign ← deref p; let _ ← call (.broadcastEvent event (params callsign)); f) :=
  hands_off_of_acts (acts_call_with (fun _ => by simp [ManagerCall.kind]) hf)

/-- Activation, hiding and the end of an application. -/
theorem hands_off_activateApp (build : Build) (callsign : Option Bytes) (url : Bytes) :
    Keeps hands_off (activateApp build callsign url) ∧ Keeps hands_off (hideApp build callsign) ∧
      Keeps hands_off (deActivateApp build callsign) := by
  cases build with
  | appman =>
    exact ⟨hands_off_passive (keeps_pure _), hands_off_passive (keeps_pure _),
      hands_off_passive (keeps_pure _)⟩
  | thunder_api =>
    refine ⟨hands_off_passive (hands_off_broadcast (keeps_pure _)),
      hands_off_passive (hands_off_broadcast ?_), hands_off_passive (hands_off_broadcast ?_)⟩
    · exact keeps_bind (acts_hidden true) fun _ => keeps_pure _
    · exact keeps_bind (acts_hidden false) fun _ => keeps_pure _

/-- What the callbacks of all applications do to the current entry. -/
theorem hands_off_named {f : appInfo → Manager α} (hf : ∀ app, Keeps hands_off (f app)) :
    Keeps hands_off (do matchAppInfo appname; let app ← get_current; f app) :=
  keeps_bind (hands_off_match appname) fun _ => keeps_bind hands_off_current hf

/-- The start callbacks. -/
theorem hands_off_start (build : Build) (payload additionalDataUrl : Bytes) :
    Keeps hands_off (youtube_start build appname payload additionalDataUrl) ∧
      Keeps hands_off (netflix_start build appname payload additionalDataUrl) ∧
      Keeps hands_off (amazon_start build appname) := by
  have hcurrent (url : Bytes) : Keeps hands_off (start_current build url) := by
    refine keeps_bind hands_off_current fun app => ?_
    refine keeps_bind (hands_off_activateApp build app.callsign url).1 fun ret => ?_
    exact keeps_ite (fun _ => keeps_pure _) fun _ => keeps_pure _
  have hstart (url : Bytes) : Keeps hands_off (do matchAppInfo appname; start_current build url) :=
    keeps_bind (hands_off_match appname) fun _ => hcurrent url
  have hstrcat (dest src : Bytes) : Keeps hands_off (strcat sQueryParam_size dest src) :=
    keeps_ite (fun _ => keeps_pure _) fun _ => keeps_stop
  have hpayload (param : Bytes) : Keeps hands_off (add_payload param payload) := by
    refine keeps_ite (fun _ => keeps_bind (keeps_within _ ?_) fun encoded => ?_) fun _ =>
      keeps_pure _
    · exact fun _ _ hmode => ⟨hmode, by simp⟩
    · cases encoded with
      | none => exact keeps_pure _
      | some encoded =>
        exact keeps_ite (fun _ => keeps_bind (hstrcat _ _) fun _ => keeps_pure _) fun _ =>
          keeps_pure _
  have hadditional (param : Bytes) : Keeps hands_off (add_additional param additionalDataUrl) := by
    refine keeps_ite (fun _ => keeps_ite (fun _ => ?_) fun _ => keeps_pure _) fun _ => keeps_pure _
    exact keeps_bind (hstrcat _ _) fun _ => keeps_bind (hstrcat _ _) fun _ => keeps_pure _
  refine ⟨hands_off_named fun app => hcurrent _, ?_, hstart []⟩
  refine keeps_bind (hstrcat _ _) fun param => keeps_bind (hpayload _) fun param => ?_
  cases param with
  | none => exact keeps_pure _
  | some param =>
    refine keeps_bind (hadditional _) fun param => ?_
    cases param with
    | none => exact keeps_pure _
    | some param => exact hstart param

/-- The other callbacks. -/
theorem hands_off_other (build : Build) (pCanStop : Option Bool) :
    Keeps hands_off (hide_current build appname) ∧ Keeps hands_off (stop_current build appname) ∧
      Keeps hands_off (status_current build appname pCanStop) := by
  refine ⟨hands_off_named fun app => ?_, hands_off_named fun app => ?_,
    hands_off_named fun app => ?_⟩
  · refine keeps_bind (hands_off_activateApp build app.callsign []).2.1 fun hidden => ?_
    exact keeps_ite (fun _ => keeps_pure _) fun _ => keeps_pure _
  · exact keeps_bind (hands_off_activateApp build app.callsign []).2.2 fun _ => keeps_pure _
  · refine keeps_bind (hands_off_of_acts ?_) fun _ => keeps_pure _
    refine acts_mono (getAppStatus_acts build app.callsign) fun c hc => ?_
    rw [List.mem_singleton] at hc
    simp [hc]

end Steps

/-! ## The world -/

/-- The mode is the passive one, and the manager has only been asked for states and told of
requests. -/
structure Untouched (w : World) : Prop where
  passive : w.device._passivemode = true
  made : ∀ x ∈ w.made, x.1.kind ∈ [.query, .broadcast]

section World

variable {build : Build} {blocks : ℕ → Block} {entries : List appInfo} {w : World}

/-- A callback leaves the world so, whether or not it returns. -/
theorem Untouched.run {α : Type} {p : Manager α} (hw : Untouched w) (hp : Keeps hands_off p)
    (result : α) : Untouched (w.run p result).2 := by
  unfold World.run
  cases hrun : p w.device with
  | none => exact ⟨hw.passive, hw.made⟩
  | some r =>
    obtain ⟨hmode, hcalls⟩ := hp _ _ _ _ hrun hw.passive
    exact ⟨hmode, fun x hx => (List.mem_append.mp hx).elim (hw.made x) (hcalls x)⟩

/-- So does every callback of a known handler. -/
theorem Untouched.callback (hw : Untouched w) {callbacks : DIALAppCallbacks World}
    (hknown : KnownCallbacks build callbacks) (c : Callback) : Untouched (c.run callbacks w) := by
  refine hknown.preserves fun hp result => hw.run ?_ result
  have hstart := @hands_off_start c.app_name build
  have hother := @hands_off_other c.app_name build
  cases hp with
  | youtube_start payload additionalDataUrl => exact (hstart payload additionalDataUrl).1
  | netflix_start payload additionalDataUrl => exact (hstart payload additionalDataUrl).2.1
  | amazon_start => exact (hstart [] []).2.2
  | hide => exact (hother none).1
  | stop => exact (hother none).2.1
  | status pCanStop => exact (hother pCanStop).2.2

end World

end DialServer
