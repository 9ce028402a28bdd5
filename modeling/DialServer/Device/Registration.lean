import DialServer.Device.Matching
import DialServer.Server.Registry

/-!
# Registration and callbacks

The applications that `runDial` registers, and the entries on which their callbacks act.
`RegisteredFrom` is the entry from which a name was registered: the loop of `runDial` passes over
entries with another handler, and registers no name twice. The callbacks know the name only. They
look for it among all entries, so that they act on the entry that was registered exactly when it is
the first of its name.
-/

namespace DialServer

open CLib Program DIALStatus

/-! ## The callbacks and the current entry -/

/-- The cache stays valid, and the mode stays what it is. -/
def keeps_cache (entries : List appInfo) : Guarantee Device (ManagerCall × Reply) where
  rel d _ d' := CacheValid entries d → CacheValid entries d' ∧ d'._passivemode = d._passivemode
  refl _ h := ⟨h, rfl⟩
  trans h₁ h₂ h := by
    obtain ⟨hvalid, hmode⟩ := h₁ h
    obtain ⟨hvalid', hmode'⟩ := h₂ hvalid
    exact ⟨hvalid', hmode'.trans hmode⟩

section Callbacks

variable {entries : List appInfo} {α : Type}

/-- What leaves the configuration alone keeps the cache valid. -/
theorem keeps_cache_of_acts {P : ManagerCall → Prop} {p : Manager α} (h : Keeps (acts P) p) :
    Keeps (keeps_cache entries) p := by
  intro d a e d' hp hvalid
  obtain ⟨hconfig, -⟩ := h d a e d' hp
  exact ⟨hvalid.of_config hconfig, congrArg (fun config => config.2.2) hconfig⟩

/-- So does a look at the current entry. -/
theorem keeps_cache_current : Keeps (keeps_cache entries) get_current :=
  keeps_cache_of_acts (P := fun _ => True) acts_get_current

/-- So does the search for a name. -/
theorem keeps_cache_match (appname : Bytes) :
    Keeps (keeps_cache entries) (matchAppInfo appname) := by
  intro d _ e d' hp hvalid
  refine ⟨hvalid.matched hp, ?_⟩
  obtain ⟨-, rfl⟩ := matchAppInfo_eq_some hvalid hp
  cases first_entry entries appname <;> rfl

/-- A start of the current application. -/
theorem keeps_cache_start_current (build : Build) (url : Bytes) :
    Keeps (keeps_cache entries) (start_current build url) := by
  refine keeps_bind keeps_cache_current fun app => ?_
  refine keeps_bind (keeps_cache_of_acts (activateApp_acts build app.callsign url)) fun ret => ?_
  exact keeps_ite (fun _ => keeps_pure _) fun _ => keeps_pure _

/-- The start callbacks. -/
theorem keeps_cache_start (build : Build) (appname payload additionalDataUrl : Bytes) :
    Keeps (keeps_cache entries) (youtube_start build appname payload additionalDataUrl) ∧
      Keeps (keeps_cache entries) (netflix_start build appname payload additionalDataUrl) ∧
      Keeps (keeps_cache entries) (amazon_start build appname) := by
  have hmatch := @keeps_cache_match entries appname
  have hstrcat (size : ℕ) (dest src : Bytes) : Keeps (keeps_cache entries) (strcat size dest src) :=
    keeps_ite (fun _ => keeps_pure _) fun _ => keeps_stop
  have hencode (str : Bytes) : Keeps (keeps_cache entries) (alloc_device (url_encode str)) :=
    keeps_within _ fun d supply hvalid => ⟨hvalid.of_config rfl, rfl⟩
  refine ⟨?_, ?_, ?_⟩
  · refine keeps_bind hmatch fun _ => keeps_bind keeps_cache_current fun app => ?_
    exact keeps_cache_start_current build _
  · refine keeps_bind (hstrcat _ _ _) fun sQueryParam => keeps_bind ?_ fun param => ?_
    · refine keeps_ite (fun _ => keeps_bind (hencode _) fun encoded => ?_) fun _ => keeps_pure _
      cases encoded with
      | none => exact keeps_pure _
      | some encoded =>
        exact keeps_ite (fun _ => keeps_bind (hstrcat _ _ _) fun _ => keeps_pure _) fun _ =>
          keeps_pure _
    cases param with
    | none => exact keeps_pure _
    | some param =>
      refine keeps_bind ?_ fun param => ?_
      · refine keeps_ite (fun _ => keeps_ite (fun _ => ?_) fun _ => keeps_pure _) fun _ =>
          keeps_pure _
        exact keeps_bind (hstrcat _ _ _) fun _ => keeps_bind (hstrcat _ _ _) fun _ => keeps_pure _
      cases param with
      | none => exact keeps_pure _
      | some param => exact keeps_bind hmatch fun _ => keeps_cache_start_current build _
  · exact keeps_bind hmatch fun _ => keeps_cache_start_current build _

/-- The other callbacks. -/
theorem keeps_cache_other (build : Build) (appname : Bytes) (pCanStop : Option Bool) :
    Keeps (keeps_cache entries) (hide_current build appname) ∧
      Keeps (keeps_cache entries) (stop_current build appname) ∧
      Keeps (keeps_cache entries) (status_current build appname pCanStop) := by
  have hcurrent {β : Type} {f : appInfo → Manager β}
      (hf : ∀ app, Keeps (keeps_cache entries) (f app)) :
      Keeps (keeps_cache entries) (do matchAppInfo appname; let app ← get_current; f app) :=
    keeps_bind (keeps_cache_match _) fun _ => keeps_bind keeps_cache_current hf
  refine ⟨hcurrent fun app => ?_, hcurrent fun app => ?_, hcurrent fun app => ?_⟩
  · refine keeps_bind (keeps_cache_of_acts (hideApp_acts build app.callsign)) fun hidden => ?_
    exact keeps_ite (fun _ => keeps_pure _) fun _ => keeps_pure _
  · exact keeps_bind (keeps_cache_of_acts (deActivateApp_acts build app.callsign)) fun _ =>
      keeps_pure _
  · exact keeps_bind (keeps_cache_of_acts (getAppStatus_acts build app.callsign)) fun _ =>
      keeps_pure _

end Callbacks

/-- A call of a callback, as it changes the world. -/
def Callback.run {W : Type} (callbacks : DIALAppCallbacks W) : Callback → W → W
  | .start app_name payload query_string additionalDataUrl run_id callback_data, world =>
    (callbacks.start_cb app_name payload query_string additionalDataUrl run_id callback_data
      world).2.2
  | .hide app_name run_id callback_data, world =>
    (callbacks.hide_cb app_name run_id callback_data world).2
  | .stop app_name run_id callback_data, world =>
    callbacks.stop_cb app_name run_id callback_data world
  | .status app_name run_id pCanStop callback_data, world =>
    (callbacks.status_cb app_name run_id pCanStop callback_data world).2.2

/-- The callbacks of a handler that `runDial` knows. -/
def KnownCallbacks (build : Build) (callbacks : DIALAppCallbacks World) : Prop :=
  ∃ handler list, app_handler build handler = some (callbacks, list)

/-- Known callbacks are those of one of the three handlers. -/
theorem KnownCallbacks.cases {build : Build} {callbacks : DIALAppCallbacks World}
    (h : KnownCallbacks build callbacks) :
    callbacks = cb_yt build ∨ callbacks = cb_nf build ∨ callbacks = cb_amazon build := by
  obtain ⟨handler, list, h⟩ := h
  unfold app_handler at h
  split_ifs at h <;> simp only [Option.some.injEq, Prod.mk.injEq] at h
  · exact .inl h.1.symm
  · exact .inr (.inl h.1.symm)
  · exact .inr (.inr h.1.symm)

/-- A callback in the world keeps the cache valid, also when it does not return. -/
theorem World.run_cacheValid {α : Type} {entries : List appInfo} {p : Manager α}
    (hp : Keeps (keeps_cache entries) p) (result : α) {w : World}
    (h : CacheValid entries w.device) : CacheValid entries (w.run p result).2.device ∧
      (w.run p result).2.device._passivemode = w.device._passivemode := by
  unfold World.run
  cases hrun : p w.device with
  | none => exact ⟨h, rfl⟩
  | some r => exact hp _ _ _ _ hrun h

/-- So does every call of known callbacks. -/
theorem Callback.run_cacheValid {entries : List appInfo} {build : Build}
    {callbacks : DIALAppCallbacks World} (hknown : KnownCallbacks build callbacks) (c : Callback)
    {w : World} (h : CacheValid entries w.device) :
    CacheValid entries (c.run callbacks w).device ∧
      (c.run callbacks w).device._passivemode = w.device._passivemode := by
  have hstart := @keeps_cache_start entries build
  have hother := @keeps_cache_other entries build
  rcases hknown.cases with rfl | rfl | rfl <;> cases c with
  | start app_name payload query_string additionalDataUrl run_id callback_data =>
    first
    | exact World.run_cacheValid (hstart app_name payload additionalDataUrl).1 _ h
    | exact World.run_cacheValid (hstart app_name payload additionalDataUrl).2.1 _ h
    | exact World.run_cacheValid (hstart app_name payload additionalDataUrl).2.2 _ h
  | hide app_name run_id callback_data =>
    exact World.run_cacheValid (hother app_name none).1 _ h
  | stop app_name run_id callback_data =>
    exact World.run_cacheValid (hother app_name none).2.1 _ h
  | status app_name run_id pCanStop callback_data =>
    exact World.run_cacheValid (hother app_name pCanStop).2.2 _ h

/-! ## The registration of an entry -/

/-- Every record is one that was there before, or has a property. -/
def grows_by {W : Type} (P : DIALApp W → Prop) : Guarantee (System W) Event where
  rel s _ t := ∀ app ∈ t.apps, app ∈ s.apps ∨ P app
  refl _ _ happ := .inl happ
  trans h₁ h₂ app happ := (h₂ app happ).elim (h₁ app) .inr

/-- A registration gives its record the callbacks that it is passed. -/
theorem keeps_grows_by_register {W : Type} (app_name : Bytes) (callbacks : DIALAppCallbacks W)
    (user_data : Pointer) (useAdditionalData : Bool) (corsAllowedOrigin : Option Bytes)
    (block : Block) :
    Keeps (grows_by fun app => app.callbacks = callbacks) (DIAL_register_app app_name callbacks
      user_data useAdditionalData corsAllowedOrigin block) := by
  have hmodify {f : System W → System W} (hf : ∀ s, (f s).apps = s.apps) :
      Keeps (grows_by fun app => app.callbacks = callbacks) (modify f) :=
    keeps_modify fun s app happ => .inl (hf s ▸ happ)
  have hemit (event : Event) :
      Keeps (grows_by fun app : DIALApp W => app.callbacks = callbacks) (emit event) :=
    keeps_emit fun s app happ => .inl happ
  have halloc {α : Type} (p : Alloc α) :
      Keeps (grows_by fun app : DIALApp W => app.callbacks = callbacks) (alloc p) :=
    keeps_within p fun s supply app happ => .inl happ
  have hunlock (r : ℤ) : Keeps (grows_by fun app : DIALApp W => app.callbacks = callbacks)
      (do ds_unlock; return r) :=
    keeps_bind (keeps_bind (hmodify fun _ => rfl) fun _ => hemit _) fun _ => keeps_pure _
  have hretrieve : Keeps (grows_by fun app : DIALApp W => app.callbacks = callbacks)
      (retrieve_dial_data app_name) := by
    intro s data e t h app happ
    obtain ⟨-, supply, rfl⟩ := keeps_spends_retrieve _ _ _ _ _ h
    exact .inl happ
  refine keeps_bind (keeps_bind (halloc _) fun granted => ?_) fun taken => ?_
  · refine keeps_ite (fun _ => keeps_bind (keeps_read _) fun _ => ?_) fun _ => keeps_pure _
    refine keeps_ite (fun _ => keeps_stop) fun _ => keeps_bind (hmodify fun _ => rfl) fun _ => ?_
    exact keeps_bind (hemit _) fun _ => keeps_pure _
  refine keeps_ite (fun _ => keeps_pure _) fun _ => keeps_bind (keeps_read _) ?_
  rintro ⟨ptr, found⟩
  cases found with
  | some app => exact hunlock 0
  | none =>
    refine keeps_bind (halloc _) fun _ => keeps_ite (fun _ => hunlock _) fun _ => ?_
    refine keeps_bind (halloc _) fun _ => keeps_ite (fun _ => hunlock _) fun _ => ?_
    refine keeps_bind hretrieve fun dial_data => ?_
    cases corsAllowedOrigin with
    | none => exact keeps_pure _
    | some list =>
      -- The record is made here, and linked in at the place that was found.
      simp only
      split_ifs with hlist
      · refine keeps_bind (keeps_modify fun s app happ => ?_) fun _ => hunlock 1
        rcases List.eq_or_mem_of_mem_insertIdx happ with rfl | happ
        · exact .inr rfl
        · exact .inl happ
      · exact keeps_pure _

/-- Loading dial data returns, with or without memory. -/
theorem total_retrieve_from (file : Bytes) : Total (retrieve_from file) := by
  have hloop (pairs result : List DIALData) : Total (retrieve_loop pairs result) := by
    induction pairs generalizing result with
    | nil => exact total_pure _
    | cons d pairs ih =>
      refine returns_bind total_request fun _ => returns_ite (fun _ => total_pure _) fun _ => ?_
      refine returns_bind total_request fun _ => returns_ite (fun _ => total_pure _) fun _ => ?_
      refine returns_bind total_request fun _ => returns_ite (fun _ => total_pure _) fun _ => ?_
      exact ih _
  refine returns_bind (hloop _ _) fun loaded => ?_
  cases loaded with
  | none => exact total_pure _
  | some result => exact total_pure _

/-- Loading dial data for an application returns. -/
theorem returns_retrieve_dial_data {W : Type} (app_name : Bytes) :
    Returns (fun _ => True) (fun _ _ => True)
      (retrieve_dial_data app_name : Server W (List DIALData)) := by
  have halloc {α : Type} {p : Alloc α} (hp : Total p) :
      Returns (fun _ => True) (fun _ _ => True) (alloc p : Server W α) := by
    intro t _
    obtain ⟨a, e, supply, h, -⟩ := hp t.supply trivial
    exact ⟨a, [], _, within_eq_some.mpr ⟨e, supply, h, rfl, rfl⟩, trivial⟩
  have hpath : Total (getAppPath app_name) :=
    returns_bind total_request fun _ => returns_ite (fun _ => total_pure _) fun _ => total_pure _
  refine returns_bind (halloc hpath) fun filename => ?_
  cases filename with
  | none => exact returns_pure fun _ h => h
  | some filename =>
    refine returns_bind (Q := fun _ _ => True) (returns_read fun _ h => h) fun file => ?_
    cases file with
    | none => exact returns_pure fun _ h => h
    | some file =>
      refine returns_bind (halloc total_request) fun _ => ?_
      exact returns_ite (fun _ => halloc (total_retrieve_from file)) fun _ =>
        returns_pure fun _ h => h

/-- A name is new, and the mutex and the memory for a record and for its name are granted. -/
def Registrable {W : Type} (app_name : Bytes) (s : System W) : Prop :=
  app_name ∉ s.apps.map DIALApp.name ∧ ∀ n < 3, s.supply n = true

/-- A registration that does not get the mutex. -/
theorem DIAL_register_app_refused {W : Type} {s : System W} (h : s.supply 0 = false)
    (app_name : Bytes) (callbacks : DIALAppCallbacks W) (user_data : Pointer)
    (useAdditionalData : Bool) (corsAllowedOrigin : Option Bytes) (block : Block) :
    DIAL_register_app app_name callbacks user_data useAdditionalData corsAllowedOrigin block s =
      some (-1, [], { s with supply := s.supply.after 1 }) := by
  have hlock : ds_lock s = some (false, [], { s with supply := s.supply.after 1 }) := by
    unfold ds_lock
    rw [bind_of_some (alloc_request_eq_some.mpr ⟨h.symm, rfl, rfl⟩)]
    rfl
  unfold DIAL_register_app
  rw [bind_of_some hlock]
  rfl

/-- A registration with an allow list that fits returns when the mutex is free, and it returns 1
when the name is registrable. -/
theorem DIAL_register_app_free {W : Type} {s : System W} (hfree : s.mux = false)
    (app_name : Bytes) (callbacks : DIALAppCallbacks W) (user_data : Pointer)
    (useAdditionalData : Bool) {list : Bytes} (hlist : list.length < 256) (block : Block) :
    ∃ a e t, DIAL_register_app app_name callbacks user_data useAdditionalData (some list) block s =
      some (a, e, t) ∧ (a = 1 ↔ Registrable app_name s) := by
  -- Each step on the way asks for one part of what makes the name registrable.
  have hno {n : ℕ} (hn : n < 3) (h : s.supply n = false) :
      (-1 : ℤ) = 1 ↔ Registrable app_name s :=
    iff_of_false (by decide) fun hs => by simpa [h] using hs.2 n hn
  have hunlock (a : ℤ) (t : System W) :
      (do ds_unlock; return a : Server W ℤ) t = some (a, [.unlock], { t with mux := false }) := rfl
  have hrequest (t : System W) (granted : Bool) (h : t.supply 0 = granted) :
      alloc request t = some (granted, [], { t with supply := t.supply.after 1 }) :=
    alloc_request_eq_some.mpr ⟨h.symm, rfl, rfl⟩
  cases h0 : s.supply 0 with
  | false => exact ⟨-1, _, _, DIAL_register_app_refused h0 _ _ _ _ _ _, hno (by omega) h0⟩
  | true =>
    unfold DIAL_register_app
    set held : System W := { s with supply := s.supply.after 1, mux := true }
    have hlock : ds_lock s = some (true, [.lock], held) := by
      unfold ds_lock
      rw [bind_of_some (hrequest s true h0)]
      simp only [if_true, read_bind_apply, hfree]
      rfl
    rw [bind_of_some hlock]
    simp only [Bool.not_true, Bool.false_eq_true, if_false]
    rw [bind_of_some (get_app_eq _ _)]
    cases hfound : s.apps[find_app s.apps app_name]? with
    | some app =>
      have hmem : app_name ∈ s.apps.map DIALApp.name :=
        List.mem_map.mpr ⟨app, List.mem_of_getElem? hfound, find_app_name hfound⟩
      simp only [held, hunlock]
      exact ⟨0, _, _, rfl, iff_of_false (by decide) fun hs => hs.1 hmem⟩
    | none =>
      simp only [held]
      cases h1 : s.supply 1 with
      | false =>
        rw [bind_of_some (hrequest _ false h1)]
        exact ⟨-1, _, _, rfl, hno (by omega) h1⟩
      | true =>
        rw [bind_of_some (hrequest _ true h1)]
        simp only [Bool.not_true, Bool.false_eq_true, if_false]
        cases h2 : s.supply 2 with
        | false =>
          rw [bind_of_some (hrequest _ false h2)]
          exact ⟨-1, _, _, rfl, hno (by omega) h2⟩
        | true =>
          rw [bind_of_some (hrequest _ true h2)]
          simp only [Bool.not_true, Bool.false_eq_true, if_false]
          obtain ⟨data, e, t, hload, -⟩ := returns_retrieve_dial_data app_name _ trivial
          rw [bind_of_some hload]
          simp only [dif_pos hlist]
          refine ⟨_, _, _, rfl, iff_of_true rfl ⟨find_app_eq_none.mp hfound, fun n hn => ?_⟩⟩
          interval_cases n <;> assumption

/-- The allow lists that `runDial` registers fit. -/
theorem app_handler_fits {build : Build} {handler list : Bytes}
    {callbacks : DIALAppCallbacks World} (h : app_handler build handler = some (callbacks, list)) :
    list.length < 256 := by
  unfold app_handler at h
  split_ifs at h <;> simp only [Option.some.injEq, Prod.mk.injEq] at h <;> rw [← h.2] <;> decide

/-- An entry with a handler that `runDial` knows. -/
def Known (build : Build) (temp : appInfo) : Prop :=
  ∃ handler, temp.handler = some handler ∧ app_handler build handler ≠ none

/-- An entry that is registered in this state: its handler is known, and its name registrable. -/
def Registers (build : Build) (temp : appInfo) (s : System World) : Prop :=
  Known build temp ∧ ∃ name, temp.name = some name ∧ Registrable name s

/-- The loop of `runDial` passes an entry that has a name and a handler. -/
theorem register_entry_free {build : Build} {temp : appInfo} {s : System World}
    (hfree : s.mux = false) (hhandler : temp.handler ≠ none) (hname : temp.name ≠ none)
    (block : Block) :
    ∃ result e t, register_entry build temp block s = some (result, e, t) ∧
      (result = some 1 ↔ Registers build temp s) := by
  obtain ⟨handler, hhandler⟩ := Option.ne_none_iff_exists'.mp hhandler
  obtain ⟨name, hname⟩ := Option.ne_none_iff_exists'.mp hname
  have hregisters : Registers build temp s ↔
      app_handler build handler ≠ none ∧ Registrable name s := by
    simp [Registers, Known, hhandler, hname]
  unfold register_entry
  simp only [hhandler, hname]
  cases hknown : app_handler build handler with
  | none => exact ⟨none, [], s, rfl, iff_of_false (by simp) fun h => (hregisters.mp h).1 hknown⟩
  | some registration =>
    obtain ⟨callbacks, list⟩ := registration
    obtain ⟨a, e, t, hregister, ha⟩ := DIAL_register_app_free hfree name callbacks 0 true
      (app_handler_fits hknown) block
    refine ⟨some a, e, t, ?_, ?_⟩
    · simp only
      rw [bind_of_some hregister]
      simp
    · rw [hregisters, Option.some.injEq, ha]
      simp [hknown]

/-- What the loop of `runDial` does at an entry, in terms of the list of applications: nothing, or
it adds a record for the name of the entry. -/
inductive EntryOutcome (build : Build) (temp : appInfo) (s t : System World) : Option ℤ → Prop
  | skipped {result} : t.apps = s.apps → result ≠ some 1 → EntryOutcome build temp s t result
  | added {name app} : temp.name = some name → name ∉ s.apps.map DIALApp.name →
      t.apps = s.apps ++ [app] → app.name = name → KnownCallbacks build app.callbacks →
      EntryOutcome build temp s t (some 1)

/-- The outcome at an entry. The world is left alone, and the mutex given back. -/
theorem register_entry_cases {build : Build} {temp : appInfo} {block : Block}
    {s t : System World} {result : Option ℤ} {e : List Event}
    (h : register_entry build temp block s = some (result, e, t)) :
    t.world = s.world ∧ (s.mux = false → t.mux = false) ∧ EntryOutcome build temp s t result := by
  unfold register_entry at h
  cases hhandler : temp.handler with
  | none => simp [hhandler] at h
  | some handler =>
    simp only [hhandler] at h
    cases hknown : app_handler build handler with
    | none =>
      simp only [hknown, pure_apply, Option.some.injEq, Prod.mk.injEq] at h
      obtain ⟨rfl, -, rfl⟩ := h
      exact ⟨rfl, id, .skipped rfl (by simp)⟩
    | some registration =>
      obtain ⟨callbacks, list⟩ := registration
      simp only [hknown] at h
      cases hname : temp.name with
      | none => simp [hname] at h
      | some name =>
        simp only [hname] at h
        obtain ⟨a, e₁, u, e₂, hregister, hreturn, -⟩ := bind_eq_some.mp h
        simp only [pure_apply, Option.some.injEq, Prod.mk.injEq] at hreturn
        obtain ⟨rfl, -, rfl⟩ := hreturn
        have hgrows := keeps_grows_by_register _ _ _ _ _ _ _ _ _ _ hregister
        cases DIAL_register_app_cases hregister with
        | refused => exact ⟨rfl, id, .skipped rfl (by simp)⟩
        | present => exact ⟨rfl, fun _ => rfl, .skipped rfl (by simp)⟩
        | no_memory => exact ⟨rfl, fun _ => rfl, .skipped rfl (by simp)⟩
        | leaked _ _ _ hlong =>
          have := app_handler_fits hknown
          have := hlong list rfl
          omega
        | @registered supply app _ habsent happ =>
          refine ⟨rfl, fun _ => rfl, .added hname habsent rfl happ ?_⟩
          -- The record is not one of those before, since its name is new.
          rcases hgrows app (by simp) with hmem | hcallbacks
          · exact absurd (List.mem_map.mpr ⟨app, hmem, happ⟩) habsent
          · exact ⟨handler, list, hcallbacks ▸ hknown⟩

/-! ## The loop of `runDial` -/

section Loop

variable {build : Build} {entries : List appInfo} {blocks : ℕ → Block} {s t : System World}

/-- The loop at the last of its entries. -/
theorem register_entries_concat (build : Build) (entries : List appInfo) (temp : appInfo)
    (blocks : ℕ → Block) :
    register_entries build none (entries ++ [temp]) blocks = (do
      register_entries build none entries blocks
      let _ ← register_entry build temp (blocks entries.length)
      return ()) := by
  induction entries generalizing blocks with
  | nil => simp only [List.nil_append, List.length_nil, register_entries, if_true, ret_bind]
  | cons first entries ih =>
    simp only [List.cons_append, register_entries, ih, bind_bind, List.length_cons]

/-- The loop returned from the entries before a position, in this state. -/
def ReachesEntry (build : Build) (blocks : ℕ → Block) (entries : List appInfo)
    (s : System World) (i : ℕ) (t : System World) : Prop :=
  ∃ e, register_entries build none (entries.take i) blocks s = some ((), e, t)

/-- A name was registered from the entry at a position: `DIAL_register_app` returned 1 there. -/
def RegisteredFrom (build : Build) (blocks : ℕ → Block) (entries : List appInfo)
    (s : System World) (i : ℕ) (name : Bytes) : Prop :=
  ∃ entry t e u, ReachesEntry build blocks entries s i t ∧ entries[i]? = some entry ∧
    entry.name = some name ∧ register_entry build entry (blocks i) t = some (some 1, e, u)

/-- A step of the loop. -/
theorem ReachesEntry.succ {i : ℕ} (hlt : i < entries.length)
    (h : ReachesEntry build blocks entries s (i + 1) t) :
    ∃ r result e, ReachesEntry build blocks entries s i r ∧
      register_entry build entries[i] (blocks i) r = some (result, e, t) := by
  obtain ⟨e, h⟩ := h
  rw [List.take_succ_eq_append_getElem hlt, register_entries_concat] at h
  obtain ⟨⟨⟩, e₁, r, e₂, hbefore, h, -⟩ := bind_eq_some.mp h
  obtain ⟨result, e₃, u, e₄, hentry, h, -⟩ := bind_eq_some.mp h
  simp only [pure_apply, Option.some.injEq, Prod.mk.injEq, true_and] at h
  obtain ⟨-, rfl⟩ := h
  rw [List.length_take_of_le hlt.le] at hentry
  exact ⟨r, result, e₃, ⟨e₁, hbefore⟩, hentry⟩

/-- The next step, when it returns. -/
theorem ReachesEntry.step {i : ℕ} (hlt : i < entries.length)
    (h : ReachesEntry build blocks entries s i t) {result : Option ℤ} {e : List Event}
    {u : System World}
    (hentry : register_entry build entries[i] (blocks i) t = some (result, e, u)) :
    ReachesEntry build blocks entries s (i + 1) u := by
  obtain ⟨e₁, h⟩ := h
  refine ⟨e₁ ++ (e ++ []), ?_⟩
  rw [List.take_succ_eq_append_getElem hlt, register_entries_concat, List.length_take_of_le hlt.le]
  refine bind_eq_some.mpr ⟨(), e₁, t, _, h, ?_, rfl⟩
  exact bind_eq_some.mpr ⟨result, e, u, [], hentry, rfl, rfl⟩

/-- The states on the way are determined. -/
theorem ReachesEntry.unique {i : ℕ} {t' : System World}
    (h : ReachesEntry build blocks entries s i t) (h' : ReachesEntry build blocks entries s i t') :
    t = t' := by
  obtain ⟨e, h⟩ := h
  obtain ⟨e', h'⟩ := h'
  rw [h] at h'
  simpa using (congrArg (Option.map fun r => r.2.2) h')

/-- The list of applications at a position of the loop: what has been registered from the entries
before. -/
structure RegisteredBefore (build : Build) (blocks : ℕ → Block) (entries : List appInfo)
    (s : System World) (i : ℕ) (t : System World) : Prop where
  world : t.world = s.world
  free : t.mux = false
  known : ∀ app ∈ t.apps, KnownCallbacks build app.callbacks
  origin : ∀ app ∈ t.apps, ∃ j < i, RegisteredFrom build blocks entries s j app.name
  present : ∀ j < i, ∀ name, RegisteredFrom build blocks entries s j name →
    name ∈ t.apps.map DIALApp.name

/-- The loop, from a server without applications, comes to every position with what has been
registered before. -/
theorem ReachesEntry.registered {i : ℕ} (hs : s.apps = []) (hfree : s.mux = false) 
    (hle : i ≤ entries.length) (h : ReachesEntry build blocks entries s i t) :
    RegisteredBefore build blocks entries s i t := by
  induction i generalizing t with
  | zero =>
    obtain ⟨e, h⟩ := h
    simp only [List.take_zero, register_entries, if_true, pure_apply, Option.some.injEq,
      Prod.mk.injEq, true_and] at h
    obtain ⟨-, rfl⟩ := h
    exact ⟨rfl, hfree, by simp [hs], by simp [hs], fun j hj => absurd hj (by omega)⟩
  | succ i ih =>
    obtain ⟨r, result, e, hbefore, hentry⟩ := h.succ hle
    obtain ⟨hworld, hmux, hknown, horigin, hpresent⟩ := ih (by omega) hbefore
    obtain ⟨hsame, hgiven, houtcome⟩ := register_entry_cases hentry
    -- A name that was registered from position `i` was registered by this step.
    have hthis {name : Bytes} (hfrom : RegisteredFrom build blocks entries s i name) :
        entries[i].name = some name ∧ result = some 1 := by
      obtain ⟨entry, r', e', u, hreach, hget, hname, hone⟩ := hfrom
      obtain rfl : entries[i] = entry := by simpa [List.getElem?_eq_getElem hle] using hget
      rw [← hbefore.unique hreach, hentry] at hone
      exact ⟨hname, (Prod.mk.inj (Option.some.inj hone)).1⟩
    cases houtcome with
    | skipped happs hresult =>
      refine ⟨hsame.trans hworld, hgiven hmux, happs ▸ hknown, fun app happ => ?_,
        fun j hj name hfrom => ?_⟩
      · obtain ⟨j, hj, hfrom⟩ := horigin app (happs ▸ happ)
        exact ⟨j, by omega, hfrom⟩
      · rcases Nat.lt_succ_iff_lt_or_eq.mp hj with hj | rfl
        · exact happs ▸ hpresent j hj name hfrom
        · exact absurd (hthis hfrom).2 hresult
    | @added name app hname habsent happs happ hcallbacks =>
      have hfrom : RegisteredFrom build blocks entries s i name :=
        ⟨entries[i], r, e, t, hbefore, List.getElem?_eq_getElem hle, hname, hentry⟩
      refine ⟨hsame.trans hworld, hgiven hmux, fun app' happ' => ?_, fun app' happ' => ?_,
        fun j hj name' hfrom' => ?_⟩
      · rcases List.mem_append.mp (happs ▸ happ') with hmem | hmem
        · exact hknown app' hmem
        · obtain rfl := List.mem_singleton.mp hmem
          exact hcallbacks
      · rcases List.mem_append.mp (happs ▸ happ') with hmem | hmem
        · obtain ⟨j, hj, hfrom'⟩ := horigin app' hmem
          exact ⟨j, by omega, hfrom'⟩
        · obtain rfl := List.mem_singleton.mp hmem
          exact ⟨i, by omega, happ ▸ hfrom⟩
      · rw [happs, List.map_append]
        rcases Nat.lt_succ_iff_lt_or_eq.mp hj with hj | rfl
        · exact List.mem_append_left _ (hpresent j hj name' hfrom')
        · obtain rfl : name = name' := Option.some.inj (hname.symm.trans (hthis hfrom').1)
          exact List.mem_append_right _ (List.mem_singleton.mpr happ.symm)

/-- A name that was registered from a position was new there. -/
theorem RegisteredFrom.absent {i : ℕ} {name : Bytes}
    (h : RegisteredFrom build blocks entries s i name) :
    ∃ r, ReachesEntry build blocks entries s i r ∧ name ∉ r.apps.map DIALApp.name := by
  obtain ⟨entry, r, e, u, hreach, -, hname, hone⟩ := h
  obtain ⟨-, -, houtcome⟩ := register_entry_cases hone
  cases houtcome with
  | skipped _ hresult => exact absurd rfl hresult
  | added hname' habsent =>
    obtain rfl := Option.some.inj (hname.symm.trans hname')
    exact ⟨r, hreach, habsent⟩

/-- The position of an entry that was registered is one of the list. -/
theorem RegisteredFrom.lt {i : ℕ} {name : Bytes}
    (h : RegisteredFrom build blocks entries s i name) : i < entries.length := by
  obtain ⟨entry, r, e, u, -, hget, -⟩ := h
  exact (List.getElem?_eq_some_iff.mp hget).1

/-- A name is registered from one entry. -/
theorem RegisteredFrom.unique {i j : ℕ} {name : Bytes} (hs : s.apps = []) (hfree : s.mux = false)
    (hi : RegisteredFrom build blocks entries s i name)
    (hj : RegisteredFrom build blocks entries s j name) : i = j := by
  -- At the later of two positions the name would not be new.
  have hnot_lt {i j : ℕ} (hi : RegisteredFrom build blocks entries s i name)
      (hj : RegisteredFrom build blocks entries s j name) : ¬i < j := by
    intro hlt
    obtain ⟨r, hreach, habsent⟩ := hj.absent
    exact habsent ((hreach.registered hs hfree hj.lt.le).present i hlt name hi)
  have h₁ := hnot_lt hi hj
  have h₂ := hnot_lt hj hi
  omega

/-- A name was registered from an entry exactly when it was registrable when the loop was there. -/
theorem registeredFrom_iff {i : ℕ} {name : Bytes} (hs : s.apps = []) (hfree : s.mux = false) :
    RegisteredFrom build blocks entries s i name ↔ ∃ entry t,
      ReachesEntry build blocks entries s i t ∧ entries[i]? = some entry ∧
        entry.name = some name ∧ Registers build entry t := by
  have hfree_at {entry : appInfo} {t : System World}
      (hreach : ReachesEntry build blocks entries s i t) (hget : entries[i]? = some entry) :
      t.mux = false :=
    (hreach.registered hs hfree (List.getElem?_eq_some_iff.mp hget).1.le).free
  constructor
  · rintro ⟨entry, t, e, u, hreach, hget, hname, hone⟩
    refine ⟨entry, t, hreach, hget, hname, ?_⟩
    have hhandler : entry.handler ≠ none := by
      intro hnone
      simp [register_entry, hnone] at hone
    obtain ⟨result, e', u', hrun, hregisters⟩ := @register_entry_free build entry t
      (hfree_at hreach hget) hhandler (by simp [hname]) (blocks i)
    rw [hone] at hrun
    exact hregisters.mp (Prod.mk.inj (Option.some.inj hrun)).1.symm
  · rintro ⟨entry, t, hreach, hget, hname, hregs⟩
    obtain ⟨handler, hhandler, -⟩ := hregs.1
    have hsome : entry.handler ≠ none := by simp [hhandler]
    obtain ⟨result, e, u, hrun, hregisters⟩ := @register_entry_free build entry t
      (hfree_at hreach hget) hsome (by simp [hname]) (blocks i)
    exact ⟨entry, t, e, u, hreach, hget, hname, hregisters.mpr hregs ▸ hrun⟩

/-- The loop has come to every position before one that it has come to. -/
theorem ReachesEntry.of_le {i j : ℕ} (hle : j ≤ i) (hi : i ≤ entries.length)
    (h : ReachesEntry build blocks entries s i t) :
    ∃ r, ReachesEntry build blocks entries s j r := by
  induction i generalizing t with
  | zero =>
    obtain rfl : j = 0 := by omega
    exact ⟨t, h⟩
  | succ i ih =>
    by_cases heq : j = i + 1
    · exact ⟨t, heq ▸ h⟩
    · obtain ⟨r, -, -, hbefore, -⟩ := h.succ hi
      exact ih (by omega) (by omega) hbefore

/-- An entry leaves the server idle. -/
theorem register_entry_idle {temp : appInfo} {block : Block} {result : Option ℤ} {e : List Event}
    (hidle : Idle s) (h : register_entry build temp block s = some (result, e, t)) : Idle t := by
  unfold register_entry at h
  cases hhandler : temp.handler with
  | none => simp [hhandler] at h
  | some handler =>
    simp only [hhandler] at h
    cases hknown : app_handler build handler with
    | none =>
      simp only [hknown, pure_apply, Option.some.injEq, Prod.mk.injEq] at h
      exact h.2.2 ▸ hidle
    | some registration =>
      obtain ⟨callbacks, list⟩ := registration
      simp only [hknown] at h
      cases hname : temp.name with
      | none => simp [hname] at h
      | some name =>
        simp only [hname] at h
        by_cases hmem : name ∈ s.apps.map DIALApp.name
        · rw [bind_of_some (register_present hidle hmem _ _ _ _ _)] at h
          simp only [pure_apply, Option.map_some, Option.some.injEq, Prod.mk.injEq] at h
          exact h.2.2 ▸ hidle
        · rw [bind_of_some (register_granted hidle.supplied hidle.free hmem callbacks 0 true
            ⟨list, app_handler_fits hknown⟩ block)] at h
          simp only [pure_apply, Option.map_some, Option.some.injEq, Prod.mk.injEq] at h
          exact h.2.2 ▸ ⟨hidle.supplied, hidle.free⟩

/-- The loop keeps the server idle. -/
theorem ReachesEntry.idle {i : ℕ} (hidle : Idle s) (hle : i ≤ entries.length)
    (h : ReachesEntry build blocks entries s i t) : Idle t := by
  induction i generalizing t with
  | zero =>
    obtain ⟨e, h⟩ := h
    simp only [List.take_zero, register_entries, if_true, pure_apply, Option.some.injEq,
      Prod.mk.injEq, true_and] at h
    exact h.2 ▸ hidle
  | succ i ih =>
    obtain ⟨r, result, e, hbefore, hentry⟩ := h.succ hle
    exact register_entry_idle (ih (by omega) hbefore) hentry

/-! ## Entries that have others before them -/

/-- No entry that is registered has one of the same name before it. -/
def Unshadowed (build : Build) (blocks : ℕ → Block) (entries : List appInfo)
    (s : System World) : Prop :=
  ∀ i t entry, ReachesEntry build blocks entries s i t → entries[i]? = some entry →
    Registers build entry t →
    ∀ j < i, ∀ other, entries[j]? = some other → other.name ≠ entry.name

/-- The first entry of the name of an entry with a known handler has a known handler too. -/
def FirstKnown (build : Build) (entries : List appInfo) : Prop :=
  ∀ entry ∈ entries, Known build entry → ∀ name, entry.name = some name →
    ∀ i first, first_entry entries name = some i → entries[i]? = some first → Known build first

/-- With memory the first entry of a name that has a known handler is registered. -/
theorem registers_first {i : ℕ} {entry : appInfo} {name : Bytes} (hs : s.apps = [])
    (hidle : Idle s) (hreach : ReachesEntry build blocks entries s i t)
    (hget : entries[i]? = some entry) (hknown : Known build entry) (hname : entry.name = some name)
    (hfirst : ∀ j < i, ∀ other, entries[j]? = some other → other.name = some name →
      ¬Known build other) : Registers build entry t := by
  have hle : i ≤ entries.length := (List.getElem?_eq_some_iff.mp hget).1.le
  have hbefore := hreach.registered hs hidle.free hle
  refine ⟨hknown, name, hname, fun hmem => ?_, fun n _ => ?_⟩
  · -- A record of the name would come from an entry before this one.
    obtain ⟨app, happ, rfl⟩ := List.mem_map.mp hmem
    obtain ⟨j, hj, hfrom⟩ := hbefore.origin app happ
    obtain ⟨other, r, -, hother, hname', hregs⟩ := (registeredFrom_iff hs hidle.free).mp hfrom
    exact hfirst j hj other hother hname' hregs.1
  · rw [show t.supply = plenty from (hreach.idle hidle hle).supplied]
    rfl

/-- With memory this is decided by the entries alone. -/
theorem unshadowed_iff_firstKnown (hs : s.apps = []) (hidle : Idle s)
    (hreturn : ReachesEntry build blocks entries s entries.length t) :
    Unshadowed build blocks entries s ↔ FirstKnown build entries := by
  constructor
  · intro hunshadowed entry hentry hknown name hname i first hfirst hget
    by_contra hunknown
    -- The first entry of the name that has a known handler is registered, behind entry `i`.
    let P : ℕ → Prop := fun k => ∃ other, entries[k]? = some other ∧ other.name = some name ∧
      Known build other
    have hex : ∃ k, P k := by
      obtain ⟨k, hk⟩ := List.getElem?_of_mem hentry
      exact ⟨k, entry, hk, hname, hknown⟩
    classical
    obtain ⟨other, hother, hname', hknown'⟩ := Nat.find_spec hex
    have hlt := (List.getElem?_eq_some_iff.mp hother).1
    obtain ⟨r, hreach⟩ := hreturn.of_le hlt.le le_rfl
    have hregs := registers_first hs hidle hreach hother hknown' hname' fun j hj x hx hname hk =>
      Nat.find_min hex hj ⟨x, hx, hname, hk⟩
    obtain ⟨⟨first', hget', hname_first⟩, hbefore⟩ := first_entry_eq_some.mp hfirst
    obtain rfl : first' = first := Option.some.inj (hget'.symm.trans hget)
    rcases lt_trichotomy i (Nat.find hex) with hi | hi | hi
    · exact hunshadowed _ r other hreach hother hregs i hi first' hget
        (hname_first.trans hname'.symm)
    · rw [← hi, hget] at hother
      exact hunknown (Option.some.inj hother ▸ hknown')
    · exact hbefore _ hi other hother hname'
  · intro hfirst i r entry hreach hget hregs j hj other hother heq
    obtain ⟨hknown, name, hname, hnew, -⟩ := hregs
    have hlt := (List.getElem?_eq_some_iff.mp hget).1
    -- The first entry of the name is registered, and the name is not new at entry `i`.
    obtain ⟨k, hk⟩ : ∃ k, first_entry entries name = some k := by
      rw [← Option.isSome_iff_exists, first_entry, List.findIdx?_isSome, List.any_eq_true]
      exact ⟨entry, List.mem_of_getElem? hget, by simpa using hname⟩
    obtain ⟨⟨first, hget', hname'⟩, hbefore⟩ := first_entry_eq_some.mp hk
    have hkj : k ≤ j := by
      by_contra hjk
      exact hbefore j (by omega) other hother (heq.trans hname)
    obtain ⟨r', hreach'⟩ := hreturn.of_le (i := entries.length) (j := k) (by omega) le_rfl
    have hregs' := registers_first hs hidle hreach' hget'
      (hfirst entry (List.mem_of_getElem? hget) hknown name hname k first hk hget') hname'
      fun l hl x hx hname'' _ => hbefore l hl x hx hname''
    have hfrom := (registeredFrom_iff hs hidle.free).mpr ⟨first, r', hreach', hget', hname', hregs'⟩
    exact hnew ((hreach.registered hs hidle.free hlt.le).present k (by omega) name hfrom)

/-! ## Sequences of callbacks -/

/-- Callbacks of the applications, one after another, in any order. A callback is passed the name
that its application was registered under. -/
inductive CallbackRun (apps : List (DIALApp World)) : World → World → Prop
  | refl (w) : CallbackRun apps w w
  | step {w w' app} {c : Callback} : CallbackRun apps w w' → app ∈ apps →
      c.app_name = app.name → CallbackRun apps w (c.run app.callbacks w')

/-- They keep the cache valid. -/
theorem CallbackRun.cacheValid {apps : List (DIALApp World)}
    (hknown : ∀ app ∈ apps, KnownCallbacks build app.callbacks) {w w' : World}
    (h : CallbackRun apps w w') (hw : CacheValid entries w.device) :
    CacheValid entries w'.device ∧ w'.device._passivemode = w.device._passivemode := by
  induction h with
  | refl => exact ⟨hw, rfl⟩
  | step _ happ _ ih =>
    obtain ⟨hvalid, hmode⟩ := Callback.run_cacheValid (hknown _ happ) _ ih.1
    exact ⟨hvalid, hmode.trans ih.2⟩

/-- In this world a callback for a name acts on the entry that the name was registered from:
`matchAppInfo` makes it the current one. -/
def ActsOnOrigin (build : Build) (blocks : ℕ → Block) (entries : List appInfo)
    (s : System World) (name : Bytes) (w : World) : Prop :=
  ∃ i entry d, RegisteredFrom build blocks entries s i name ∧ entries[i]? = some entry ∧
    matchAppInfo name w.device = some ((), [], d) ∧ d.curAppForDial = some i ∧ Current entry d

/-- That is so when the entry is the first of the name. -/
theorem actsOnOrigin_iff {name : Bytes} {w : World} (hnamed : AllNamed entries)
    (hvalid : CacheValid entries w.device) :
    ActsOnOrigin build blocks entries s name w ↔
      ∃ i, RegisteredFrom build blocks entries s i name ∧ first_entry entries name = some i := by
  constructor
  · rintro ⟨i, entry, d, hfrom, hget, hmatch, hcurrent, -⟩
    refine ⟨i, hfrom, ?_⟩
    obtain ⟨entry', -, -, -, -, hget', hname, -⟩ := hfrom
    obtain rfl : entry' = entry := Option.some.inj (hget'.symm.trans hget)
    rw [matchAppInfo_eq hvalid hnamed] at hmatch
    simp only [Option.some.injEq, Prod.mk.injEq, true_and] at hmatch
    cases hfirst : first_entry entries name with
    | some pos =>
      simp only [hfirst] at hmatch
      rw [← hmatch] at hcurrent
      exact hcurrent
    | none =>
      -- The entry would be the current one from before, which is the first of its own name.
      simp only [hfirst] at hmatch
      rw [← hmatch] at hcurrent
      obtain ⟨name', hfirst'⟩ := hvalid.first i hcurrent
      obtain ⟨⟨first, hget'', hname'⟩, -⟩ := first_entry_eq_some.mp hfirst'
      obtain rfl : first = entry' := Option.some.inj (hget''.symm.trans hget')
      obtain rfl : name = name' := Option.some.inj (hname.symm.trans hname')
      exact hfirst.symm.trans hfirst'
  · rintro ⟨i, hfrom, hfirst⟩
    obtain ⟨⟨entry, hget, -⟩, -⟩ := first_entry_eq_some.mp hfirst
    refine ⟨i, entry, { w.device with curAppForDial := some i }, hfrom, hget, ?_, rfl, ?_⟩
    · rw [matchAppInfo_eq hvalid hnamed, hfirst]
    · exact ⟨_, i, hvalid.list, rfl, hget⟩

/-- **Callbacks act on the entry that was registered**, in every sequence of callbacks, if and only
if no entry that is registered has one of the same name before it. With memory that is so if and
only if the first entry of each name that has a known handler has a known handler. -/
theorem callbacks_act_on_origin_iff (hnamed : AllNamed entries) (hs : s.apps = [])
    (hfree : s.mux = false) (hlist : s.world.device.appInfoList = some ⟨entries, none⟩)
    (hcurrent : s.world.device.curAppForDial = none) {e : List Event}
    (hrun : runDial build blocks s = some ((), e, t)) :
    ((∀ w, CallbackRun t.apps t.world w → ∀ app ∈ t.apps,
        ActsOnOrigin build blocks entries s app.name w) ↔ Unshadowed build blocks entries s) ∧
      (Supplied s → (Unshadowed build blocks entries s ↔ FirstKnown build entries)) := by
  have hreturn : ReachesEntry build blocks entries s entries.length t := by
    unfold runDial at hrun
    rw [read_bind_apply, hlist] at hrun
    exact ⟨e, (List.take_length (l := entries)).symm ▸ hrun⟩
  refine ⟨?_, fun hsupplied => unshadowed_iff_firstKnown hs ⟨hsupplied, hfree⟩ hreturn⟩
  have hafter := hreturn.registered hs hfree le_rfl
  have hvalid : CacheValid entries t.world.device := hafter.world ▸ CacheValid.start hlist hcurrent
  constructor
  · intro hacts i r entry hreach hget hregs j hj other hother hshadow
    obtain ⟨name, hname, -⟩ := hregs.2
    have hfrom := (registeredFrom_iff hs hfree).mpr ⟨entry, r, hreach, hget, hname, hregs⟩
    obtain ⟨app, happ, rfl⟩ := List.mem_map.mp (hafter.present i hfrom.lt name hfrom)
    obtain ⟨i', hfrom', hfirst⟩ :=
      (actsOnOrigin_iff hnamed hvalid).mp (hacts t.world (.refl _) app happ)
    obtain rfl := hfrom'.unique hs hfree hfrom
    exact (first_entry_eq_some.mp hfirst).2 j hj other hother (hshadow.trans hname)
  · intro hunshadowed w hw app happ
    obtain ⟨i, -, hfrom⟩ := hafter.origin app happ
    refine (actsOnOrigin_iff hnamed (hw.cacheValid hafter.known hvalid).1).mpr
      ⟨i, hfrom, ?_⟩
    obtain ⟨entry, r, hreach, hget, hname, hregs⟩ := (registeredFrom_iff hs hfree).mp hfrom
    refine first_entry_eq_some.mpr ⟨⟨entry, hget, hname⟩, fun j hj other hother => ?_⟩
    exact hname ▸ hunshadowed i r entry hreach hget hregs j hj other hother

end Loop

/-- A server without applications, with memory, on a device. -/
def device_server (device : Device) : System World :=
  DIAL_create (fun _ => none) plenty ⟨device, [], false⟩ ⟨56789, fun _ => false⟩

/-- Blocks from `malloc`. -/
def zero_blocks : ℕ → Block := fun _ => zero_block

/-- On the configured device every name has one entry, so that the callbacks act on it. -/
theorem configured_callbacks_act_on_origin : ∃ e t,
    runDial .thunder_api zero_blocks (device_server configured_device) = some ((), e, t) ∧
      t.apps.map DIALApp.name = [bytes "Netflix", bytes "YouTube"] ∧
      ∀ w, CallbackRun t.apps t.world w → ∀ app ∈ t.apps, ActsOnOrigin .thunder_api zero_blocks
        [netflix_info, youtube_info] (device_server configured_device) app.name w := by
  have hnamed : AllNamed [netflix_info, youtube_info] := by
    simp [AllNamed, netflix_info, youtube_info]
  have hknown : ∀ entry ∈ [netflix_info, youtube_info], Known .thunder_api entry := by
    intro entry hentry
    rcases List.mem_pair.mp hentry with rfl | rfl
    · exact ⟨bytes "Netflix", rfl, by decide⟩
    · exact ⟨bytes "YouTube", rfl, by decide⟩
  have hfirst : FirstKnown .thunder_api [netflix_info, youtube_info] :=
    fun _ _ _ _ _ i first _ hget => hknown first (List.mem_of_getElem? hget)
  refine ⟨_, _, rfl, rfl, ?_⟩
  obtain ⟨hiff, hmemory⟩ := @callbacks_act_on_origin_iff .thunder_api
    [netflix_info, youtube_info] zero_blocks (device_server configured_device) _ hnamed rfl rfl rfl
    rfl _ rfl
  exact hiff.mpr ((hmemory rfl).mpr hfirst)

/-- An entry of YouTube whose handler `runDial` does not know. -/
def unknown_info : appInfo :=
  ⟨some (bytes "YouTube"), some (bytes "Browser"), some (bytes "browser"), none, none⟩

/-- Behind an entry of the same name that is not registered, YouTube is registered, but its
callbacks act on that entry. -/
theorem shadowed_callback : ∃ e t,
    runDial .appman zero_blocks (device_server { configured_device with
      appInfoList := some ⟨[unknown_info, youtube_info], none⟩ }) = some ((), e, t) ∧
    t.apps.map DIALApp.name = [bytes "YouTube"] ∧
    RegisteredFrom .appman zero_blocks [unknown_info, youtube_info] (device_server
      { configured_device with appInfoList := some ⟨[unknown_info, youtube_info], none⟩ }) 1
      (bytes "YouTube") ∧
    matchAppInfo (bytes "YouTube") t.world.device =
      some ((), [], { t.world.device with curAppForDial := some 0 }) ∧
    ¬ActsOnOrigin .appman zero_blocks [unknown_info, youtube_info] (device_server
      { configured_device with appInfoList := some ⟨[unknown_info, youtube_info], none⟩ })
      (bytes "YouTube") t.world := by
  have hfrom : RegisteredFrom .appman zero_blocks [unknown_info, youtube_info] (device_server
      { configured_device with appInfoList := some ⟨[unknown_info, youtube_info], none⟩ }) 1
      (bytes "YouTube") :=
    ⟨youtube_info, _, _, _, ⟨_, rfl⟩, rfl, rfl, rfl⟩
  refine ⟨_, _, rfl, rfl, hfrom, rfl, ?_⟩
  rintro ⟨i, entry, d, hfrom', -, hmatch, hcurrent, -⟩
  obtain rfl := hfrom'.unique rfl rfl hfrom
  have hzero := congrArg (Option.map fun r => r.2.2.curAppForDial) hmatch
  simp only [Option.map_some, hcurrent] at hzero
  exact absurd hzero (by decide)

end DialServer