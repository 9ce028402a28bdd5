import DialServer.Server.Sections

/-!
# Runs of the server

The calls that use the mutex, and their runs, in which one call follows another. The first part is
the list of applications: `find_app` finds the first record of a name, and a registration adds a
record only under a new name, so that the names in every reachable state are distinct. The second
part is the mutex: `Returned` says that a call has given it back, and `Leaks` are the calls that do
not, which are the registrations with no allow list or one that is too long.
-/

namespace DialServer

open CLib Program

variable {W : Type}

/-! ## The list of applications -/

/-- The record that `find_app` finds has the name that it looks for. -/
theorem find_app_name {apps : List (DIALApp W)} {app_name : Bytes} {app : DIALApp W}
    (h : apps[find_app apps app_name]? = some app) : app.name = app_name := by
  induction apps with
  | nil => simp at h
  | cons first rest ih =>
    unfold find_app at h
    split_ifs at h with hname
    · simp only [List.length_cons, Nat.zero_lt_succ, getElem?_pos, List.getElem_cons_zero,
        Option.some.injEq] at h
      rw [← h, hname]
    · exact ih (by simpa using h)

/-- `find_app` finds nothing exactly when no record has the name, and is at the end of the list
then. -/
theorem find_app_eq_none {apps : List (DIALApp W)} {app_name : Bytes} :
    apps[find_app apps app_name]? = none ↔ app_name ∉ apps.map DIALApp.name := by
  induction apps with
  | nil => simp
  | cons first rest ih =>
    unfold find_app
    split_ifs with hname
    · simp [hname]
    · simpa [hname] using ih

/-- A name that no record has is looked for up to the end of the list. -/
theorem find_app_absent {apps : List (DIALApp W)} {app_name : Bytes}
    (h : app_name ∉ apps.map DIALApp.name) : find_app apps app_name = apps.length := by
  induction apps with
  | nil => rfl
  | cons first rest ih =>
    rw [List.map_cons, List.mem_cons, not_or] at h
    simp [find_app, h.1, ih h.2]

/-- Where `find_app` finds a name depends on the names only. -/
theorem find_app_eq_idxOf (apps : List (DIALApp W)) (app_name : Bytes) :
    find_app apps app_name = (apps.map DIALApp.name).idxOf app_name := by
  induction apps with
  | nil => rfl
  | cons first rest ih =>
    simp only [find_app, List.map_cons, List.idxOf_cons, ih]
    by_cases h : app_name = first.name
    · simp [h]
    · simp [h, beq_eq_false_iff_ne.mpr (Ne.symm h)]

/-- Resources are used up, and nothing else happens. -/
def spends : Guarantee (System W) Event where
  rel s e t := e = [] ∧ ∃ supply, t = { s with supply }
  refl s := ⟨rfl, s.supply, rfl⟩
  trans := by
    rintro s t u e₁ e₂ ⟨rfl, supply, rfl⟩ ⟨rfl, supply', rfl⟩
    exact ⟨rfl, supply', rfl⟩

/-- A request for resources spends them. -/
theorem keeps_spends_alloc {α : Type} (p : Alloc α) : Keeps spends (alloc p : Server W α) :=
  keeps_within p fun _ supply => ⟨rfl, supply, rfl⟩

/-- Loading dial data spends resources, and reads a file. -/
theorem keeps_spends_retrieve (app_name : Bytes) :
    Keeps spends (retrieve_dial_data app_name : Server W (List DIALData)) := by
  refine keeps_bind (keeps_spends_alloc _) fun filename => ?_
  cases filename with
  | none => exact keeps_pure _
  | some filename =>
    refine keeps_bind (keeps_read _) fun file => ?_
    cases file with
    | none => exact keeps_pure _
    | some file =>
      refine keeps_bind (keeps_spends_alloc _) fun granted => ?_
      exact keeps_ite (fun _ => keeps_spends_alloc _) fun _ => keeps_pure _

/-- The end of a registration. -/
theorem unlock_return {s t : System W} {a b : ℤ} {e : List Event}
    (h : (do ds_unlock; return b) s = some (a, e, t)) :
    a = b ∧ e = [.unlock] ∧ t = { s with mux := false } := by
  obtain ⟨⟨⟩, e₁, r, e₂, h₁, h, rfl⟩ := bind_eq_some.mp h
  obtain ⟨rfl, rfl⟩ := ds_unlock_eq_some.mp h₁
  simp only [pure_apply, Option.some.injEq, Prod.mk.injEq] at h
  obtain ⟨rfl, rfl, rfl⟩ := h
  exact ⟨rfl, rfl, rfl⟩

/-- The outcomes of a registration. -/
inductive Registration (app_name : Bytes) (corsAllowedOrigin : Option Bytes) (block : Block)
    (s : System W) : ℤ → List Event → System W → Prop
  | refused : s.supply 0 = false →
      Registration app_name corsAllowedOrigin block s (-1) [] { s with supply := s.supply.after 1 }
  | present {app} : s.mux = false → s.apps[find_app s.apps app_name]? = some app →
      Registration app_name corsAllowedOrigin block s 0 [.lock, .unlock]
        { s with supply := s.supply.after 1, mux := false }
  | no_memory {supply} : s.mux = false → s.supply 1 = false ∨ s.supply 2 = false →
      Registration app_name corsAllowedOrigin block s (-1) [.lock, .unlock]
        { s with supply, mux := false }
  | leaked {supply} : s.mux = false → (∀ n < 3, s.supply n = true) →
      app_name ∉ s.apps.map DIALApp.name → (∀ list, corsAllowedOrigin = some list →
        256 ≤ list.length) →
      Registration app_name corsAllowedOrigin block s (-1) [.lock] { s with supply, mux := true }
  | registered {supply app} : s.mux = false → app_name ∉ s.apps.map DIALApp.name →
      app.name = app_name → corsAllowedOrigin = some app.corsAllowedOrigin.val →
      app.payload = block.payload →
      retrieve_dial_data app_name { s with supply := s.supply.after 3, mux := true } =
        some (app.dial_data, [], { s with supply, mux := true }) →
      Registration app_name corsAllowedOrigin block s 1 [.lock, .unlock]
        { s with apps := s.apps ++ [app], supply, mux := false }

/-- Every return of `DIAL_register_app` is one of these. -/
theorem DIAL_register_app_cases {app_name : Bytes} {callbacks : DIALAppCallbacks W}
    {user_data : Pointer} {useAdditionalData : Bool} {corsAllowedOrigin : Option Bytes}
    {block : Block} {s t : System W} {a : ℤ} {e : List Event}
    (h : DIAL_register_app app_name callbacks user_data useAdditionalData corsAllowedOrigin
      block s = some (a, e, t)) :
    Registration app_name corsAllowedOrigin block s a e t := by
  obtain ⟨taken, e₁, r, e₂, h₁, h, rfl⟩ := bind_eq_some.mp h
  rcases ds_lock_cases h₁ with ⟨h0, rfl, rfl, rfl⟩ | ⟨h0, hmux, rfl, rfl, rfl⟩
  · simp only [Bool.not_false, if_true, pure_apply, Option.some.injEq, Prod.mk.injEq] at h
    obtain ⟨rfl, rfl, rfl⟩ := h
    exact .refused h0
  simp only [Bool.not_true, Bool.false_eq_true, if_false] at h
  obtain ⟨⟨ptr, found⟩, e₃, r, e₄, h₂, h, rfl⟩ := bind_eq_some.mp h
  simp only [get_app, read_apply, Option.some.injEq, Prod.mk.injEq] at h₂
  obtain ⟨⟨rfl, hfound⟩, rfl, rfl⟩ := h₂
  -- From here on the mutex is held.
  cases found with
  | some app =>
    obtain ⟨rfl, rfl, rfl⟩ := unlock_return h
    exact .present hmux hfound
  | none =>
    have habsent := find_app_eq_none.mp hfound
    -- The memory for the record and the memory for its name.
    obtain ⟨granted, e₅, r, e₆, h₃, h, rfl⟩ := bind_eq_some.mp h
    obtain ⟨h1, rfl, rfl⟩ := alloc_request_eq_some.mp h₃
    cases granted with
    | false =>
      simp only [Bool.not_false, if_true] at h
      obtain ⟨rfl, rfl, rfl⟩ := unlock_return h
      exact .no_memory hmux (.inl h1.symm)
    | true =>
      simp only [Bool.not_true, Bool.false_eq_true, if_false] at h
      obtain ⟨granted, e₇, r, e₈, h₄, h, rfl⟩ := bind_eq_some.mp h
      obtain ⟨h2, rfl, rfl⟩ := alloc_request_eq_some.mp h₄
      cases granted with
      | false =>
        simp only [Bool.not_false, if_true] at h
        obtain ⟨rfl, rfl, rfl⟩ := unlock_return h
        exact .no_memory hmux (.inr h2.symm)
      | true =>
        simp only [Bool.not_true, Bool.false_eq_true, if_false] at h
        have hgranted : ∀ n < 3, s.supply n = true := by
          intro n hn
          interval_cases n
          · exact h0
          · exact h1.symm
          · exact h2.symm
        obtain ⟨dial_data, e₉, r, e₁₀, h₅, h, rfl⟩ := bind_eq_some.mp h
        obtain ⟨rfl, supply, rfl⟩ := keeps_spends_retrieve _ _ _ _ _ h₅
        cases corsAllowedOrigin with
        | none =>
          simp only [pure_apply, Option.some.injEq, Prod.mk.injEq] at h
          obtain ⟨rfl, rfl, rfl⟩ := h
          exact .leaked hmux hgranted habsent (by simp)
        | some list =>
          simp only at h
          split_ifs at h with hlist
          · obtain ⟨⟨⟩, e₁₁, r, e₁₂, h₆, h, rfl⟩ := bind_eq_some.mp h
            simp only [modify_apply, Option.some.injEq, Prod.mk.injEq, true_and] at h₆
            obtain ⟨rfl, rfl⟩ := h₆
            obtain ⟨rfl, rfl, rfl⟩ := unlock_return h
            simp only [find_app_absent habsent, List.insertIdx_length_self]
            exact .registered hmux habsent rfl rfl rfl h₅
          · simp only [pure_apply, Option.some.injEq, Prod.mk.injEq] at h
            obtain ⟨rfl, rfl, rfl⟩ := h
            exact .leaked hmux hgranted habsent (by rintro _ ⟨rfl⟩; omega)

/-! ## Calls and runs -/

/-- A call of one of the operations that use the mutex. -/
inductive Call (W : Type)
  | register (app_name : Bytes) (callbacks : DIALAppCallbacks W) (user_data : Pointer)
      (useAdditionalData : Bool) (corsAllowedOrigin : Option Bytes) (block : Block)
  | unregister (app_name : Bytes)
  | allowed_origin (origin : Option Bytes) (app_name : Bytes)
  | start (conn : mg_connection) (request_info : mg_request_info) (app_name : Bytes)
      (origin_header : Option Bytes)
  | status (request_info : mg_request_info) (app_name : Bytes) (origin_header : Option Bytes)
  | stop (app_name : Bytes) (origin_header : Option Bytes)
  | hide (app_name : Bytes) (origin_header : Option Bytes)
  | dial_data (conn : mg_connection) (request_info : mg_request_info) (app_name : Bytes)
      (origin_header : Option Bytes) (use_payload : Bool)

/-- The call, without the value that it returns. -/
def Call.exec : Call W → Server W Unit
  | .register app_name callbacks user_data useAdditionalData corsAllowedOrigin block =>
    void (DIAL_register_app app_name callbacks user_data useAdditionalData corsAllowedOrigin block)
  | .unregister app_name => void (DIAL_unregister_app app_name)
  | .allowed_origin origin app_name => void (is_allowed_origin origin app_name)
  | .start conn request_info app_name origin_header =>
    handle_app_start conn request_info app_name origin_header
  | .status request_info app_name origin_header =>
    handle_app_status request_info app_name origin_header
  | .stop app_name origin_header => handle_app_stop app_name origin_header
  | .hide app_name origin_header => handle_app_hide app_name origin_header
  | .dial_data conn request_info app_name origin_header use_payload =>
    handle_dial_data conn request_info app_name origin_header use_payload

/-- The calls that change which applications are registered. -/
def Call.edits_list : Call W → Bool
  | .register .. | .unregister .. => true
  | _ => false

/-- A guarantee that the steps of every handler keep, whatever the application. -/
structure Everywhere (G : Guarantee (System W) Event) : Prop where
  inside : ∀ pos app_name, Inside G pos app_name
  payload : ∀ s pos payload, G.rel s []
    { s with apps := s.apps.modify pos fun app => { app with payload } }
  dial_data : ∀ s pos dial_data, G.rel s []
    { s with apps := s.apps.modify pos fun app => { app with dial_data } }
  files : ∀ s path file, G.rel s [] { s with files := Function.update s.files path (some file) }

/-- Such a guarantee holds outside the sections too. -/
theorem Everywhere.outside {G : Guarantee (System W) Event} (hG : Everywhere G) : Outside G :=
  (hG.inside 0 []).toOutside

/-- The calls that do not edit the list have one lock section. -/
theorem Call.exec_sectioned {G : Guarantee (System W) Event} (hG : Everywhere G) {c : Call W}
    (hc : c.edits_list = false) {s t : System W} {e : List Event}
    (h : c.exec s = some ((), e, t)) : Sectioned G s e t := by
  cases c with
  | register => simp [edits_list] at hc
  | unregister => simp [edits_list] at hc
  | allowed_origin origin app_name =>
    obtain ⟨allowed, h⟩ := void_eq_some.mp h
    exact is_allowed_origin_sectioned hG.outside.supply h
  | start =>
    exact handle_app_start_sectioned hG.outside (fun _ _ => hG.inside _ _)
      (fun r => hG.payload r _) h
  | status => exact handle_app_status_sectioned hG.outside (fun _ _ => hG.inside _ _) h
  | stop => exact handle_app_stop_sectioned hG.outside (fun _ _ => hG.inside _ _) h
  | hide => exact handle_app_hide_sectioned hG.outside (fun _ _ => hG.inside _ _) h
  | dial_data =>
    exact handle_dial_data_sectioned hG.outside (fun _ _ => hG.inside _ _)
      (fun r => hG.dial_data r _) (fun _ _ r => hG.files r _) h

/-- Calls one after another, each in a state that allows it. -/
inductive Run (ok : Call W → System W → Prop) : System W → System W → Prop
  | refl (s) : Run ok s s
  | step {s t u c e} : Run ok s t → ok c t → Call.exec c t = some ((), e, u) → Run ok s u

/-- What each call of a run preserves holds at its end. -/
theorem Run.induct {ok : Call W → System W → Prop} {P : System W → Prop}
    (hstep : ∀ c s e t, ok c s → P s → c.exec s = some ((), e, t) → P t) {s t : System W}
    (h : Run ok s t) (hs : P s) : P t := by
  induction h with
  | refl => exact hs
  | step _ hok hexec ih => exact hstep _ _ _ _ hok ih hexec

/-- The states of a server after any calls. -/
def Reachable (s : System W) : Prop :=
  ∃ files supply world platform,
    Run (fun _ _ => True) (DIAL_create files supply world platform) s

/-- What the origin check and the lookup read of the records. -/
def directory (s : System W) : List (Bytes × AllowList) :=
  s.apps.map fun app => (app.name, app.corsAllowedOrigin)

/-- Assignments to other fields leave the directory. -/
theorem map_modify_eq {α β : Type} {f : α → α} {g : α → β} (h : ∀ a, g (f a) = g a) (l : List α)
    (i : ℕ) : (l.modify i f).map g = l.map g := by
  induction l generalizing i with
  | nil => simp
  | cons a l ih =>
    cases i with
    | zero => simp [h]
    | succ i => simp [ih]

/-- A projection of the records that ignores the state and the run. -/
theorem silent_unchanged {β : Type} {g : DIALApp W → β}
    (hrun : ∀ app state run_id, g { app with state, run_id } = g app) (pos : ℕ) (app_name : Bytes) :
    Silent (Guarantee.unchanged fun s => s.apps.map g : Guarantee (System W) Event) pos
      app_name where
  supply _ _ := rfl
  world _ _ := rfl
  state s state := map_modify_eq (fun app => hrun app state app.run_id) s.apps pos
  run s state run_id := map_modify_eq (fun app => hrun app state run_id) s.apps pos
  callback _ _ _ := rfl

/-- A projection that ignores all the fields which the handlers assign. -/
theorem everywhere_unchanged {β : Type} {g : DIALApp W → β}
    (hrun : ∀ app state run_id, g { app with state, run_id } = g app)
    (hpayload : ∀ app payload, g { app with payload } = g app)
    (hdial_data : ∀ app dial_data, g { app with dial_data } = g app) :
    Everywhere (Guarantee.unchanged fun s => s.apps.map g : Guarantee (System W) Event) where
  inside pos app_name := { silent_unchanged hrun pos app_name with write := fun _ _ => rfl }
  payload s pos payload := map_modify_eq (fun app => hpayload app payload) s.apps pos
  dial_data s pos dial_data := map_modify_eq (fun app => hdial_data app dial_data) s.apps pos
  files _ _ _ := rfl

/-- No handler assigns to a name or to an allow list. -/
theorem everywhere_directory :
    Everywhere (Guarantee.unchanged directory : Guarantee (System W) Event) :=
  everywhere_unchanged (fun _ _ _ => rfl) (fun _ _ => rfl) fun _ _ => rfl

/-- The calls that do not edit the list keep the directory. -/
theorem Call.directory_eq {c : Call W} (hc : c.edits_list = false) {s t : System W}
    {e : List Event} (h : c.exec s = some ((), e, t)) : directory t = directory s :=
  (exec_sectioned everywhere_directory hc h).rel (fun _ => rfl) fun _ => rfl

/-- A guarantee that only records leave the list. -/
def shrinks : Guarantee (System W) Event where
  rel s _ t := t.apps.Sublist s.apps
  refl _ := List.Sublist.refl _
  trans h₁ h₂ := h₂.trans h₁

/-- Unregistering leaves a part of the list. -/
theorem DIAL_unregister_app_sublist {app_name : Bytes} {s t : System W} {a : ℤ} {e : List Event}
    (h : DIAL_unregister_app app_name s = some (a, e, t)) : t.apps.Sublist s.apps :=
  (DIAL_unregister_app_sectioned (G := shrinks) (fun s _ => List.Sublist.refl s.apps)
    (fun r _ => List.eraseIdx_sublist r.apps _) h).rel (fun s => List.Sublist.refl s.apps)
    fun s => List.Sublist.refl s.apps

/-- The names of the records in a reachable state are distinct. -/
theorem Reachable.names_nodup {s : System W} (h : Reachable s) :
    (s.apps.map DIALApp.name).Nodup := by
  obtain ⟨files, supply, world, platform, hrun⟩ := h
  refine hrun.induct (P := fun s => (s.apps.map DIALApp.name).Nodup) ?_ (by simp [DIAL_create])
  intro c s e t _ hs hexec
  -- A registration adds a name that is new, and all other calls add none.
  cases hc : c.edits_list with
  | false =>
    have := congrArg (List.map Prod.fst) (Call.directory_eq hc hexec)
    simp only [directory, List.map_map, Function.comp_def] at this
    exact this ▸ hs
  | true =>
    cases c with
    | register app_name callbacks user_data useAdditionalData corsAllowedOrigin block =>
      obtain ⟨a, h⟩ := void_eq_some.mp hexec
      cases DIAL_register_app_cases h with
      | refused => exact hs
      | present => exact hs
      | no_memory => exact hs
      | leaked => exact hs
      | registered hmux habsent hname =>
        simp only [List.map_append, List.map_cons, List.map_nil, hname]
        rw [← List.concat_eq_append]
        exact hs.concat habsent
    | unregister app_name =>
      obtain ⟨a, h⟩ := void_eq_some.mp hexec
      exact hs.sublist ((DIAL_unregister_app_sublist h).map _)
    | _ => simp [Call.edits_list] at hc

/-! ## The mutex -/

/-- The events on the mutex. -/
def Event.on_mutex : Event → Bool
  | .lock | .unlock => true
  | _ => false

/-- What the call does to the mutex, in order. -/
def mutex_events (e : List Event) : List Event := e.filter Event.on_mutex

/-- What two calls do to the mutex, one after the other. -/
@[simp] theorem mutex_events_append (e₁ e₂ : List Event) :
    mutex_events (e₁ ++ e₂) = mutex_events e₁ ++ mutex_events e₂ :=
  List.filter_append ..

/-- A call that took the mutex has given it back once, and leaves it free. -/
def Returned (e : List Event) (t : System W) : Prop :=
  mutex_events e = [] ∨ (mutex_events e = [.lock, .unlock] ∧ t.mux = false)

/-- The mutex is left alone. -/
def quiet : Guarantee (System W) Event where
  rel s e t := t.mux = s.mux ∧ mutex_events e = []
  refl _ := ⟨rfl, rfl⟩
  trans := by
    rintro s t u e₁ e₂ ⟨h₁, hq₁⟩ ⟨h₂, hq₂⟩
    exact ⟨h₂.trans h₁, by rw [mutex_events_append, hq₁, hq₂, List.append_nil]⟩

/-- Between `ds_lock` and `ds_unlock` no handler touches the mutex. -/
theorem everywhere_quiet : Everywhere (quiet : Guarantee (System W) Event) where
  inside _ _ :=
    { supply := fun _ _ => ⟨rfl, rfl⟩
      world := fun _ _ => ⟨rfl, rfl⟩
      state := fun _ _ => ⟨rfl, rfl⟩
      run := fun _ _ _ => ⟨rfl, rfl⟩
      write := fun _ _ => ⟨rfl, rfl⟩
      callback := fun _ _ _ => ⟨rfl, rfl⟩ }
  payload _ _ _ := ⟨rfl, rfl⟩
  dial_data _ _ _ := ⟨rfl, rfl⟩
  files _ _ _ := ⟨rfl, rfl⟩

/-- A call with one lock section gives the mutex back, and leaves it free if it was free. -/
theorem Sectioned.returned {s t : System W} {e : List Event} (h : Sectioned quiet s e t) :
    Returned e t ∧ (s.mux = false → t.mux = false) := by
  cases h with
  | outside h => exact ⟨.inl h.2, h.1.trans⟩
  | @«section» e₁ r e₂ u h₁ hmux h₂ =>
    refine ⟨.inr ⟨?_, rfl⟩, fun _ => rfl⟩
    calc mutex_events (e₁ ++ .lock :: e₂ ++ [.unlock])
        = mutex_events e₁ ++ ([.lock] ++ mutex_events e₂ ++ [.unlock]) := by
          rw [List.append_assoc, mutex_events_append, List.cons_append, ← List.singleton_append,
            mutex_events_append, mutex_events_append]
          rfl
      _ = [.lock, .unlock] := by rw [h₁.2, h₂.2]; rfl

/-- The calls that keep the mutex: a registration that gets the mutex and its memory, under a new
name, and has no allow list or one that does not fit. -/
def Call.Leaks (s : System W) : Call W → Prop
  | .register app_name _ _ _ corsAllowedOrigin _ =>
    (∀ n < 3, s.supply n = true) ∧ app_name ∉ s.apps.map DIALApp.name ∧
      ∀ list, corsAllowedOrigin = some list → 256 ≤ list.length
  | _ => False

/-- A call gives the mutex back, and leaves it free if it was free, unless it leaks. -/
theorem Call.returned {c : Call W} {s t : System W} {e : List Event}
    (h : c.exec s = some ((), e, t)) (hc : ¬c.Leaks s) :
    Returned e t ∧ (s.mux = false → t.mux = false) := by
  cases hedits : c.edits_list with
  | false => exact (exec_sectioned everywhere_quiet hedits h).returned
  | true =>
    cases c with
    | register app_name callbacks user_data useAdditionalData corsAllowedOrigin block =>
      obtain ⟨a, h⟩ := void_eq_some.mp h
      cases DIAL_register_app_cases h with
      | refused => exact ⟨.inl rfl, id⟩
      | present => exact ⟨.inr ⟨rfl, rfl⟩, fun _ => rfl⟩
      | no_memory => exact ⟨.inr ⟨rfl, rfl⟩, fun _ => rfl⟩
      | leaked _ hgranted habsent hlist => exact absurd ⟨hgranted, habsent, hlist⟩ hc
      | registered => exact ⟨.inr ⟨rfl, rfl⟩, fun _ => rfl⟩
    | unregister app_name =>
      obtain ⟨a, h⟩ := void_eq_some.mp h
      exact (DIAL_unregister_app_sectioned (G := quiet) (fun _ _ => ⟨rfl, rfl⟩)
        (fun _ _ => ⟨rfl, rfl⟩) h).returned
    | _ => simp [edits_list] at hedits

/-- A call that leaks takes the mutex and returns with it. -/
theorem Call.not_returned {c : Call W} {s t : System W} {e : List Event}
    (h : c.exec s = some ((), e, t)) (hc : c.Leaks s) : ¬Returned e t ∧ t.mux = true := by
  cases c with
  | register app_name callbacks user_data useAdditionalData corsAllowedOrigin block =>
    obtain ⟨hgranted, habsent, hlist⟩ := hc
    obtain ⟨a, h⟩ := void_eq_some.mp h
    -- All other outcomes need a refusal, a record of the name or a list that fits.
    cases DIAL_register_app_cases h with
    | refused h0 => simp [hgranted 0 (by omega)] at h0
    | present _ hfound =>
      exact absurd (find_app_eq_none.mpr habsent) (by simp [hfound])
    | no_memory _ hrefused =>
      rcases hrefused with h1 | h2
      · simp [hgranted 1 (by omega)] at h1
      · simp [hgranted 2 (by omega)] at h2
    | leaked => exact ⟨by simp [Returned, mutex_events, Event.on_mutex], rfl⟩
    | @registered _ app _ _ _ hcors =>
      have := hlist _ hcors
      have := app.corsAllowedOrigin.2
      omega
  | _ => exact False.elim hc

/-- **The mutex is given back.** A call that returns has released the mutex, if it took it, exactly
once, if and only if it is not a registration with a missing or too long allow list; and in every
run without such registrations the mutex is free after every call. -/
theorem mutex_given_back :
    (∀ (c : Call W) (s t : System W) (e : List Event), c.exec s = some ((), e, t) →
      (Returned e t ↔ ¬c.Leaks s)) ∧
    ∀ s t : System W, s.mux = false → Run (fun c s => ¬c.Leaks s) s t → t.mux = false := by
  constructor
  · intro c s t e h
    constructor
    · intro hr hc
      exact (Call.not_returned h hc).1 hr
    · intro hc
      exact (Call.returned h hc).1
  · intro s t hs hrun
    exact hrun.induct (fun c s e t hc hs h => (Call.returned h hc).2 hs) hs

/-- Callbacks of an application that is stopped until it is started. -/
def toggle_callbacks : DIALAppCallbacks Bool where
  start_cb _ _ _ _ run_id _ _ := (.kDIALStatusRunning, run_id, true)
  hide_cb _ _ _ running := (.kDIALStatusErrorNotImplemented, running)
  stop_cb _ _ _ _ := false
  status_cb _ _ pCanStop _ running :=
    (if running then .kDIALStatusRunning else .kDIALStatusStopped, pCanStop, running)

/-- A new server on an empty disk, with memory, and its application not running. -/
def new_server : System Bool := DIAL_create (fun _ => none) plenty false ⟨56789, fun _ => false⟩

/-- A block from `malloc` that happens to be zero. -/
def zero_block : Block := ⟨⟨List.replicate DIAL_MAX_PAYLOAD 0, List.length_replicate⟩, 0⟩

/-- The allow list that `main.c` registers for the handler `YouTube`. -/
def youtube_list : Bytes := bytes "https://youtube.com https://*.youtube.com package:*"

/-- The registration of an application. -/
def register_youtube (corsAllowedOrigin : Option Bytes) : Call Bool :=
  .register (bytes "YouTube") toggle_callbacks 0 true corsAllowedOrigin zero_block

/-- The record of that registration with the allow list. -/
def youtube_app : DIALApp Bool where
  callbacks := toggle_callbacks
  dial_data := []
  callback_data := 0
  run_id := 0
  state := .kDIALStatusStopped
  name := bytes "YouTube"
  payload := zero_block.payload
  useAdditionalData := true
  corsAllowedOrigin := ⟨youtube_list, by decide⟩

/-- The server after it. -/
def youtube_server : System Bool := { new_server with apps := [youtube_app] }

/-- The registration, evaluated. -/
theorem register_youtube_exec :
    (register_youtube (some youtube_list)).exec new_server =
      some ((), [.lock, .unlock], youtube_server) := rfl

/-- A status request without an `Origin` header. -/
def status_request : mg_request_info :=
  ⟨bytes "GET", bytes "/apps/YouTube", none, ⟨192, 168, 0, 2⟩, ⟨192, 168, 0, 3⟩, []⟩

/-- A connection without a body. -/
def no_body : mg_connection := ⟨0, 0, [], []⟩

/-- A registration with an allow list that fits. -/
theorem mutex_given_back_register :
    Returned [.lock, .unlock] youtube_server ∧ youtube_server.mux = false := by
  have hleaks : ¬(register_youtube (some youtube_list)).Leaks new_server := by
    rintro ⟨-, -, hlist⟩
    exact absurd (hlist _ rfl) (by decide)
  exact ⟨(mutex_given_back.1 _ _ _ _ register_youtube_exec).mpr hleaks,
    mutex_given_back.2 _ _ rfl (.step (.refl _) hleaks register_youtube_exec)⟩

/-- A registration without an allow list returns with the mutex, and the next `ds_lock` waits for
ever. -/
theorem register_without_list_keeps_mutex :
    ∃ t e, (register_youtube none).exec new_server = some ((), e, t) ∧ ¬Returned e t ∧
      t.mux = true ∧ ds_lock t = none :=
  ⟨_, _, rfl, by simp [Returned, mutex_events, Event.on_mutex], rfl, rfl⟩

end DialServer
