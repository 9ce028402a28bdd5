import DialServer.Origin.Matching
import DialServer.Router.Requests

/-!
# No request bypasses the origin check

A request takes the mutex twice, once for the check and once for what it asks for, and each time it
looks the application up again. `Step` are the interleavings of these two sections over any number
of requests while the applications stay registered. Between the sections of a request other
requests change the records, but not their names and allow lists (`directory`), and the names in a
reachable state are distinct; so the record that a request acts on is the record that it was
checked against.
-/

namespace DialServer

open CLib Program

variable {W : Type}

/-- The origin is absent or empty, or the allow list is empty or accepts it. -/
def Permitted (origin_header : Option Bytes) (list : AllowList) : Prop :=
  origin_header = none ∨ origin_header = some [] ∨ list.val = [] ∨
    ∃ origin, origin_header = some origin ∧ Accepts list.val origin

/-! ## The check -/

/-- The loop accepts only through a record of the name. -/
theorem is_allowed_origin_loop_sound {origin app_name : Bytes} {apps : List (DIALApp W)}
    {supply supply' : Supply} {e : List Empty}
    (h : is_allowed_origin_loop origin app_name apps supply = some (true, e, supply')) :
    ∃ app ∈ apps, app.name = app_name ∧ Permitted (some origin) app.corsAllowedOrigin := by
  induction apps generalizing supply e with
  | nil => simp [is_allowed_origin_loop] at h
  | cons app apps ih =>
    have hrest : ∀ {supply e},
        is_allowed_origin_loop origin app_name apps supply = some (true, e, supply') →
        ∃ app' ∈ app :: apps,
          app'.name = app_name ∧ Permitted (some origin) app'.corsAllowedOrigin := by
      intro supply e h
      obtain ⟨app', hmem, happ⟩ := ih h
      exact ⟨app', List.mem_cons_of_mem _ hmem, happ⟩
    unfold is_allowed_origin_loop at h
    split_ifs at h with hname hempty
    · exact ⟨app, List.mem_cons_self .., hname, .inr (.inr (.inl hempty))⟩
    · obtain ⟨accepted, e₁, r, e₂, h₁, h₂, -⟩ := bind_eq_some.mp h
      cases accepted with
      | true =>
        -- The list was searched with what memory there was, and it accepts with plenty as well.
        have haccepts := accepts_iff.mpr (is_uri_in_list_accepts h₁)
        exact ⟨app, List.mem_cons_self .., hname, .inr (.inr (.inr ⟨origin, rfl, haccepts⟩))⟩
      | false => exact hrest h₂
    · exact hrest h

/-- `is_allowed_origin` allows only what a record of the name permits, if there is one. -/
theorem is_allowed_origin_sound {origin_header : Option Bytes} {app_name : Bytes} {s t : System W}
    {e : List Event} (h : is_allowed_origin origin_header app_name s = some (true, e, t)) :
    origin_header = none ∨ origin_header = some [] ∨
      ∃ app ∈ s.apps, app.name = app_name ∧ Permitted origin_header app.corsAllowedOrigin := by
  cases origin_header with
  | none => exact .inl rfl
  | some origin =>
    unfold is_allowed_origin at h
    simp only at h
    split_ifs at h with hlen
    · exact .inr (.inl (by rw [List.length_eq_zero_iff.mp hlen]))
    · obtain ⟨taken, e₁, r, e₂, h₁, h₂, -⟩ := bind_eq_some.mp h
      rcases ds_lock_cases h₁ with ⟨-, rfl, -, rfl⟩ | ⟨-, -, rfl, -, rfl⟩
      · -- Without the lock the answer is no.
        simp at h₂
      · obtain ⟨apps, e₃, r, e₄, h₃, h₄, -⟩ := bind_eq_some.mp h₂
        simp only [read_apply, Option.some.injEq, Prod.mk.injEq] at h₃
        obtain ⟨rfl, -, rfl⟩ := h₃
        obtain ⟨result, e₅, r, e₆, h₅, h₆, -⟩ := bind_eq_some.mp h₄
        obtain ⟨_, supply, hloop, -, rfl⟩ := within_eq_some.mp h₅
        obtain ⟨⟨⟩, e₇, r, e₈, -, h₇, -⟩ := bind_eq_some.mp h₆
        simp only [pure_apply, Option.some.injEq, Prod.mk.injEq] at h₇
        obtain ⟨rfl, -⟩ := h₇
        exact .inr (.inr (is_allowed_origin_loop_sound hloop))

/-- What has been checked when a request has its decision: every record of the name permits the
origin, and dial data come from the local host. -/
def Cleared (dir : List (Bytes × AllowList)) (request_info : mg_request_info) (d : Decision) :
    Prop :=
  (∀ app_name list, d.acts_on = some app_name → (app_name, list) ∈ dir →
    Permitted (origin_of request_info) list) ∧
  (d.is_dial_data = true → IsLocal request_info)

/-- A decision that is for no application has nothing to be checked. -/
theorem cleared_of_acts_on {dir : List (Bytes × AllowList)} {request_info : mg_request_info}
    {d : Decision} (hd : d.acts_on = none) : Cleared dir request_info d := by
  refine ⟨fun app_name list h => ?_, fun h => ?_⟩
  · simp [hd] at h
  · cases d <;> simp_all [Decision.acts_on, Decision.is_dial_data]

/-- In a directory of distinct names, the record that permits is the record of the name. -/
theorem origin_refused_sound {origin_header : Option Bytes} {app_name : Bytes} {s t : System W}
    {e : List Event} (hnodup : (s.apps.map DIALApp.name).Nodup)
    (h : origin_refused origin_header app_name s = some (false, e, t)) {list : AllowList}
    (hmem : (app_name, list) ∈ directory s) : Permitted origin_header list := by
  unfold origin_refused at h
  split_ifs at h with hnone
  · exact .inl hnone
  · obtain ⟨allowed, e₁, r, e₂, h₁, h₂, -⟩ := bind_eq_some.mp h
    simp only [pure_apply, Option.some.injEq, Prod.mk.injEq, Bool.not_eq_false'] at h₂
    obtain ⟨rfl, -⟩ := h₂
    rcases is_allowed_origin_sound h₁ with h | h | ⟨app, happ, rfl, hpermitted⟩
    · exact .inl h
    · exact .inr (.inl h)
    · -- The check may have found any record of the name, but there is only one.
      obtain ⟨app', happ', heq⟩ := List.mem_map.mp hmem
      have hsame : app' = app :=
        List.inj_on_of_nodup_map hnodup happ' happ (Prod.mk.inj heq).1
      rw [← (Prod.mk.inj heq).2, hsame]
      exact hpermitted

/-- A decision for a name that has passed the check. -/
theorem cleared_of_passes {request_info : mg_request_info} {app_name : Bytes} {s : System W}
    (hnodup : (s.apps.map DIALApp.name).Nodup) (h : Passes request_info app_name s) {d : Decision}
    (hd : d.acts_on = some app_name) (hlocal : d.is_dial_data = true → IsLocal request_info) :
    Cleared (directory s) request_info d := by
  obtain ⟨e, t, h⟩ := h
  refine ⟨fun name list hname hmem => ?_, hlocal⟩
  rw [hd, Option.some.injEq] at hname
  exact origin_refused_sound hnodup h (hname ▸ hmem)

/-- Every decision of the router has been checked. -/
theorem route_cleared {request_info : mg_request_info} {s t : System W} {e : List Event}
    {d : Decision} (hnodup : (s.apps.map DIALApp.name).Nodup)
    (h : route request_info s = some (d, e, t)) : Cleared (directory s) request_info d := by
  have hnot : ¬false = true := by simp
  cases route_cases h with
  | refusal hd => exact cleared_of_acts_on hd
  | stop _ _ _ _ hpass => exact cleared_of_passes hnodup hpass rfl fun h => absurd h hnot
  | start _ _ _ hpass => exact cleared_of_passes hnodup hpass rfl fun h => absurd h hnot
  | status _ _ _ hpass => exact cleared_of_passes hnodup hpass rfl fun h => absurd h hnot
  | hide _ _ _ _ hpass => exact cleared_of_passes hnodup hpass rfl fun h => absurd h hnot
  | @dial_data n _ supply _ hlocal _ _ hpass =>
    exact cleared_of_passes (s := { s with supply }) hnodup hpass rfl fun _ => hlocal

/-! ## What the two sections of a request do -/

/-- A decision acts on the record at a position. -/
def ActsAt (s₀ : System W) (d : Decision) (pos : ℕ) : Prop :=
  ∃ app, s₀.apps[pos]? = some app ∧ d.acts_on = some app.name

/-- What a request may do to the applications is confined to what a decision asks for: a callback
is called of a record that it acts on, and only for dial data the list of that record and its file
change. -/
def confined (s₀ : System W) (d : Decision) : Guarantee (System W) Event :=
  .both (.unchanged directory) <|
    .both (.emits fun x => ∀ pos call, x = .callback pos call → ActsAt s₀ d pos) <|
    .both (.changes_at (fun s pos => (s.apps.map DIALApp.dial_data)[pos]?) fun pos =>
      ActsAt s₀ d pos ∧ d.is_dial_data = true) <|
    .changes_at System.files fun path =>
      ∃ app ∈ s₀.apps, path = app_path app.name ∧ d.acts_on = some app.name ∧
        d.is_dial_data = true

section Confined

variable {s₀ s t : System W} {d : Decision}

/-- A step that keeps the directory, the lists and the files, and calls no callback. -/
theorem confined_of_kept {e : List Event} (hdir : directory t = directory s)
    (hlists : t.apps.map DIALApp.dial_data = s.apps.map DIALApp.dial_data)
    (hfiles : t.files = s.files) (he : ∀ pos call, Event.callback pos call ∉ e) :
    (confined s₀ d).rel s e t := by
  refine ⟨hdir, ?_, fun pos h => absurd (congrArg (·[pos]?) hlists) h,
    fun path h => absurd (congrFun hfiles path) h⟩
  rintro x hx pos call rfl
  exact absurd hx (he pos call)

/-- An assignment to other fields of a record. -/
theorem confined_of_modify {f : DIALApp W → DIALApp W} (pos : ℕ)
    (hf : ∀ app, (f app).name = app.name ∧ (f app).corsAllowedOrigin = app.corsAllowedOrigin ∧
      (f app).dial_data = app.dial_data) :
    (confined s₀ d).rel s [] { s with apps := s.apps.modify pos f } := by
  refine confined_of_kept (map_modify_eq (fun app => ?_) s.apps pos)
    (map_modify_eq (fun app => (hf app).2.2) s.apps pos) rfl (by simp)
  rw [(hf app).1, (hf app).2.1]

/-- An assignment to the list of a record that dial data are for. -/
theorem confined_of_dial_data {pos : ℕ} (hpos : ActsAt s₀ d pos) (hd : d.is_dial_data = true)
    (dial_data : List DIALData) : (confined s₀ d).rel s []
      { s with apps := s.apps.modify pos fun app => { app with dial_data } } := by
  refine ⟨everywhere_directory.dial_data s pos dial_data, by simp, fun i hi => ?_,
    fun path h => absurd rfl h⟩
  have heq : i = pos := by
    by_contra hne
    exact hi (by simp [Ne.symm hne])
  exact heq ▸ ⟨hpos, hd⟩

/-- The file of a record that dial data are for. -/
theorem confined_of_file {app : DIALApp W} (hmem : app ∈ s₀.apps)
    (happ : d.acts_on = some app.name) (hd : d.is_dial_data = true) (file : Bytes) :
    (confined s₀ d).rel s []
      { s with files := Function.update s.files (app_path app.name) (some file) } := by
  refine ⟨rfl, by simp, fun i h => absurd rfl h, fun path hpath => ⟨app, hmem, ?_, happ, hd⟩⟩
  by_contra hne
  exact hpath (Function.update_of_ne hne ..)

/-- What happens outside the sections is confined to any decision. -/
theorem outside_confined : Outside (confined s₀ d) where
  supply _ _ := confined_of_kept rfl rfl rfl (by simp)
  write _ _ := confined_of_kept rfl rfl rfl (by simp)

/-- What happens to a record that the decision acts on, apart from its dial data. -/
theorem inside_confined {pos : ℕ} {app_name : Bytes} (hpos : ActsAt s₀ d pos) :
    Inside (confined s₀ d) pos app_name where
  supply _ _ := confined_of_kept rfl rfl rfl (by simp)
  world _ _ := confined_of_kept rfl rfl rfl (by simp)
  state _ _ := confined_of_modify pos fun _ => ⟨rfl, rfl, rfl⟩
  run _ _ _ := confined_of_modify pos fun _ => ⟨rfl, rfl, rfl⟩
  write _ _ := confined_of_kept rfl rfl rfl (by simp)
  callback s call _ := by
    refine ⟨rfl, ?_, fun pos h => absurd rfl h, fun path h => absurd rfl h⟩
    rintro x hx pos' call' rfl
    obtain ⟨rfl, -⟩ : pos' = pos ∧ call' = call := by simpa using hx
    exact hpos

/-- The mutex is not of interest here. -/
theorem mutexless_confined : Mutexless (confined s₀ d) where
  lock _ := confined_of_kept rfl rfl rfl (by simp)
  unlock _ := confined_of_kept rfl rfl rfl (by simp)

/-- The check and the choice of the decision change nothing that the check reads. -/
theorem route_confined {request_info : mg_request_info} {d' : Decision} {e : List Event}
    (h : route request_info s = some (d', e, t)) : (confined s₀ d).rel s e t :=
  route_keeps outside_confined.supply mutexless_confined _ _ _ _ h

/-- Carrying a decision out is confined to it: a handler touches only the record that it finds under
the name of the decision. -/
theorem perform_confined {conn : mg_connection} {request_info : mg_request_info} {e : List Event}
    (h : perform conn request_info d s = some ((), e, t)) : (confined s d).rel s e t := by
  refine (perform_sectioned outside_confined (fun app_name hd => ?_) h).rel
    mutexless_confined.lock mutexless_confined.unlock
  have hname : ∀ app, s.apps[find_app s.apps app_name]? = some app → d.acts_on = some app.name :=
    fun app happ => by rw [hd, find_app_name happ]
  exact
    { on_app := fun app happ => inside_confined ⟨app, happ, hname app happ⟩
      payload := fun _ _ _ _ => confined_of_modify _ fun _ => ⟨rfl, rfl, rfl⟩
      dial_data := fun hdial app happ _ dial_data =>
        confined_of_dial_data ⟨app, happ, hname app happ⟩ hdial dial_data
      file := fun hdial app happ _ file =>
        confined_of_file (List.mem_of_getElem? happ) (hname app happ) hdial file }

end Confined

/-! ## Interleavings -/

/-- Where a request is: it has been parsed, or it has its decision, or it has been answered. -/
inductive Thread
  | arrived (conn : mg_connection) (request_info : mg_request_info)
  | decided (conn : mg_connection) (request_info : mg_request_info) (d : Decision)
  | answered

/-- The server and the requests under way. -/
structure Config (W : Type) where
  server : System W
  threads : List Thread

/-- One lock section of a request: its check, or what it asks for. -/
inductive Step : Config W → mg_request_info → List Event → Config W → Prop
  | decide {c i conn request_info d e s} : c.threads[i]? = some (.arrived conn request_info) →
      route request_info c.server = some (d, e, s) →
      Step c request_info e ⟨s, c.threads.set i (.decided conn request_info d)⟩
  | act {c i conn request_info d e s} : c.threads[i]? = some (.decided conn request_info d) →
      perform conn request_info d c.server = some ((), e, s) →
      Step c request_info e ⟨s, c.threads.set i .answered⟩

/-- Any interleaving of the sections, with requests arriving at any time. -/
inductive Steps (c₀ : Config W) : Config W → Prop
  | refl : Steps c₀ c₀
  | arrive {c} (conn request_info) : Steps c₀ c →
      Steps c₀ { c with threads := c.threads ++ [.arrived conn request_info] }
  | step {c c' request_info e} : Steps c₀ c → Step c request_info e c' → Steps c₀ c'

/-- The directory stays, its names are distinct, and every decision has been checked. -/
structure Checked (dir : List (Bytes × AllowList)) (c : Config W) : Prop where
  dir_eq : directory c.server = dir
  nodup : (dir.map Prod.fst).Nodup
  cleared : ∀ conn request_info d, Thread.decided conn request_info d ∈ c.threads →
    Cleared dir request_info d

/-- The names of the directory are those of the applications. -/
theorem directory_names (s : System W) :
    (directory s).map Prod.fst = s.apps.map DIALApp.name := by
  simp [directory, Function.comp_def]

/-- A section of a request keeps the invariant, and is confined to a decision that has been
checked. -/
theorem Checked.step {dir : List (Bytes × AllowList)} {c c' : Config W}
    {request_info : mg_request_info} {e : List Event} (hc : Checked dir c)
    (h : Step c request_info e c') :
    Checked dir c' ∧
      ∃ d, Cleared dir request_info d ∧ (confined c.server d).rel c.server e c'.server := by
  obtain ⟨hdir, hnodup, hcleared⟩ := hc
  cases h with
  | @decide i conn _ d _ s hthread hroute =>
    have hnames : (c.server.apps.map DIALApp.name).Nodup := by
      rw [← directory_names, hdir]
      exact hnodup
    have hd : Cleared dir request_info d := hdir ▸ route_cleared hnames hroute
    have hrel : (confined c.server d).rel c.server e s := route_confined hroute
    refine ⟨⟨hrel.1.trans hdir, hnodup, fun conn' info' d' hmem => ?_⟩, d, hd, hrel⟩
    -- The only new decision is the one that has just been checked.
    rcases List.mem_or_eq_of_mem_set hmem with hmem | heq
    · exact hcleared conn' info' d' hmem
    · obtain ⟨rfl, rfl, rfl⟩ := Thread.decided.inj heq
      exact hd
  | @act i conn _ d _ s hthread hperform =>
    have hrel := perform_confined hperform
    refine ⟨⟨hrel.1.trans hdir, hnodup, fun conn' info' d' hmem => ?_⟩, d,
      hcleared conn request_info d (List.mem_of_getElem? hthread), hrel⟩
    rcases List.mem_or_eq_of_mem_set hmem with hmem | heq
    · exact hcleared conn' info' d' hmem
    · exact absurd heq (by simp)

/-- The invariant holds in every interleaving. -/
theorem Checked.steps {dir : List (Bytes × AllowList)} {c₀ c : Config W} (hc₀ : Checked dir c₀)
    (h : Steps c₀ c) : Checked dir c := by
  induction h with
  | refl => exact hc₀
  | arrive conn request_info _ ih =>
    -- A request that arrives has no decision yet.
    refine ⟨ih.dir_eq, ih.nodup, fun conn' info' d' hmem => ih.cleared conn' info' d' ?_⟩
    simpa using hmem
  | step _ hstep ih => exact (ih.step hstep).1

/-- A server in a reachable state before any request. -/
theorem checked_of_reachable {s : System W} (h : Reachable s) :
    Checked (directory s) ⟨s, []⟩ where
  dir_eq := rfl
  nodup := by
    rw [directory_names]
    exact h.names_nodup
  cleared _ _ _ hmem := absurd hmem (by simp)

/-- The record at a position permits the origin of a request. -/
def PermittedAt (s : System W) (pos : ℕ) (request_info : mg_request_info) : Prop :=
  ∃ app, s.apps[pos]? = some app ∧ Permitted (origin_of request_info) app.corsAllowedOrigin

/-- **No bypass.** From a reachable state, in every interleaving of the lock sections of requests, a
section of a request calls a callback of a record, changes the dial data of a record or changes a
data file only if the allow list of that record permits the origin of the request; and dial data and
files change only for a peer whose address begins with 127.0.0.1. -/
theorem no_bypass {s : System W} (hs : Reachable s) {c c' : Config W}
    {request_info : mg_request_info} {e : List Event} (hc : Steps ⟨s, []⟩ c)
    (hstep : Step c request_info e c') :
    (∀ pos call, Event.callback pos call ∈ e → PermittedAt c.server pos request_info) ∧
    (∀ pos, (c'.server.apps.map DIALApp.dial_data)[pos]? ≠
        (c.server.apps.map DIALApp.dial_data)[pos]? →
      PermittedAt c.server pos request_info ∧ IsLocal request_info) ∧
    ∀ path, c'.server.files path ≠ c.server.files path →
      (∃ app ∈ c.server.apps, path = app_path app.name ∧
        Permitted (origin_of request_info) app.corsAllowedOrigin) ∧ IsLocal request_info := by
  have hchecked := (checked_of_reachable hs).steps hc
  obtain ⟨-, d, ⟨hpermitted, hlocal⟩, -, hcall, hlist, hfile⟩ := hchecked.step hstep
  -- The directory at the time of the check is the directory now.
  rw [← hchecked.dir_eq] at hpermitted
  have hrecord : ∀ app ∈ c.server.apps, d.acts_on = some app.name →
      Permitted (origin_of request_info) app.corsAllowedOrigin := fun app hmem hd =>
    hpermitted app.name app.corsAllowedOrigin hd
      (List.mem_map_of_mem (f := fun app => (app.name, app.corsAllowedOrigin)) hmem)
  have hat : ∀ pos, ActsAt c.server d pos → PermittedAt c.server pos request_info := by
    rintro pos ⟨app, happ, hd⟩
    exact ⟨app, happ, hrecord app (List.mem_of_getElem? happ) hd⟩
  refine ⟨fun pos call hmem => hat pos (hcall _ hmem pos call rfl), fun pos hpos => ?_,
    fun path hpath => ?_⟩
  · obtain ⟨hacts, hd⟩ := hlist pos hpos
    exact ⟨hat pos hacts, hlocal hd⟩
  · obtain ⟨app, hmem, hpath, hname, hd⟩ := hfile path hpath
    exact ⟨⟨app, hmem, hpath, hrecord app hmem hname⟩, hlocal hd⟩

/-- The server with one application is reached by its registration. -/
theorem youtube_server_reachable : Reachable youtube_server :=
  ⟨_, _, _, _, .step (.refl _) trivial register_youtube_exec⟩

/-- The status callback of the registered application is called without an origin. -/
theorem no_bypass_status : PermittedAt youtube_server 0 status_request := by
  have hdecide : route status_request youtube_server =
      some (.status (bytes "YouTube"), [], youtube_server) := rfl
  obtain ⟨e, s, hact, hmem⟩ : ∃ e s,
      perform no_body status_request (.status (bytes "YouTube")) youtube_server = some ((), e, s) ∧
      Event.callback 0 (.status (bytes "YouTube") 0 (some false) 0) ∈ e :=
    ⟨_, _, rfl, by decide⟩
  have hc : Steps ⟨youtube_server, []⟩ ⟨youtube_server, [.decided no_body status_request _]⟩ :=
    .step (.arrive no_body status_request .refl) (.decide (i := 0) rfl hdecide)
  exact (no_bypass youtube_server_reachable hc (.act (i := 0) rfl hact)).1 _ _ hmem

end DialServer
