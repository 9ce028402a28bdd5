import DialServer.Base.LinkedList
import DialServer.Base.OrderedMap
import DialServer.DialData.Restart

/-!
# The list of applications as a map

The list of applications is a finite map from names to records, in the order of registration. A
registration inserts a record under a new name, unregistering removes the record of a name, and
`find_app` is the lookup; `Registered` are the runs of these calls together with the map. Below
that, `ListedIn` says that the list lies in memory as a linked list: there `find_app` is the walk
with two cursors, and the calls splice a node in or out at the place that the walk ends with.
-/

namespace DialServer

open CLib Program

variable {W : Type}

/-! ## The map -/

/-- The list of applications is a map from names to records. -/
abbrev Lists (s : System W) (m : OrderedMap Bytes (DIALApp W)) : Prop :=
  OrderedMap.Represents DIALApp.name s.apps m

/-- What stands at the position that `find_app` returns is the first record of the name. -/
theorem getElem?_find_app (apps : List (DIALApp W)) (app_name : Bytes) :
    apps[find_app apps app_name]? = apps.find? fun app => app.name = app_name := by
  induction apps with
  | nil => rfl
  | cons app apps ih =>
    unfold find_app
    by_cases h : app_name = app.name
    · simp [h]
    · simp [h, Ne.symm h, ih]

/-- `find_app` stops at the first record of the name. -/
theorem find_app_eq_findIdx (apps : List (DIALApp W)) (app_name : Bytes) :
    find_app apps app_name = apps.findIdx fun app => app_name = app.name := by
  induction apps with
  | nil => rfl
  | cons app apps ih =>
    rw [find_app, List.findIdx_cons]
    by_cases h : app_name = app.name
    · simp [h]
    · simp [h, ih]

/-- The runs of registrations, of calls that unregister, and of lookups, from a new server with
memory, with the map of what is registered. -/
inductive Registered : System W → OrderedMap Bytes (DIALApp W) → Prop
  | create (files world platform) :
      Registered (DIAL_create files plenty world platform) OrderedMap.empty
  | register {s t m a e app_name callbacks user_data useAdditionalData}
      {corsAllowedOrigin : AllowList} {block} : Registered s m →
      DIAL_register_app app_name callbacks user_data useAdditionalData
        (some corsAllowedOrigin.val) block s = some (a, e, t) →
      Registered t (m.insert app_name
        (new_app app_name callbacks user_data useAdditionalData corsAllowedOrigin block s.files))
  | unregister {s t m a e app_name} : Registered s m →
      DIAL_unregister_app app_name s = some (a, e, t) → Registered t (m.remove app_name)
  | find {s t m r e app_name} : Registered s m → get_app app_name s = some (r, e, t) →
      Registered t m

/-! ## The calls -/

/-- A server that has memory and whose mutex is free. -/
structure Idle (s : System W) : Prop where
  supplied : Supplied s
  free : s.mux = false

/-- The mutex of such a server is taken. -/
theorem Idle.ds_lock_eq {s : System W} (hs : Idle s) :
    ds_lock s = some (true, [.lock], { s with mux := true }) := by
  obtain ⟨apps, mux, files, supply, world, platform⟩ := s
  obtain ⟨rfl, rfl⟩ := hs
  rfl

/-- A server whose mutex is free, with the mutex free. -/
theorem Idle.with_mux {s : System W} (hs : Idle s) : { s with mux := false } = s := by
  obtain ⟨apps, mux, files, supply, world, platform⟩ := s
  obtain ⟨-, rfl⟩ := hs
  rfl

/-- What `find_app` finds with the mutex held is what it finds without it. -/
theorem get_app_eq (app_name : Bytes) (s : System W) :
    get_app app_name s =
      some ((find_app s.apps app_name, s.apps[find_app s.apps app_name]?), [], s) := rfl

/-- A registration under a name that is there changes nothing. -/
theorem register_present {s : System W} (hs : Idle s) {app_name : Bytes}
    (hmem : app_name ∈ s.apps.map DIALApp.name) (callbacks : DIALAppCallbacks W)
    (user_data : Pointer) (useAdditionalData : Bool) (corsAllowedOrigin : Option Bytes)
    (block : Block) :
    DIAL_register_app app_name callbacks user_data useAdditionalData corsAllowedOrigin block s =
      some (0, [.lock, .unlock], s) := by
  cases hfound : s.apps[find_app s.apps app_name]? with
  | none => exact absurd hmem (find_app_eq_none.mp hfound)
  | some app =>
    unfold DIAL_register_app
    rw [bind_of_some hs.ds_lock_eq]
    simp only [Bool.not_true, Bool.false_eq_true, if_false]
    rw [bind_of_some (get_app_eq _ _)]
    simp only [hfound, ds_unlock, bind_apply, modify_apply, emit_apply, pure_apply, hs.with_mux]
    rfl

/-- Unregistering a name that is not there changes nothing. -/
theorem unregister_absent {s : System W} (hs : Idle s) {app_name : Bytes}
    (habsent : app_name ∉ s.apps.map DIALApp.name) :
    DIAL_unregister_app app_name s = some (0, [.lock, .unlock], s) := by
  unfold DIAL_unregister_app
  rw [bind_of_some hs.ds_lock_eq]
  simp only [Bool.not_true, Bool.false_eq_true, if_false]
  rw [bind_of_some (get_app_eq _ _)]
  simp only [find_app_eq_none.mpr habsent, ds_unlock, bind_apply, modify_apply, emit_apply,
    pure_apply, hs.with_mux]
  rfl

/-- Unregistering a name that is there takes out the record that `find_app` finds. -/
theorem unregister_present {s : System W} (hs : Idle s) {app_name : Bytes}
    (hmem : app_name ∈ s.apps.map DIALApp.name) :
    DIAL_unregister_app app_name s = some (1, [.lock, .unlock],
      { s with apps := s.apps.eraseIdx (find_app s.apps app_name) }) := by
  cases hfound : s.apps[find_app s.apps app_name]? with
  | none => exact absurd hmem (find_app_eq_none.mp hfound)
  | some app =>
    unfold DIAL_unregister_app
    rw [bind_of_some hs.ds_lock_eq]
    simp only [Bool.not_true, Bool.false_eq_true, if_false]
    rw [bind_of_some (get_app_eq _ _)]
    simp only [hfound, ds_unlock, bind_apply, modify_apply, emit_apply, pure_apply]
    have hfree := congrArg System.mux hs.with_mux
    simp only at hfree
    rw [hfree]
    rfl

/-- Every state of such a run is idle, and its list is the map. -/
theorem Registered.lists {s : System W} {m : OrderedMap Bytes (DIALApp W)} (h : Registered s m) :
    Idle s ∧ Lists s m := by
  induction h with
  | create => exact ⟨⟨rfl, rfl⟩, OrderedMap.represents_empty _⟩
  | @register s t m a e app_name callbacks user_data useAdditionalData list block _ hcall ih =>
    obtain ⟨hidle, hlists⟩ := ih
    by_cases hmem : app_name ∈ s.apps.map DIALApp.name
    · rw [register_present hidle hmem, Option.some.injEq, Prod.mk.injEq, Prod.mk.injEq] at hcall
      obtain ⟨-, -, rfl⟩ := hcall
      rw [OrderedMap.insert_of_mem (hlists.keys_eq ▸ hmem)]
      exact ⟨hidle, hlists⟩
    · rw [register_granted hidle.supplied hidle.free hmem, Option.some.injEq, Prod.mk.injEq,
        Prod.mk.injEq] at hcall
      obtain ⟨-, -, rfl⟩ := hcall
      exact ⟨⟨hidle.supplied, hidle.free⟩, hlists.insert hmem⟩
  | @unregister s t m a e app_name _ hcall ih =>
    obtain ⟨hidle, hlists⟩ := ih
    have hremove := hlists.remove app_name
    rw [← find_app_eq_findIdx] at hremove
    by_cases hmem : app_name ∈ s.apps.map DIALApp.name
    · rw [unregister_present hidle hmem, Option.some.injEq, Prod.mk.injEq, Prod.mk.injEq] at hcall
      obtain ⟨-, -, rfl⟩ := hcall
      exact ⟨⟨hidle.supplied, hidle.free⟩, hremove⟩
    · -- There is nothing at the end of the list to be taken out.
      rw [unregister_absent hidle hmem, Option.some.injEq, Prod.mk.injEq, Prod.mk.injEq] at hcall
      obtain ⟨-, -, rfl⟩ := hcall
      rw [find_app_absent hmem, List.eraseIdx_of_length_le le_rfl] at hremove
      exact ⟨hidle, hremove⟩
  | find _ hcall ih =>
    rw [get_app_eq, Option.some.injEq, Prod.mk.injEq, Prod.mk.injEq] at hcall
    obtain ⟨-, -, rfl⟩ := hcall
    exact ih

/-- The list around the record that is found under a name. -/
theorem exists_split {apps : List (DIALApp W)} {app_name : Bytes}
    (hmem : app_name ∈ apps.map DIALApp.name) :
    ∃ before app after, apps = before ++ app :: after ∧ app.name = app_name ∧
      apps.eraseIdx (find_app apps app_name) = before ++ after := by
  induction apps with
  | nil => simp at hmem
  | cons first rest ih =>
    unfold find_app
    by_cases h : app_name = first.name
    · exact ⟨[], first, rest, rfl, h.symm, by rw [if_pos h]; rfl⟩
    · obtain ⟨before, app, after, rfl, hname, herase⟩ := ih (by simpa [h] using hmem)
      refine ⟨first :: before, app, after, rfl, hname, ?_⟩
      rw [if_neg h, List.eraseIdx_cons_succ, herase]
      rfl

/-- **The list of applications is a map.** After any registrations with an allow list that fits,
calls that unregister and lookups, with memory: the names are distinct and stand in the order of the
map; `find_app` finds the record of a name in the map, or the end of the list; a registration
returns 0 and changes nothing under a name that is there, and else returns 1 and appends its record;
unregistering returns 1 and takes out the record of a name that is there, and else returns 0 and
changes nothing. -/
theorem app_list_refines_map {s : System W} {m : OrderedMap Bytes (DIALApp W)}
    (h : Registered s m) :
    (s.apps.map DIALApp.name).Nodup ∧ s.apps.map DIALApp.name = m.keys ∧
    (∀ app_name, get_app app_name s = some ((find_app s.apps app_name, m.value app_name), [], s) ∧
      (m.value app_name = none → find_app s.apps app_name = s.apps.length)) ∧
    (∀ app_name callbacks user_data useAdditionalData (list : AllowList) block,
      DIAL_register_app app_name callbacks user_data useAdditionalData (some list.val) block s =
        if app_name ∈ s.apps.map DIALApp.name then some (0, [.lock, .unlock], s)
        else some (1, [.lock, .unlock], { s with apps := s.apps ++
          [new_app app_name callbacks user_data useAdditionalData list block s.files] })) ∧
    ∀ app_name,
      (app_name ∉ s.apps.map DIALApp.name →
        DIAL_unregister_app app_name s = some (0, [.lock, .unlock], s)) ∧
      (app_name ∈ s.apps.map DIALApp.name → ∃ before app after,
        s.apps = before ++ app :: after ∧ app.name = app_name ∧
        DIAL_unregister_app app_name s =
          some (1, [.lock, .unlock], { s with apps := before ++ after })) := by
  obtain ⟨hidle, hlists⟩ := h.lists
  have hfound : ∀ app_name, s.apps[find_app s.apps app_name]? = m.value app_name := fun app_name =>
    (getElem?_find_app _ _).trans (hlists.find?_eq app_name)
  refine ⟨hlists.keys_eq ▸ m.nodup, hlists.keys_eq, fun app_name => ⟨?_, fun hnone => ?_⟩, ?_,
    fun app_name => ⟨unregister_absent hidle, fun hmem => ?_⟩⟩
  · rw [get_app_eq, hfound]
  · exact find_app_absent (find_app_eq_none.mp ((hfound app_name).trans hnone))
  · intro app_name callbacks user_data useAdditionalData list block
    split_ifs with hmem
    · exact register_present hidle hmem _ _ _ _ _
    · exact register_granted hidle.supplied hidle.free hmem _ _ _ _ _
  · obtain ⟨before, app, after, hsplit, hname, herase⟩ := exists_split hmem
    exact ⟨before, app, after, hsplit, hname, herase ▸ unregister_present hidle hmem⟩

/-- The application is registered, and so is the second of a name refused. -/
theorem app_list_refines_map_youtube :
    youtube_server.apps.map DIALApp.name = [bytes "YouTube"] ∧
      (register_youtube (some youtube_list)).exec youtube_server =
        some ((), [.lock, .unlock], youtube_server) := by
  let list : AllowList := ⟨youtube_list, by decide⟩
  have hregister : DIAL_register_app (bytes "YouTube") toggle_callbacks 0 true (some list.val)
      zero_block new_server = some (1, [.lock, .unlock], youtube_server) := rfl
  have hregistered := Registered.register
    (Registered.create (fun _ => none) false new_server.platform) hregister
  obtain ⟨-, hnames, -, hagain, -⟩ := app_list_refines_map hregistered
  refine ⟨hnames, void_eq_some.mpr ⟨0, ?_⟩⟩
  rw [hagain (bytes "YouTube") toggle_callbacks 0 true ⟨youtube_list, by decide⟩ zero_block,
    if_pos (by decide)]

/-! ## The list in memory -/

/-- The list of applications lies in memory, with these addresses. -/
def ListedIn (memory : LinkedList.Memory (DIALApp W)) (nodes : List (ℕ × DIALApp W))
    (apps : List (DIALApp W)) : Prop :=
  LinkedList.IsList memory nodes ∧ nodes.map Prod.snd = apps

/-- `find_app` in memory: the walk comes to the place of the position of the name. -/
theorem ListedIn.find_app {memory : LinkedList.Memory (DIALApp W)} {nodes : List (ℕ × DIALApp W)}
    {apps : List (DIALApp W)} (h : ListedIn memory nodes apps) (app_name : Bytes) {fuel : ℕ}
    (hfuel : apps.length ≤ fuel) :
    LinkedList.find memory (fun app => app_name = app.name) fuel .head memory.head =
      some (LinkedList.place .head nodes (find_app apps app_name)) := by
  obtain ⟨hlist, rfl⟩ := h
  rw [LinkedList.find_eq _ hlist.chain (by simpa using hfuel), find_app_eq_findIdx,
    List.findIdx_map]
  rfl

/-- A registration in memory: a new node is linked in where the walk ends. -/
theorem ListedIn.register {memory : LinkedList.Memory (DIALApp W)} {nodes : List (ℕ × DIALApp W)}
    {apps : List (DIALApp W)} (h : ListedIn memory nodes apps) {app_name : Bytes}
    (habsent : app_name ∉ apps.map DIALApp.name) {a : ℕ} (ha : a ∉ nodes.map Prod.fst)
    (app : DIALApp W) :
    ∃ memory' nodes', LinkedList.link memory
        (LinkedList.place .head nodes (DialServer.find_app apps app_name)) a app = some memory' ∧
      ListedIn memory' nodes' (apps ++ [app]) := by
  obtain ⟨hlist, rfl⟩ := h
  have hend : DialServer.find_app (nodes.map Prod.snd) app_name = nodes.length := by
    rw [find_app_absent habsent, List.length_map]
  obtain ⟨memory', hlink, hlist'⟩ := hlist.link (k := nodes.length) le_rfl ha app
  refine ⟨memory', _, hend ▸ hlink, hlist', ?_⟩
  rw [List.insertIdx_length_self, List.map_append]
  rfl

/-- Unregistering in memory: the node where the walk ends is unlinked. -/
theorem ListedIn.unregister {memory : LinkedList.Memory (DIALApp W)}
    {nodes : List (ℕ × DIALApp W)} {apps : List (DIALApp W)} (h : ListedIn memory nodes apps)
    {app_name : Bytes} (hmem : app_name ∈ apps.map DIALApp.name) :
    ∃ memory' nodes', LinkedList.unlink memory
        (LinkedList.place .head nodes (DialServer.find_app apps app_name)) = some memory' ∧
      ListedIn memory' nodes' (apps.eraseIdx (DialServer.find_app apps app_name)) := by
  obtain ⟨hlist, rfl⟩ := h
  have hlt : DialServer.find_app (nodes.map Prod.snd) app_name < nodes.length := by
    rw [find_app_eq_idxOf]
    simpa using List.idxOf_lt_length_of_mem hmem
  obtain ⟨memory', hunlink, hlist'⟩ := hlist.unlink hlt
  exact ⟨memory', _, hunlink, hlist', (List.eraseIdx_map ..).symm⟩

end DialServer
