import DialServer.Device.Confinement
import DialServer.Device.YouTube

/-!
# From the wire to the manager

A start request for a configured application is followed from the connection it arrives on to the
calls of the manager. `runDial` registers the entries with known handlers under their names, in
their order (`registered_entries`), so that the record that the request comes to has the callbacks
of its entry, and those launch the callsign of the entry.
-/

set_option maxRecDepth 8000

namespace DialServer

open CLib Program DIALStatus

/-! ## The registrations of a configuration -/

/-- What a record is registered with: its name, its allow list, its callbacks, its data, and whether
it uses additional data. -/
abbrev Listing := Bytes × Bytes × DIALAppCallbacks World × Pointer × Bool

/-- The listing of a record. -/
def listing (app : DIALApp World) : Listing :=
  (app.name, app.corsAllowedOrigin.val, app.callbacks, app.callback_data, app.useAdditionalData)

/-- The listing of an entry, if it has a known handler. -/
def entry_listing (build : Build) (entry : appInfo) : Option Listing :=
  entry.handler.bind fun handler => (app_handler build handler).bind fun (callbacks, list) =>
    entry.name.map fun name => (name, list, callbacks, 0, true)

section Registrations

variable {build : Build} {blocks : ℕ → Block} {entries : List appInfo} {s t : System World}

/-- It is under the name of the entry. -/
theorem entry_listing_name {entry : appInfo} {r : Listing}
    (h : entry_listing build entry = some r) : entry.name = some r.1 := by
  obtain ⟨handler, -, h⟩ := Option.bind_eq_some_iff.mp h
  obtain ⟨⟨callbacks, list⟩, -, h⟩ := Option.bind_eq_some_iff.mp h
  obtain ⟨name, hname, rfl⟩ := Option.map_eq_some_iff.mp h
  exact hname

/-- What the loop does at an entry with a name that is new. -/
theorem register_entry_new {temp : appInfo} {block : Block} {result : Option ℤ} {e : List Event}
    (hidle : Idle s) (hnew : ∀ app ∈ s.apps, temp.name ≠ some app.name)
    (h : register_entry build temp block s = some (result, e, t)) :
    t.apps.map listing = s.apps.map listing ++ (entry_listing build temp).toList := by
  unfold register_entry at h
  unfold entry_listing
  cases hhandler : temp.handler with
  | none => simp [hhandler] at h
  | some handler =>
    simp only [hhandler] at h
    cases hknown : app_handler build handler with
    | none =>
      simp only [hknown, pure_apply, Option.some.injEq, Prod.mk.injEq] at h
      simp [← h.2.2, hknown]
    | some found =>
      obtain ⟨callbacks, list⟩ := found
      simp only [hknown] at h
      cases hname : temp.name with
      | none => simp [hname] at h
      | some name =>
        simp only [hname] at h
        have habsent : name ∉ s.apps.map DIALApp.name := by
          intro hmem
          obtain ⟨app, happ, rfl⟩ := List.mem_map.mp hmem
          exact hnew app happ hname
        rw [bind_of_some (register_granted hidle.supplied hidle.free habsent callbacks 0 true
          ⟨list, app_handler_fits hknown⟩ block)] at h
        simp only [pure_apply, Option.map_some, Option.some.injEq, Prod.mk.injEq] at h
        simp [← h.2.2, hknown, listing, new_app]

/-- With memory and distinct names, the records at a position of the loop are those of the entries
before it that have known handlers, in their order. -/
theorem registered_entries {i : ℕ} (hs : s.apps = []) (hidle : Idle s)
    (hnodup : (entries.map appInfo.name).Nodup) (hle : i ≤ entries.length)
    (h : ReachesEntry build blocks entries s i t) :
    t.apps.map listing = (entries.take i).filterMap (entry_listing build) := by
  induction i generalizing t with
  | zero =>
    obtain ⟨e, h⟩ := h
    simp only [List.take_zero, register_entries, if_true, pure_apply, Option.some.injEq,
      Prod.mk.injEq, true_and] at h
    simp [← h.2, hs]
  | succ i ih =>
    obtain ⟨r, result, e, hbefore, hentry⟩ := h.succ hle
    have hrecords := ih (by omega) hbefore
    have htake := List.take_succ_eq_append_getElem hle
    have hnew : ∀ app ∈ r.apps, entries[i].name ≠ some app.name := by
      intro app happ hname
      -- The record is that of an entry before, which has another name.
      have hmem := List.mem_map_of_mem (f := listing) happ
      rw [hrecords, List.mem_filterMap] at hmem
      obtain ⟨other, hother, hlisting⟩ := hmem
      have hsame : other.name = entries[i].name := (entry_listing_name hlisting).trans hname.symm
      have hdistinct := (hnodup.sublist ((List.take_sublist (i + 1) entries).map appInfo.name))
      rw [htake, List.map_append, List.nodup_append] at hdistinct
      exact hdistinct.2.2 _ (List.mem_map_of_mem hother) _ (by simp) hsame
    rw [register_entry_new (hbefore.idle hidle (by omega)) hnew hentry, hrecords, htake,
      List.filterMap_append]
    cases hlisting : entry_listing build entries[i] <;> simp [hlisting]

section Distinct

variable {app : appInfo} {n : Bytes}

/-- With distinct names the callbacks of a name find its only entry. -/
theorem entry_of_distinct (hnodup : (entries.map appInfo.name).Nodup) (hmem : app ∈ entries)
    (hname : app.name = some n) : entry_of entries n = some app := by
  obtain ⟨first, hfirst⟩ := entry_of_named hmem hname
  obtain ⟨pos, hpos, hget⟩ := Option.bind_eq_some_iff.mp hfirst
  obtain ⟨⟨entry, hentry, hname'⟩, -⟩ := first_entry_eq_some.mp hpos
  obtain rfl : entry = first := Option.some.inj (hentry.symm.trans hget)
  rw [hfirst, List.inj_on_of_nodup_map hnodup (List.mem_of_getElem? hget) hmem
    (hname'.trans hname.symm)]

/-- So that no entry stands before another of its name. -/
theorem firstKnown_distinct (hnodup : (entries.map appInfo.name).Nodup) :
    FirstKnown build entries := by
  intro entry hentry hknown name hname i first hfirst hget
  have hof : entry_of entries name = some first :=
    Option.bind_eq_some_iff.mpr ⟨i, hfirst, hget⟩
  rw [entry_of_distinct hnodup hentry hname] at hof
  exact Option.some.inj hof ▸ hknown

/-- The record that is found under the name of an entry with a known handler is that of the entry.
-/
theorem record_of_entry (hs : s.apps = []) (hidle : Idle s)
    (hnodup : (entries.map appInfo.name).Nodup)
    (hreturn : ReachesEntry build blocks entries s entries.length t) (hmem : app ∈ entries)
    {r : Listing} (hr : entry_listing build app = some r) :
    ∃ record, t.apps[find_app t.apps r.1]? = some record ∧ listing record = r := by
  have hrecords : t.apps.map listing = entries.filterMap (entry_listing build) := by
    rw [registered_entries hs hidle hnodup le_rfl hreturn, List.take_length]
  have hlisted : r ∈ t.apps.map listing := hrecords ▸ List.mem_filterMap.mpr ⟨app, hmem, hr⟩
  obtain ⟨other, hother, hlisting⟩ := List.mem_map.mp hlisted
  have hother_name : other.name = r.1 := congrArg Prod.fst hlisting
  cases hfound : t.apps[find_app t.apps r.1]? with
  | none =>
    exact absurd (List.mem_map.mpr ⟨other, hother, hother_name⟩) (find_app_eq_none.mp hfound)
  | some record =>
    refine ⟨record, rfl, ?_⟩
    -- What is found has the name, so that it is the record of the same entry.
    have hmem' := List.mem_map_of_mem (f := listing) (List.mem_of_getElem? hfound)
    rw [hrecords, List.mem_filterMap] at hmem'
    obtain ⟨entry, hentry, hr'⟩ := hmem'
    have hsame : entry.name = app.name := by
      rw [entry_listing_name hr', entry_listing_name hr]
      exact congrArg some (find_app_name hfound)
    obtain rfl := List.inj_on_of_nodup_map hnodup hentry hmem hsame
    exact Option.some.inj (hr'.symm.trans hr)

end Distinct

end Registrations

/-! ## The launch -/

section Launch

variable {build : Build} {entries : List appInfo} {app : appInfo} {n callsign : Bytes} {w : World}

/-- A record with the callbacks of YouTube launches its entry: the state is asked for, which makes
no deep link, and then the start makes one, and both are about the entry. -/
theorem launch_youtube (hw : Confined build entries w) (hactive : w.device._passivemode = false)
    (hnamed : AllNamed entries) (hentry : entry_of entries n = some app)
    (hcallsign : app.callsign = some callsign) (hhandler : app.handler = some (bytes "YouTube"))
    (body additionalDataUrl : Bytes) (query : Option Bytes) (run_id callback_data : Pointer) :
    let asked := (cb_yt build).status_cb n run_id none callback_data w
    let started := (cb_yt build).start_cb n body query additionalDataUrl run_id callback_data
      asked.2.2
    started.1 = kDIALStatusRunning ∧ ∃ made, started.2.2.made = w.made ++ made ∧
      deep_links made = [launch_url (youtube_url app.url body additionalDataUrl)] ∧
      ∀ x ∈ made, About callsign x.1 := by
  intro asked started
  obtain ⟨⟨status, canStop⟩, e₁, d₁, hstatus, hvalid₁, habout₁⟩ :=
    (behaves_other build hnamed hentry hcallsign none).2.2 w.device hw.valid
  have hmode : d₁._passivemode = false :=
    ((keeps_cache_other build n none).2.2 _ _ _ _ hstatus hw.valid).2.trans hactive
  have hasked : asked.2.2 = { w with device := d₁, made := w.made ++ e₁ } := by
    show (w.run (status_current build n none) (kDIALStatusError, none)).2 = _
    simp only [World.run, hstatus]
  have hquiet : deep_links e₁ = [] := by
    obtain ⟨-, -, c, hquery, rfl⟩ := status_current_replies hw.valid hentry hstatus
    exact @deep_links_eq_nil [.query] (by decide) _ (by simp [hquery])
  -- The search makes the entry the current one, and it is ready to be launched.
  have hmatch := @matchAppInfo_eq entries n d₁ hvalid₁ hnamed
  obtain ⟨-, hcurrent, -, hmode'⟩ := match_entry_of hvalid₁ hentry hmatch
  obtain ⟨made, d₂, hstart, hlink⟩ := @youtube_start_deep_links app n callsign body
    additionalDataUrl d₁ _ build hmatch ⟨hcurrent, hcallsign, hhandler, hmode'.trans hmode⟩
  have hstarted : started = (kDIALStatusRunning, run_id,
      { w with device := d₂, made := w.made ++ e₁ ++ made }) := by
    show (cb_yt build).start_cb n body query additionalDataUrl run_id callback_data asked.2.2 = _
    rw [hasked]
    simp only [cb_yt, device_callbacks, World.run, hstart]
  obtain ⟨_, e₂, _, hstart', -, habout₂⟩ :=
    (behaves_start build hnamed hentry hcallsign hhandler body additionalDataUrl).1 d₁ hvalid₁
  rw [hstart, Option.some.injEq, Prod.mk.injEq, Prod.mk.injEq] at hstart'
  obtain ⟨-, rfl, -⟩ := hstart'
  rw [hstarted]
  refine ⟨rfl, e₁ ++ made, List.append_assoc _ _ _, ?_, fun x hx => ?_⟩
  · rw [deep_links_append, hquiet, hlink, List.nil_append]
  · exact (List.mem_append.mp hx).elim (habout₁ x) (habout₂ x)

/-- The allow list of YouTube fits into a record, as all those of `runDial` do. -/
theorem youtube_list_fits : youtube_list.length < 256 :=
  have hhandler : app_handler .appman (bytes "YouTube") = some (cb_yt .appman, youtube_list) :=
    if_pos rfl
  app_handler_fits hhandler

/-- The allow list of YouTube in a record. -/
def youtube_allow_list : AllowList := ⟨youtube_list, youtube_list_fits⟩

/-- The listing of an entry for YouTube. -/
theorem entry_listing_youtube (hname : app.name = some n)
    (hhandler : app.handler = some (bytes "YouTube")) :
    entry_listing build app = some (n, youtube_allow_list.val, cb_yt build, 0, true) := by
  simp [entry_listing, hhandler, hname, app_handler, youtube_allow_list, youtube_list]

/-- What one record of a directory allows, the directory allows. -/
theorem origin_allowed_of_mem {dir : List (Bytes × AllowList)} {record : Bytes × AllowList}
    (hmem : record ∈ dir) {origin_header : Option Bytes}
    (h : origin_allowed [record] origin_header n = true) :
    origin_allowed dir origin_header n = true := by
  cases origin_header with
  | none => rfl
  | some origin =>
    simp only [origin_allowed, List.any_cons, List.any_nil, Bool.or_false, Bool.or_eq_true] at h ⊢
    exact h.imp id fun hallows => List.any_eq_true.mpr ⟨record, hmem, hallows⟩

/-- **A start of YouTube is delivered, from the wire to the manager.** Take a device in the active
mode whose entries are filled in and have distinct names, one of them for YouTube. The server comes
up on it, and serves any connections, with anything on them. A start request for that entry which
then arrives, in whatever segments, from an origin that the allow list of YouTube has and with a
body that may be passed, is answered 2xx; the calls of the manager that it makes are about that
entry only, and they have one deep link: the URL of the entry, with the body of the request and the
place of its additional data. -/
theorem youtube_launch_delivered {blocks : ℕ → Block} {s : System World} {d : Device}
    (hstarts : StartsOn d s) (hsupplied : Supplied s)
    (hlist : d.appInfoList = some ⟨entries, none⟩) (hcurrent : d.curAppForDial = none)
    (hactive : d._passivemode = false) (hfilled : ∀ entry ∈ entries, FilledIn build entry)
    (hnodup : (entries.map appInfo.name).Nodup) (hmem : app ∈ entries) (hn : LinkName n)
    (hname : app.name = some n) (hhandler : app.handler = some (bytes "YouTube"))
    (hcallsign : app.callsign = some callsign) (before : List Incoming) {m : Message}
    {query : Option Bytes} {body rest : Bytes} {local_addr remote_addr : InAddr}
    (hm : StartsApp m n query body local_addr remote_addr) {pending : List Bytes}
    (hlive : Live pending) (harrives : pending.flatten = m.print ++ (body ++ rest))
    (hmay : MayStart [(n, youtube_allow_list)] (origin_of (m.info local_addr remote_addr)) n body) :
    ∃ e₀ t e₁ u e v, runDial build blocks s = some ((), e₀, t) ∧
      serve_all before t = some ((), e₁, u) ∧
      serve_connection (some local_addr) remote_addr pending u = some ((), e, v) ∧
      answered_2xx e = true ∧ ∃ made, v.world.made = u.world.made ++ made ∧
        deep_links made =
          [launch_url (youtube_url app.url body (additional_data_param true t.platform.port n))] ∧
        ∀ x ∈ made, About callsign x.1 := by
  obtain ⟨e₀, t, hrun, hreturn⟩ := runDial_reaches hstarts hlist hfilled blocks
  obtain ⟨hnone, hidle, hworld⟩ := hstarts.confined hsupplied hlist hcurrent build
  obtain ⟨e₁, u, hbefore, hu, hsetting, hconfined, hmode, -, -⟩ :=
    serve_all_confined hnone hidle hworld hreturn hfilled (firstKnown_distinct hnodup) before
  have hactive' : u.world.device._passivemode = false := by
    obtain ⟨files, supply, platform, rfl⟩ := hstarts
    exact hmode.trans hactive
  -- The record that the request comes to is that of the entry, also after the connections before.
  obtain ⟨record, hfound, hrecord⟩ := record_of_entry hnone hidle hnodup hreturn hmem
    (@entry_listing_youtube build _ _ hname hhandler)
  obtain ⟨-, record', hfound', hregistration⟩ := app_of_setting hsetting hfound
  simp only [registration, Prod.mk.injEq] at hregistration
  obtain ⟨hname', hallow, hcallbacks, hdata, hadditional⟩ := hregistration
  simp only [listing, Prod.mk.injEq] at hrecord
  obtain ⟨hrecord_name, hrecord_list, hrecord_callbacks, hrecord_data, hrecord_additional⟩ :=
    hrecord
  obtain ⟨-, hplatform⟩ := Prod.mk.inj hsetting
  have hallowed : origin_allowed (directory u) (origin_of (m.info local_addr remote_addr)) n =
      true := by
    have hlisted : (n, youtube_allow_list) ∈ directory u := by
      refine List.mem_map.mpr ⟨record', List.mem_of_getElem? hfound', ?_⟩
      rw [hname', hrecord_name, hallow]
      exact congrArg (Prod.mk n) (Subtype.ext hrecord_list)
    exact origin_allowed_of_mem hlisted hmay.allowed
  obtain ⟨conn, hserve, hbody⟩ := @StartsApp.served World _ _ _ _ _ _ _ _ hm hlive harrives
  obtain ⟨e, v, hhandle, -, hanswer, hafter, -⟩ :=
    handle_request_starts hu hn hm.for_path hm.method (normalise_query hn.app_no_query hm.uri)
      hbody hfound' ⟨hallowed, hmay.admitted⟩
  have hresult : launch_result u n body query record' =
      (cb_yt build).start_cb n body query (additional_data_param true t.platform.port n)
        record'.run_id 0
        ((cb_yt build).status_cb n record'.run_id none 0 u.world).2.2 := by
    rw [launch_result, hcallbacks, hrecord_callbacks, hdata, hrecord_data, hadditional,
      hrecord_additional, hplatform]
  obtain ⟨hrunning, made, hmade, hlink, habout⟩ := launch_youtube hconfined hactive'
    (fun entry hentry => (hfilled entry hentry).name) (entry_of_distinct hnodup hmem hname)
    hcallsign hhandler body (additional_data_param true t.platform.port n) query record'.run_id 0
  refine ⟨e₀, t, e₁, u, e, v, hrun, hbefore, hserve ▸ hhandle, ?_, made, ?_, hlink, habout⟩
  · rw [hanswer, hresult, hrunning]
  · rw [hafter, hresult, hmade]

end Launch

/-- On the configured device, with the application manager: the video of the message is launched
at the URL of the configuration. -/
theorem youtube_launch_delivered_video : ∃ e₀ t e₁ u e v,
    runDial .appman zero_blocks (device_server configured_device) = some ((), e₀, t) ∧
      serve_all nonsense t = some ((), e₁, u) ∧
      serve_connection (some ⟨10, 0, 0, 1⟩) ⟨10, 0, 0, 2⟩ [launch_message.print ++ bytes "v=1"] u =
        some ((), e, v) ∧
      answered_2xx e = true ∧ ∃ made, v.world.made = u.world.made ++ made ∧
        deep_links made = [launch_url (youtube_url (some (bytes "https://www.youtube.com/tv"))
          (bytes "v=1") (additional_data_param true t.platform.port (bytes "YouTube")))] := by
  have hm : StartsApp launch_message (bytes "YouTube") (some (bytes "friendlyName=TV"))
      (bytes "v=1") ⟨10, 0, 0, 1⟩ ⟨10, 0, 0, 2⟩ :=
    ⟨rfl, rfl, by decide, rfl, by decide⟩
  have hlive : Live [launch_message.print ++ bytes "v=1"] := by simp [Live, bytes]
  have harrives : [launch_message.print ++ bytes "v=1"].flatten =
      launch_message.print ++ (bytes "v=1" ++ []) := by simp
  have hallowed : origin_allowed [(bytes "YouTube", youtube_allow_list)]
      (some (bytes "package:com.google.android.youtube")) (bytes "YouTube") = true := by
    decide
  have hadmitted : Admitted (bytes "v=1") (some (bytes "package:com.google.android.youtube"))
      (bytes "YouTube") := ⟨by decide, by decide, .inl (by simp)⟩
  obtain ⟨e₀, t, e₁, u, e, v, hrun, hbefore, hserve, hanswer, made, hmade, hlink, -⟩ :=
    @youtube_launch_delivered .appman [netflix_info, youtube_info] youtube_info (bytes "YouTube")
      (bytes "youtube") zero_blocks (device_server configured_device) configured_device
      ⟨_, _, _, rfl⟩ rfl rfl rfl rfl (configured_filled .appman) (by decide) (by simp)
      link_name_youtube rfl rfl rfl nonsense _ _ _ _ _ _ hm _ hlive harrives ⟨hallowed, hadmitted⟩
  exact ⟨e₀, t, e₁, u, e, v, hrun, hbefore, hserve, hanswer, made, hmade, hlink⟩

end DialServer
