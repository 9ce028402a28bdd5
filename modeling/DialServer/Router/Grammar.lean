import DialServer.Router.Decisions
import DialServer.Server.Runs
import DialServer.Text.AppName

/-!
# The grammar of the DIAL resources

The URIs that DIAL gives an application and what the router makes of them. For these URIs the name
that the router cuts out is the name of the application. The branches for `/run` and `/hide` test
the end of the URI and cut the name out by its length, and the branch for dial data looks for its
text anywhere, so that other URIs reach them as well: `router_grammar_iff` says which.
-/

namespace DialServer

open CLib Program

variable {W : Type}

/-- A name of an application in a URI. -/
def Named (n : Bytes) : Prop := n ≠ [] ∧ chr '/' ∉ n

/-- The resource of an application. -/
def app_uri (n : Bytes) : Bytes := APPS_URI ++ n

/-- The resource of its run. -/
def run_uri (n : Bytes) : Bytes := app_uri n ++ RUN_URI

/-- The resource that hides its run. -/
def hide_uri (n : Bytes) : Bytes := run_uri n ++ HIDE_URI

/-- The resource of its dial data. -/
def dial_data_uri (n : Bytes) : Bytes := app_uri n ++ DIAL_DATA_URI

/-- The URI is the resource of what the decision is for. -/
def InGrammar (uri : Bytes) : Decision → Prop
  | .error .. | .options .. => True
  | .start n | .status n => Named n ∧ uri = app_uri n
  | .stop n => Named n ∧ uri = run_uri n
  | .hide n => Named n ∧ uri = hide_uri n
  | .dial_data n _ => Named n ∧ uri = dial_data_uri n

/-! ## The names that are cut out -/

/-- The buffer of the name has 256 characters. -/
theorem copied_name_length (uri : Bytes) (cut : ℕ) : (copied_name uri cut).length ≤ 255 := by
  unfold copied_name
  simp only
  split_ifs <;> simp only [List.length_take] <;> omega

/-- The copied name is not empty when the URI is long enough. -/
theorem copied_name_ne_nil {uri : Bytes} {cut : ℕ} (h : cut + APPS_URI.length < uri.length) :
    copied_name uri cut ≠ [] := by
  rw [ne_eq, ← List.length_eq_zero_iff]
  unfold copied_name
  simp only
  split_ifs <;> simp only [List.length_take, List.length_drop] <;> omega

/-- What the copy finds between the prefix and the suffix. -/
theorem copied_name_eq {n suffix : Bytes} (h : n.length ≤ 255) :
    copied_name (APPS_URI ++ n ++ suffix) suffix.length = n := by
  have hlen : (APPS_URI ++ n ++ suffix).length - suffix.length - APPS_URI.length = n.length := by
    simp only [List.length_append]
    omega
  unfold copied_name
  simp only [hlen]
  rw [if_neg (by omega), List.append_assoc, List.drop_left, List.take_left]

/-- The name that is cut out of the resource of a run. -/
theorem copied_name_run_uri {n : Bytes} (h : n.length ≤ 255) :
    copied_name (run_uri n) RUN_URI.length = n :=
  copied_name_eq h

/-- The name that is cut out of the resource that hides a run. -/
theorem copied_name_hide_uri {n : Bytes} (h : n.length ≤ 255) :
    copied_name (hide_uri n) (RUN_URI.length + HIDE_URI.length) = n := by
  rw [← List.length_append]
  unfold hide_uri run_uri
  rw [List.append_assoc]
  exact copied_name_eq h

/-- The name that is parsed out of the resource of dial data. -/
theorem parse_app_name_dial_data_uri {n : Bytes} (h : chr '/' ∉ n) (supply : Supply) :
    parse_app_name (some (dial_data_uri n)) supply =
      some (if supply 0 then some n else none, [], supply.after 1) := by
  have huri : dial_data_uri n = app_uri n ++ chr '/' :: bytes "dial_data" := rfl
  have hback : scan_back (app_uri n).reverse [] = n := by
    have hrev : (app_uri n).reverse = n.reverse ++ chr '/' :: (bytes "/apps").reverse := by
      simp only [app_uri, List.reverse_append]
      rfl
    rw [hrev, scan_back_eq (by simpa using h), List.reverse_reverse, List.append_nil]
  have hne : app_uri n ≠ [] := by simp [app_uri, APPS_URI, bytes]
  rw [huri, parse_app_name_slash (by decide), hback, if_neg hne]

/-- A parsed name is always found when there is memory for it. -/
theorem parse_app_name_plenty (uri : Bytes) :
    ∃ n, parse_app_name (some uri) plenty = some (some n, [], plenty) := by
  unfold parse_app_name
  cases h : strrchr uri (chr '/') with
  | none =>
    simp only [h]
    exact ⟨unknown_str, rfl⟩
  | some slash =>
    simp only [h]
    split_ifs
    · exact ⟨unknown_str, rfl⟩
    · exact ⟨_, rfl⟩

/-! ## The grammar -/

/-- A URI and a method for which the router acts, if it acts, on the resource that the URI names:
the branches for the run and for hiding act on one method only, the branch for dial data on all but
one. -/
def Resource (uri method : Bytes) : Prop :=
  match shape_of uri with
  | .run => method = bytes "DELETE" → ∃ n, Named n ∧ n.length ≤ 255 ∧ uri = run_uri n
  | .hide => method = bytes "POST" → ∃ n, Named n ∧ n.length ≤ 255 ∧ uri = hide_uri n
  | .dial_data => method ≠ bytes "OPTIONS" → ∃ n, Named n ∧ uri = dial_data_uri n
  | .app | .unknown => True

/-- The tests of the branch for `/apps/` are the grammar. -/
theorem shape_of_eq_app {uri : Bytes} (h : shape_of uri = .app) :
    Named (uri.drop APPS_URI.length) ∧ uri = app_uri (uri.drop APPS_URI.length) := by
  unfold shape_of at h
  split_ifs at h with hrun happ
  obtain ⟨hlen, hprefix, hslash⟩ := happ
  obtain ⟨n, rfl⟩ := strncmp_eq_length.mp hprefix
  rw [List.drop_left] at hslash ⊢
  refine ⟨⟨?_, strchr_eq_none.mp hslash⟩, rfl⟩
  rintro rfl
  simp at hlen

/-- A URI that passes the test for a suffix is longer than the test asks for. -/
theorem ends_with_length {uri suffix : Bytes} {least : ℕ} (h : ends_with uri suffix least = true) :
    least < uri.length := by
  unfold ends_with at h
  rw [Bool.and_eq_true, decide_eq_true_eq] at h
  exact h.1

/-- A URI for the branch of the run has something between the lengths of prefix and suffix. -/
theorem shape_of_eq_run {uri : Bytes} (h : shape_of uri = .run) :
    RUN_URI.length + APPS_URI.length < uri.length := by
  unfold shape_of at h
  split_ifs at h with hrun
  exact ends_with_length hrun

/-- The same for the branch that hides. -/
theorem shape_of_eq_hide {uri : Bytes} (h : shape_of uri = .hide) :
    RUN_URI.length + HIDE_URI.length + APPS_URI.length < uri.length := by
  unfold shape_of at h
  split_ifs at h with hrun happ hhide
  have hlength := ends_with_length hhide
  omega

/-- A request from the local host, without headers. -/
def local_request (uri method : Bytes) : mg_request_info :=
  ⟨method, uri, none, ⟨127, 0, 0, 1⟩, ⟨127, 0, 0, 1⟩, []⟩

/-- Without an origin every request passes the check. -/
theorem passes_of_no_origin {request_info : mg_request_info}
    (h : origin_of request_info = none) (app_name : Bytes) (s : System W) :
    Passes request_info app_name s := by
  refine ⟨[], s, ?_⟩
  unfold origin_refused
  rw [if_pos h]
  rfl

/-- **The grammar of the router.** For every URI and method, all that the router can decide is in
the grammar, whatever the rest of the request and the state of the server, if and only if the URI
and the method are of a resource. -/
theorem router_grammar_iff [Inhabited W] (uri method : Bytes) :
    (∀ (request_info : mg_request_info) (s t : System W) (e : List Event) (d : Decision),
      request_info.uri = uri → request_info.request_method = method →
      route request_info s = some (d, e, t) → InGrammar uri d) ↔ Resource uri method := by
  constructor
  · -- A request without an origin passes every check, so that its branch comes to act.
    intro h
    let s : System W := DIAL_create (fun _ => none) plenty default ⟨0, fun _ => false⟩
    have hpass : ∀ (app_name : Bytes) (r : System W),
        Passes (local_request uri method) app_name r := passes_of_no_origin rfl
    unfold Resource
    cases hshape : shape_of uri with
    | run =>
      intro hmethod
      have hlen := shape_of_eq_run hshape
      obtain ⟨e, t, hroute⟩ := @route_stop_eq W (local_request uri method) s hshape
        (copied_name_ne_nil hlen) hmethod (hpass _ s)
      obtain ⟨hnamed, huri⟩ := h _ _ _ _ _ rfl rfl hroute
      exact ⟨_, hnamed, copied_name_length _ _, huri⟩
    | hide =>
      intro hmethod
      have hlen := shape_of_eq_hide hshape
      obtain ⟨e, t, hroute⟩ := @route_hide_eq W (local_request uri method) s hshape
        (copied_name_ne_nil hlen) hmethod (hpass _ s)
      obtain ⟨hnamed, huri⟩ := h _ _ _ _ _ rfl rfl hroute
      exact ⟨_, hnamed, copied_name_length _ _, huri⟩
    | dial_data =>
      intro hmethod
      obtain ⟨n, hparse⟩ := parse_app_name_plenty uri
      have hlocal : IsLocal (local_request uri method) := by
        change gLocalhost <+: inet_ntop ⟨127, 0, 0, 1⟩
        decide
      obtain ⟨e, t, hroute⟩ := route_dial_data_eq (s := s) hshape hlocal hparse hmethod (hpass _ _)
      exact ⟨n, h _ _ _ _ _ rfl rfl hroute⟩
    | app => trivial
    | unknown => trivial
  · -- A decision comes with the shape of the URI and the method, which give its resource.
    rintro h request_info s t e d rfl rfl hroute
    unfold Resource at h
    cases route_cases hroute with
    | refusal hd => cases d <;> simp_all [Decision.acts_on, InGrammar]
    | stop hshape hn _ hmethod =>
      rw [hshape] at h
      obtain ⟨n', hnamed, hlen, huri⟩ := h hmethod
      rw [huri, copied_name_run_uri hlen] at hn
      exact ⟨hn ▸ hnamed, hn ▸ huri⟩
    | start hshape hn => exact hn ▸ shape_of_eq_app hshape
    | status hshape hn => exact hn ▸ shape_of_eq_app hshape
    | hide hshape hn _ hmethod =>
      rw [hshape] at h
      obtain ⟨n', hnamed, hlen, huri⟩ := h hmethod
      rw [huri, copied_name_hide_uri hlen] at hn
      exact ⟨hn ▸ hnamed, hn ▸ huri⟩
    | @dial_data n _ _ hshape _ hparse hmethod =>
      rw [hshape] at h
      obtain ⟨n', hnamed, huri⟩ := h hmethod
      rw [huri, parse_app_name_dial_data_uri hnamed.2] at hparse
      obtain rfl : n' = n := by
        simp only [Option.some.injEq, Prod.mk.injEq] at hparse
        split_ifs at hparse with hgranted
        · exact Option.some.inj hparse.1
        · exact hparse.1.elim
      exact ⟨hnamed, huri⟩

/-- A `DELETE` of a URI outside `/apps/` stops the application whose name stands behind the sixth
character. -/
theorem stop_outside_grammar :
    (∃ e t, route (local_request (bytes "/abcd/YouTube/run") (bytes "DELETE")) youtube_server =
      some (.stop (bytes "YouTube"), e, t)) ∧
    ¬InGrammar (bytes "/abcd/YouTube/run") (.stop (bytes "YouTube")) :=
  ⟨⟨_, _, rfl⟩, fun h => absurd h.2 (by decide)⟩

end DialServer
