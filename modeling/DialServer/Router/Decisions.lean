import DialServer.Source.Router

/-!
# The decisions of the router

`Routed` is what `route` can decide: nothing that concerns an application, or one of the five
actions, each for one shape of URI, with the conditions under which the code comes to it.
`route_cases` reads a decision back into these conditions, and the `route_*_eq` give the decision
from them.
-/

namespace DialServer

open CLib Program

variable {W : Type}

/-- The application that a decision names, if it names one. -/
def Decision.acts_on : Decision → Option Bytes
  | .start n | .status n | .stop n | .hide n | .dial_data n _ => some n
  | .error .. | .options .. => none

/-- The decision is for dial data. -/
def Decision.is_dial_data : Decision → Bool
  | .dial_data .. => true
  | _ => false

/-- The peer's address begins with that of the local host. -/
def IsLocal (request_info : mg_request_info) : Prop :=
  gLocalhost <+: inet_ntop request_info.remote_addr

/-- The origin check lets the request through. -/
def Passes (request_info : mg_request_info) (app_name : Bytes) (s : System W) : Prop :=
  ∃ e t, origin_refused (origin_of request_info) app_name s = some (false, e, t)

/-- What the router can decide. -/
inductive Routed (request_info : mg_request_info) (s : System W) : Decision → Prop
  | refusal {d} : d.acts_on = none → Routed request_info s d
  | stop {n} : shape_of request_info.uri = .run → n = copied_name request_info.uri RUN_URI.length →
      n ≠ [] → request_info.request_method = bytes "DELETE" → Passes request_info n s →
      Routed request_info s (.stop n)
  | start {n} : shape_of request_info.uri = .app → n = request_info.uri.drop APPS_URI.length →
      request_info.request_method = bytes "POST" → Passes request_info n s →
      Routed request_info s (.start n)
  | status {n} : shape_of request_info.uri = .app → n = request_info.uri.drop APPS_URI.length →
      request_info.request_method = bytes "GET" → Passes request_info n s →
      Routed request_info s (.status n)
  | hide {n} : shape_of request_info.uri = .hide →
      n = copied_name request_info.uri (RUN_URI.length + HIDE_URI.length) →
      n ≠ [] → request_info.request_method = bytes "POST" → Passes request_info n s →
      Routed request_info s (.hide n)
  | dial_data {n e supply} : shape_of request_info.uri = .dial_data → IsLocal request_info →
      parse_app_name (some request_info.uri) s.supply = some (some n, e, supply) →
      request_info.request_method ≠ bytes "OPTIONS" → Passes request_info n { s with supply } →
      Routed request_info s (.dial_data n (request_info.request_method = bytes "POST"))

section Cases

variable {request_info : mg_request_info} {s t : System W} {e : List Event} {d : Decision}

/-- A branch that ends in a decision ends in that one. -/
theorem decision_eq {d' : Decision} (h : (pure d' : Server W Decision) s = some (d, e, t)) :
    d' = d := by
  simp only [pure_apply, Option.some.injEq, Prod.mk.injEq] at h
  exact h.1

/-- A check that does not refuse lets the request through. -/
theorem passes_of_check {app_name : Bytes} {refused : Bool}
    (h : origin_refused (origin_of request_info) app_name s = some (refused, e, t))
    (hrefused : ¬refused = true) : Passes request_info app_name s := by
  rw [Bool.not_eq_true] at hrefused
  exact ⟨e, t, hrefused ▸ h⟩

/-- The branch for the run stops, or acts on nothing. -/
theorem route_run_cases (hshape : shape_of request_info.uri = .run)
    (h : route_run request_info (origin_of request_info) s = some (d, e, t)) :
    Routed request_info s d := by
  obtain ⟨refused, e₁, r, e₂, h₁, h₂, -⟩ := bind_eq_some.mp h
  -- The check refuses, the method asks for the options, or it is the one that stops, or another.
  split_ifs at h₂ with hrefused hoptions hdelete <;> obtain rfl := decision_eq h₂
  · exact .refusal rfl
  · exact .refusal rfl
  · exact .stop hshape rfl hdelete.1 hdelete.2 (passes_of_check h₁ hrefused)
  · exact .refusal rfl

/-- The branch for a name starts or reports, or acts on nothing. -/
theorem route_app_cases (hshape : shape_of request_info.uri = .app)
    (h : route_app request_info (origin_of request_info) s = some (d, e, t)) :
    Routed request_info s d := by
  obtain ⟨refused, e₁, r, e₂, h₁, h₂, -⟩ := bind_eq_some.mp h
  split_ifs at h₂ with hrefused hknown hoptions hpost hget <;> obtain rfl := decision_eq h₂
  · exact .refusal rfl
  · exact .refusal rfl
  · exact .refusal rfl
  · exact .start hshape rfl hpost (passes_of_check h₁ hrefused)
  · exact .status hshape rfl hget (passes_of_check h₁ hrefused)
  · exact .refusal rfl

/-- The branch for hiding hides, or acts on nothing. -/
theorem route_hide_cases (hshape : shape_of request_info.uri = .hide)
    (h : route_hide request_info (origin_of request_info) s = some (d, e, t)) :
    Routed request_info s d := by
  obtain ⟨refused, e₁, r, e₂, h₁, h₂, -⟩ := bind_eq_some.mp h
  split_ifs at h₂ with hrefused hoptions hpost <;> obtain rfl := decision_eq h₂
  · exact .refusal rfl
  · exact .refusal rfl
  · exact .hide hshape rfl hpost.1 hpost.2 (passes_of_check h₁ hrefused)
  · exact .refusal rfl

/-- The branch for dial data also looks at the peer's address. -/
theorem route_dial_data_cases (hshape : shape_of request_info.uri = .dial_data)
    (h : route_dial_data request_info (origin_of request_info) s = some (d, e, t)) :
    Routed request_info s d := by
  unfold route_dial_data at h
  by_cases hlocal : strncmp_eq (inet_ntop request_info.remote_addr) gLocalhost gLocalhost.length
  · simp only [hlocal, if_true] at h
    obtain ⟨app_name, e₁, r, e₂, h₁, h₂, -⟩ := bind_eq_some.mp h
    obtain ⟨_, supply, hparse, rfl, rfl⟩ := within_eq_some.mp h₁
    cases app_name with
    | none =>
      -- There was no memory for the name.
      obtain rfl := decision_eq h₂
      exact .refusal rfl
    | some app_name =>
      obtain ⟨refused, e₃, r, e₄, h₃, h₄, -⟩ := bind_eq_some.mp h₂
      split_ifs at h₄ with hrefused hoptions <;> obtain rfl := decision_eq h₄
      · exact .refusal rfl
      · exact .refusal rfl
      · exact .dial_data hshape (strncmp_eq_length.mp hlocal) hparse hoptions
          (passes_of_check h₃ hrefused)
  · simp only [hlocal] at h
    obtain rfl := decision_eq h
    exact .refusal rfl

/-- Every decision of the router is one of these. -/
theorem route_cases (h : route request_info s = some (d, e, t)) : Routed request_info s d := by
  unfold route at h
  cases hshape : shape_of request_info.uri with
  | run => exact route_run_cases hshape (by simpa only [hshape] using h)
  | app => exact route_app_cases hshape (by simpa only [hshape] using h)
  | hide => exact route_hide_cases hshape (by simpa only [hshape] using h)
  | dial_data => exact route_dial_data_cases hshape (by simpa only [hshape] using h)
  | unknown =>
    rw [hshape] at h
    obtain rfl := decision_eq h
    exact .refusal rfl

end Cases

section Decide

variable {request_info : mg_request_info} {s : System W}

/-- A request that passes the check goes on to the choice by its method. -/
theorem route_stop_eq (hshape : shape_of request_info.uri = .run)
    (hname : copied_name request_info.uri RUN_URI.length ≠ [])
    (hmethod : request_info.request_method = bytes "DELETE")
    (hpass : Passes request_info (copied_name request_info.uri RUN_URI.length) s) :
    ∃ e t, route request_info s =
      some (.stop (copied_name request_info.uri RUN_URI.length), e, t) := by
  obtain ⟨e, t, h⟩ := hpass
  refine ⟨e ++ [], t, ?_⟩
  have hoptions : bytes "DELETE" ≠ bytes "OPTIONS" := by decide
  simp only [route, hshape, route_run]
  rw [bind_of_some h]
  simp [hmethod, hoptions, hname]

/-- The same for a start. -/
theorem route_start_eq (hshape : shape_of request_info.uri = .app)
    (hmethod : request_info.request_method = bytes "POST")
    (hpass : Passes request_info (request_info.uri.drop APPS_URI.length) s) :
    ∃ e t, route request_info s =
      some (.start (request_info.uri.drop APPS_URI.length), e, t) := by
  obtain ⟨e, t, h⟩ := hpass
  refine ⟨e ++ [], t, ?_⟩
  have hoptions : bytes "POST" ≠ bytes "OPTIONS" := by decide
  simp only [route, hshape, route_app]
  rw [bind_of_some h]
  simp [hmethod, hoptions]

/-- The same for a hiding. -/
theorem route_hide_eq (hshape : shape_of request_info.uri = .hide)
    (hname : copied_name request_info.uri (RUN_URI.length + HIDE_URI.length) ≠ [])
    (hmethod : request_info.request_method = bytes "POST")
    (hpass : Passes request_info
      (copied_name request_info.uri (RUN_URI.length + HIDE_URI.length)) s) :
    ∃ e t, route request_info s =
      some (.hide (copied_name request_info.uri (RUN_URI.length + HIDE_URI.length)), e, t) := by
  obtain ⟨e, t, h⟩ := hpass
  refine ⟨e ++ [], t, ?_⟩
  have hoptions : bytes "POST" ≠ bytes "OPTIONS" := by decide
  simp only [route, hshape, route_hide]
  rw [bind_of_some h]
  simp [hmethod, hoptions, hname]

/-- The same for dial data, from the local host and with memory for the name. -/
theorem route_dial_data_eq (hshape : shape_of request_info.uri = .dial_data)
    (hlocal : IsLocal request_info) {n : Bytes} {e : List Empty} {supply : Supply}
    (hparse : parse_app_name (some request_info.uri) s.supply = some (some n, e, supply))
    (hmethod : request_info.request_method ≠ bytes "OPTIONS")
    (hpass : Passes request_info n { s with supply }) :
    ∃ e t, route request_info s =
      some (.dial_data n (request_info.request_method = bytes "POST"), e, t) := by
  obtain ⟨e', t, h⟩ := hpass
  refine ⟨[] ++ (e' ++ []), t, ?_⟩
  have halloc : (alloc (parse_app_name (some request_info.uri)) : Server W (Option Bytes)) s =
      some (some n, [], { s with supply }) := within_eq_some.mpr ⟨e, supply, hparse, rfl, rfl⟩
  simp only [route, hshape, route_dial_data]
  rw [if_pos (strncmp_eq_length.mpr hlocal), bind_of_some halloc]
  simp only
  rw [bind_of_some h]
  simp [hmethod]

end Decide

end DialServer
