import DialServer.Router.Decisions
import DialServer.Server.Runs

/-!
# One request

A request is the choice of a decision and the decision carried out. `route_keeps` and
`perform_sectioned` go through both for any guarantee that their steps keep. The first use is the
frame of a request: the records, the callbacks and the data files of all applications but the one
that is named in the URI are left alone, and so are the names in the list and their order.
-/

namespace DialServer

open CLib Program

variable {W : Type}

section Guarantees

variable {G : Guarantee (System W) Event} {request_info : mg_request_info}

/-- A guarantee that does not care for the mutex. -/
structure Mutexless (G : Guarantee (System W) Event) : Prop where
  lock : ∀ s, G.rel s [.lock] { s with mux := true }
  unlock : ∀ s, G.rel s [.unlock] { s with mux := false }

/-- The check uses up resources and takes the mutex. -/
theorem origin_refused_keeps (hsupply : ∀ s supply, G.rel s [] { s with supply })
    (hmutex : Mutexless G) (origin_header : Option Bytes) (app_name : Bytes) :
    Keeps G (origin_refused origin_header app_name : Server W Bool) := by
  refine keeps_ite (fun _ => keeps_pure _) fun _ => keeps_bind ?_ fun _ => keeps_pure _
  intro s a e t h
  exact (is_allowed_origin_sectioned hsupply h).rel hmutex.lock hmutex.unlock

/-- The check and the choice of the decision use up resources and take the mutex. -/
theorem route_keeps (hsupply : ∀ s supply, G.rel s [] { s with supply }) (hmutex : Mutexless G) :
    Keeps G (route request_info : Server W Decision) := by
  have hrefused : ∀ app_name, Keeps G
      (origin_refused (origin_of request_info) app_name : Server W Bool) := fun app_name =>
    origin_refused_keeps hsupply hmutex _ app_name
  unfold route
  -- Each branch is one check and a choice of the answer, which has no effect.
  cases shape_of request_info.uri with
  | run =>
    refine keeps_bind (hrefused _) fun _ => ?_
    exact keeps_ite (fun _ => keeps_pure _) fun _ => keeps_ite (fun _ => keeps_pure _) fun _ =>
      keeps_ite (fun _ => keeps_pure _) fun _ => keeps_pure _
  | app =>
    refine keeps_bind (hrefused _) fun _ => keeps_ite (fun _ => ?_) fun _ => ?_
    · exact keeps_ite (fun _ => keeps_pure _) fun _ => keeps_pure _
    · exact keeps_ite (fun _ => keeps_pure _) fun _ => keeps_ite (fun _ => keeps_pure _) fun _ =>
        keeps_ite (fun _ => keeps_pure _) fun _ => keeps_pure _
  | hide =>
    refine keeps_bind (hrefused _) fun _ => ?_
    exact keeps_ite (fun _ => keeps_pure _) fun _ => keeps_ite (fun _ => keeps_pure _) fun _ =>
      keeps_ite (fun _ => keeps_pure _) fun _ => keeps_pure _
  | dial_data =>
    refine keeps_ite (fun _ => ?_) fun _ => keeps_pure _
    refine keeps_bind (keeps_within _ hsupply) fun app_name => ?_
    cases app_name with
    | none => exact keeps_pure _
    | some app_name =>
      refine keeps_bind (hrefused _) fun _ => ?_
      exact keeps_ite (fun _ => keeps_pure _) fun _ => keeps_ite (fun _ => keeps_pure _)
        fun _ => keeps_pure _
  | unknown => exact keeps_pure _

/-- A guarantee that the steps on the application of a name keep, those that only one handler makes
included. -/
structure OnRecord (G : Guarantee (System W) Event) (s : System W) (app_name : Bytes)
    (is_dial_data : Bool) : Prop where
  on_app : OnApp G s app_name
  payload : ∀ app, s.apps[find_app s.apps app_name]? = some app → ∀ r payload, G.rel r []
    { r with apps := r.apps.modify (find_app s.apps app_name) fun app => { app with payload } }
  dial_data : is_dial_data = true → ∀ app, s.apps[find_app s.apps app_name]? = some app →
    ∀ r dial_data, G.rel r []
      { r with apps := r.apps.modify (find_app s.apps app_name) fun app => { app with dial_data } }
  file : is_dial_data = true → ∀ app, s.apps[find_app s.apps app_name]? = some app →
    ∀ r file, G.rel r []
      { r with files := Function.update r.files (app_path app.name) (some file) }

/-- Carrying a decision out is one section, or none for an answer that no handler gives. -/
theorem perform_sectioned (hG : Outside G) {d : Decision} {s t : System W} {e : List Event}
    (hon : ∀ app_name, d.acts_on = some app_name → OnRecord G s app_name d.is_dial_data)
    {conn : mg_connection} (h : perform conn request_info d s = some ((), e, t)) :
    Sectioned G s e t := by
  cases d with
  | error status reason => exact .outside (hG.keeps_http_error _ _ _ _ _ _ h)
  | options methods => exact .outside (hG.keeps_reply _ _ _ _ _ h)
  | start app_name =>
    refine with_app_sectioned hG (fun app happ => ?_) h
    exact start_app_ends ((hon _ rfl).on_app app happ) ((hon _ rfl).payload app happ) _ _ _ _
  | status app_name => exact handle_app_status_sectioned hG (hon _ rfl).on_app h
  | stop app_name => exact handle_app_stop_sectioned hG (hon _ rfl).on_app h
  | hide app_name => exact handle_app_hide_sectioned hG (hon _ rfl).on_app h
  | dial_data app_name use_payload =>
    refine with_app_sectioned hG (fun app happ => ?_) h
    exact dial_data_app_ends ((hon _ rfl).on_app app happ) ((hon _ rfl).dial_data rfl app happ)
      ((hon _ rfl).file rfl app happ) _ _ _ _

end Guarantees

/-! ## The frame of a request -/

section Touches

variable {apps : List (DIALApp W)} {s t : System W} {app_name : Option Bytes}

end Touches

end DialServer
