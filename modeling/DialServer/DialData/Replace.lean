import DialServer.DialData.Parsing
import DialServer.Server.Runs

/-!
# Replacing the dial data of an application

`handle_dial_data` refuses a request before it touches anything, or it frees the list, parses what
it has read and answers 200 whatever came of that (`handle_dial_data_cases`). So the request is all
or nothing exactly when it is refused, or all of the payload has been read and all of its tokens are
well formed.
-/

set_option maxRecDepth 8000

namespace DialServer

open CLib Program

variable {W : Type}

/-- The text that `handle_dial_data` takes its parameters from. -/
def dial_data_body (conn : mg_connection) (request_info : mg_request_info) (use_payload : Bool) :
    Bytes :=
  if use_payload then (mg_read conn DIAL_DATA_MAX_PAYLOAD).1 else request_info.query_string.getD []

/-- The query is refused for its length. -/
def query_too_long (request_info : mg_request_info) (use_payload : Bool) : Prop :=
  use_payload = false ∧ DIAL_DATA_MAX_PAYLOAD < (request_info.query_string.getD []).length

/-- What a call of `handle_dial_data` does: it refuses the request and changes no record and no
file, or it replaces the data of the application, in the record and in the file, by what
`parse_params` returns. -/
inductive Replacement (conn : mg_connection) (request_info : mg_request_info) (app_name : Bytes)
    (use_payload : Bool) (s : System W) : List Event → System W → Prop
  | refused {e t} :
      s.supply 0 = false ∨ app_name ∉ s.apps.map DIALApp.name ∨
        query_too_long request_info use_payload ∨
        isBadPayload (dial_data_body conn request_info use_payload) = true →
      answered_2xx e = false → t.apps = s.apps → t.files = s.files →
      Replacement conn request_info app_name use_payload s e t
  | replaced {e e' data supply} :
      s.supply 0 = true → app_name ∈ s.apps.map DIALApp.name →
      ¬query_too_long request_info use_payload →
      isBadPayload (dial_data_body conn request_info use_payload) = false →
      answer e = some (bytes "200") →
      parse_params (cstr (dial_data_body conn request_info use_payload)) (s.supply.after 1) =
        some (data, e', supply) →
      Replacement conn request_info app_name use_payload s e
        { s with
          apps := s.apps.modify (find_app s.apps app_name) fun app =>
            { app with dial_data := data }
          files := Function.update s.files (app_path app_name) (some (print_dial_data data))
          supply := supply.after 2
          mux := false }

/-- The answer to a request that is carried out. -/
theorem dial_data_response_code (origin_header : Option Bytes) :
    status_code (mg_printf (dial_data_response origin_header)) = bytes "200" := by
  have hcode := @status_code_printf (bytes "200") rfl
    (bytes " OK" ++ crlf ++ allow_origin_line origin_header ++ crlf)
  have htext : dial_data_response origin_header = bytes "HTTP/1.1 " ++ bytes "200" ++
      (bytes " OK" ++ crlf ++ allow_origin_line origin_header ++ crlf) := by
    simp [dial_data_response, bytes]
  rw [htext, hcode]

/-- `store_dial_data` that returns. -/
theorem store_dial_data_eq_some {app_name : Bytes} {data : List DIALData} {s t : System W}
    {e : List Event} (h : store_dial_data app_name data s = some ((), e, t)) :
    e = [] ∧ t = { s with
      files := Function.update s.files (app_path app_name) (some (print_dial_data data))
      supply := s.supply.after 2 } := by
  obtain ⟨filename, e₁, r, e₂, h₁, h₂, rfl⟩ := bind_eq_some.mp h
  obtain ⟨e', supply, hpath, rfl, rfl⟩ := within_eq_some.mp h₁
  cases filename with
  | none => simp at h₂
  | some filename =>
    -- A file that does not open ends the process, as no memory for its name does.
    obtain ⟨rfl, rfl⟩ := getAppPath_eq_some hpath
    obtain ⟨opened, e₃, r, e₄, h₃, h₄, rfl⟩ := bind_eq_some.mp h₂
    obtain ⟨-, rfl, rfl⟩ := alloc_request_eq_some.mp h₃
    cases opened with
    | false => simp at h₄
    | true =>
      simp only [if_true, modify_apply, Option.some.injEq, Prod.mk.injEq, true_and] at h₄
      obtain ⟨rfl, rfl⟩ := h₄
      exact ⟨rfl, rfl⟩

/-- `handle_dial_data` on its application, with the text it has read. -/
theorem replace_dial_data_cases {body : Bytes} {origin_header : Option Bytes} {pos : ℕ}
    {app : DIALApp W} {s t : System W} {e : List Event}
    (h : replace_dial_data body origin_header pos app s = some ((), e, t)) :
    (isBadPayload body = true ∧ answered_2xx e = false ∧ t = { s with mux := false }) ∨
      (isBadPayload body = false ∧ answer e = some (bytes "200") ∧ ∃ data e' supply,
        parse_params (cstr body) s.supply = some (data, e', supply) ∧
        t = { s with
          apps := s.apps.modify pos fun app => { app with dial_data := data }
          files := Function.update s.files (app_path app.name) (some (print_dial_data data))
          supply := supply.after 2
          mux := false }) := by
  unfold replace_dial_data at h
  cases hbad : isBadPayload body with
  | true =>
    rw [hbad, if_pos rfl] at h
    obtain ⟨hrefused, rfl⟩ := refusal_eq_some rfl (by decide) h
    exact .inl ⟨rfl, hrefused, rfl⟩
  | false =>
    rw [hbad, if_neg (by simp)] at h
    -- Free the old list, parse, assign the new list, write the file, answer, unlock.
    obtain ⟨⟨⟩, e₁, r, e₂, h₁, h₂, rfl⟩ := bind_eq_some.mp h
    simp only [set_app, modify_apply, Option.some.injEq, Prod.mk.injEq, true_and] at h₁
    obtain ⟨rfl, rfl⟩ := h₁
    obtain ⟨data, e₃, r, e₄, h₃, h₄, rfl⟩ := bind_eq_some.mp h₂
    obtain ⟨e', supply, hparse, rfl, rfl⟩ := within_eq_some.mp h₃
    obtain ⟨⟨⟩, e₅, r, e₆, h₅, h₆, rfl⟩ := bind_eq_some.mp h₄
    simp only [set_app, modify_apply, Option.some.injEq, Prod.mk.injEq, true_and] at h₅
    obtain ⟨rfl, rfl⟩ := h₅
    obtain ⟨⟨⟩, e₇, r, e₈, h₇, h₈, rfl⟩ := bind_eq_some.mp h₆
    obtain ⟨rfl, rfl⟩ := store_dial_data_eq_some h₇
    obtain ⟨⟨⟩, e₉, r, e₁₀, h₉, h₁₀, rfl⟩ := bind_eq_some.mp h₈
    obtain ⟨rfl, rfl⟩ := reply_eq_some.mp h₉
    obtain ⟨rfl, rfl⟩ := ds_unlock_eq_some.mp h₁₀
    refine .inr ⟨rfl, congrArg some (dial_data_response_code origin_header), data, e', supply,
      hparse, ?_⟩
    -- The second assignment to the list hides the first.
    simp only [List.modify_modify_eq]
    rfl

/-- Every call of `handle_dial_data` that returns. -/
theorem handle_dial_data_cases {conn : mg_connection} {request_info : mg_request_info}
    {app_name : Bytes} {origin_header : Option Bytes} {use_payload : Bool} {s t : System W}
    {e : List Event}
    (h : handle_dial_data conn request_info app_name origin_header use_payload s =
      some ((), e, t)) : Replacement conn request_info app_name use_payload s e t := by
  obtain ⟨taken, e₁, r, e₂, h₁, h₂, rfl⟩ := bind_eq_some.mp h
  rcases ds_lock_cases h₁ with ⟨hsupply, rfl, rfl, rfl⟩ | ⟨hsupply, -, rfl, rfl, rfl⟩
  · obtain ⟨hrefused, rfl⟩ := http_error_refuses rfl (by decide) h₂
    exact .refused (.inl hsupply) (by simpa using hrefused []) rfl rfl
  simp only [Bool.not_true, Bool.false_eq_true, if_false] at h₂
  obtain ⟨⟨pos, app⟩, e₃, r, e₄, h₃, h₄, rfl⟩ := bind_eq_some.mp h₂
  simp only [get_app, read_apply, Option.some.injEq, Prod.mk.injEq] at h₃
  obtain ⟨⟨rfl, happ⟩, rfl, rfl⟩ := h₃
  have hanswer : ∀ e', answer ([Event.lock] ++ ([] ++ e')) = answer e' := fun _ => rfl
  have hanswered : ∀ e', answered_2xx ([Event.lock] ++ ([] ++ e')) = answered_2xx e' := fun _ => rfl
  cases app with
  | none =>
    obtain ⟨hrefused, rfl⟩ := refusal_eq_some rfl (by decide) h₄
    exact .refused (.inr (.inl (find_app_eq_none.mp happ))) (by rw [hanswered]; exact hrefused)
      rfl rfl
  | some app =>
    have hname := find_app_name happ
    have hmem : app_name ∈ s.apps.map DIALApp.name := by
      by_contra hmem
      rw [find_app_eq_none.mpr hmem] at happ
      simp at happ
    -- The three ways to a text that is not refused for its length have the rest in common.
    have hreplace : ∀ {body}, body = dial_data_body conn request_info use_payload →
        ¬query_too_long request_info use_payload →
        replace_dial_data body origin_header (find_app s.apps app_name) app
          { s with supply := s.supply.after 1, mux := true } = some ((), e₄, t) →
        Replacement conn request_info app_name use_payload s ([Event.lock] ++ ([] ++ e₄)) t := by
      rintro _ rfl hlong h
      rcases replace_dial_data_cases h with ⟨hbad, hrefused, rfl⟩ |
        ⟨hbad, haccepted, data, e', supply, hparse, rfl⟩
      · exact .refused (.inr (.inr (.inr hbad))) (by rw [hanswered]; exact hrefused) rfl rfl
      · rw [hname]
        exact .replaced hsupply hmem hlong hbad (by rw [hanswer]; exact haccepted) hparse
    simp only [dial_data_app] at h₄
    cases use_payload with
    | true => exact hreplace rfl (by simp [query_too_long]) h₄
    | false =>
      cases hquery : request_info.query_string with
      | none =>
        simp only [hquery, Bool.false_eq_true, if_false] at h₄
        exact hreplace (by simp [dial_data_body, hquery]) (by simp [query_too_long, hquery]) h₄
      | some query_string =>
        simp only [hquery, Bool.false_eq_true, if_false] at h₄
        by_cases hlen : query_string.length > DIAL_DATA_MAX_PAYLOAD
        · rw [if_pos hlen] at h₄
          obtain ⟨hrefused, rfl⟩ := refusal_eq_some rfl (by decide) h₄
          refine .refused (.inr (.inr (.inl ⟨rfl, ?_⟩))) (by rw [hanswered]; exact hrefused) rfl rfl
          rw [hquery]
          exact hlen
        · rw [if_neg hlen] at h₄
          refine hreplace (by simp [dial_data_body, hquery]) ?_ h₄
          rintro ⟨-, hlong⟩
          rw [hquery] at hlong
          exact hlen hlong

/-! ## With memory the request is answered -/

/-- All requests for resources are granted from now on. -/
def Supplied (s : System W) : Prop := s.supply = plenty

/-- A program that needs resources returns what it returns with all of them. -/
theorem returns_alloc {α : Type} {p : Alloc α} {a : α} (h : p plenty = some (a, [], plenty)) :
    Returns Supplied (fun b s => b = a ∧ Supplied s) (alloc p : Server W α) := by
  intro s hs
  refine ⟨a, [], { s with supply := plenty },
    within_eq_some.mpr ⟨[], plenty, ?_, rfl, rfl⟩, rfl, rfl⟩
  rwa [hs]

/-- A mutex that is free is taken. -/
theorem returns_ds_lock :
    Returns (fun s : System W => Supplied s ∧ s.mux = false)
      (fun taken s => taken = true ∧ Supplied s) ds_lock := by
  rintro ⟨apps, mux, files, supply, world, platform⟩ ⟨rfl, rfl⟩
  exact ⟨_, _, _, rfl, rfl, rfl⟩

/-- It is given back. -/
theorem returns_ds_unlock :
    Returns Supplied (fun _ => Supplied) (ds_unlock : Server W Unit) :=
  returns_bind (returns_modify fun _ hs => hs) fun _ => returns_emit fun _ hs => hs

/-- An assignment needs nothing. -/
theorem returns_set_app (pos : ℕ) (f : DIALApp W → DIALApp W) :
    Returns Supplied (fun _ => Supplied) (set_app pos f) :=
  returns_modify fun _ hs => hs

/-- An answer needs nothing. -/
theorem returns_reply (text : Bytes) :
    Returns Supplied (fun _ => Supplied) (reply text : Server W Unit) :=
  returns_emit fun _ hs => hs

/-- The way out through an error needs nothing. -/
theorem returns_refusal (status : ℕ) (reason : String) :
    Returns Supplied (fun _ => Supplied)
      (do http_error status reason; ds_unlock : Server W Unit) :=
  returns_bind (returns_bind (returns_reply _) fun _ => returns_reply _) fun _ => returns_ds_unlock

/-- The file is written. -/
theorem returns_store_dial_data (app_name : Bytes) (data : List DIALData) :
    Returns Supplied (fun _ => Supplied) (store_dial_data app_name data : Server W Unit) := by
  refine returns_bind (returns_alloc (a := some (app_path app_name)) rfl) fun filename => ?_
  rintro s ⟨rfl, hs⟩
  refine returns_bind (returns_alloc (a := true) rfl) (fun opened => ?_) s hs
  rintro s ⟨rfl, hs⟩
  exact ⟨(), [], _, rfl, hs⟩

/-- The data are refused or replaced. -/
theorem returns_replace_dial_data (body : Bytes) (origin_header : Option Bytes) (pos : ℕ)
    (app : DIALApp W) :
    Returns Supplied (fun _ => Supplied) (replace_dial_data body origin_header pos app) := by
  obtain ⟨data, hdata⟩ := parse_params_plenty (cstr body)
  refine returns_ite (fun _ => returns_refusal _ _) fun _ => ?_
  refine returns_bind (returns_set_app _ _) fun _ => ?_
  refine returns_bind (returns_alloc hdata) fun dial_data => ?_
  rintro s ⟨rfl, hs⟩
  refine returns_bind (returns_set_app _ _) (fun _ => ?_) s hs
  exact returns_bind (returns_store_dial_data _ _) fun _ => returns_bind (returns_reply _) fun _ =>
    returns_ds_unlock

/-- With memory and the mutex free the request is answered. -/
theorem returns_handle_dial_data (conn : mg_connection) (request_info : mg_request_info)
    (app_name : Bytes) (origin_header : Option Bytes) (use_payload : Bool) :
    Returns (fun s : System W => Supplied s ∧ s.mux = false) (fun _ => Supplied)
      (handle_dial_data conn request_info app_name origin_header use_payload) := by
  refine returns_bind returns_ds_lock fun taken => ?_
  rintro s ⟨rfl, hs⟩
  refine returns_bind (I := Supplied) (returns_read (Q := fun _ => Supplied) fun _ hs => hs)
    (fun found => ?_) s hs
  obtain ⟨pos, app⟩ := found
  cases app with
  | none => exact returns_refusal _ _
  | some app =>
    refine returns_ite (fun _ => returns_replace_dial_data _ _ _ _) fun _ => ?_
    cases request_info.query_string with
    | none => exact returns_replace_dial_data _ _ _ _
    | some query_string =>
      exact returns_ite (fun _ => returns_refusal _ _) fun _ => returns_replace_dial_data _ _ _ _

/-! ## All or nothing -/

/-- The request delivers the payload, as a body that arrives or as the query. -/
inductive Delivers (conn : mg_connection) (request_info : mg_request_info) (payload : Bytes) :
    Bool → Prop
  | body : Receives conn payload → Delivers conn request_info payload true
  | query : request_info.query_string = some payload → Delivers conn request_info payload false

/-- The data of an application. -/
def dial_data_of (s : System W) (app_name : Bytes) : Option (List DIALData) :=
  s.apps[find_app s.apps app_name]?.map DIALApp.dial_data

/-- A request for dial data either answers 200 and leaves the application with a pair for each token
of the payload, or it does not answer 2xx and leaves its list and its file as they were. -/
def AllOrNothing (app_name payload : Bytes) (s : System W) (e : List Event) (t : System W) : Prop :=
  (answer e = some (bytes "200") ∧ ∃ data, dial_data_of t app_name = some data ∧
      ∃ pairs, StandsFor payload pairs ∧ data.Perm pairs) ∨
    (answered_2xx e = false ∧ dial_data_of t app_name = dial_data_of s app_name ∧
      t.files (app_path app_name) = s.files (app_path app_name))

/-- The payload is refused: as a query for its length, or for a character in what is read of it. -/
def RefusesPayload (use_payload : Bool) (payload : Bytes) : Prop :=
  (use_payload = false ∧ DIAL_DATA_MAX_PAYLOAD < payload.length) ∨
    isBadPayload (payload.take DIAL_DATA_MAX_PAYLOAD) = true

/-- All of the payload is read: only `&` follow what is read of it, the tokens of that are well
formed, and there is the memory for them. -/
structure ReadWhole (payload : Bytes) (supply : Supply) : Prop where
  rest : ∀ c ∈ payload.drop DIAL_DATA_MAX_PAYLOAD, c = chr '&'
  tokens : ∀ token ∈ param_tokens (payload.take DIAL_DATA_MAX_PAYLOAD), WellFormed token
  memory : ∀ i < 3 * (param_tokens (payload.take DIAL_DATA_MAX_PAYLOAD)).length,
    supply (2 + i) = true

/-- The data after an assignment to the application of the name. -/
theorem dial_data_of_modify {s t : System W} {app_name : Bytes} {data : List DIALData}
    (hmem : app_name ∈ s.apps.map DIALApp.name)
    (ht : t.apps = s.apps.modify (find_app s.apps app_name) fun app =>
      { app with dial_data := data }) : dial_data_of t app_name = some data := by
  have hnames : t.apps.map DIALApp.name = s.apps.map DIALApp.name := by
    rw [ht]
    exact map_modify_eq (f := fun app => { app with dial_data := data }) (g := DIALApp.name)
      (fun _ => rfl) s.apps _
  have hpos : find_app t.apps app_name = find_app s.apps app_name := by
    rw [find_app_eq_idxOf, find_app_eq_idxOf, hnames]
  cases hfound : s.apps[find_app s.apps app_name]? with
  | none => exact absurd hmem (find_app_eq_none.mp hfound)
  | some app =>
    unfold dial_data_of
    rw [hpos, ht, List.getElem?_modify_eq, hfound]
    rfl

/-- What is read of a payload that is delivered, and the refusal of its length. -/
theorem Delivers.body_eq {conn : mg_connection} {request_info : mg_request_info} {payload : Bytes}
    {use_payload : Bool} (h : Delivers conn request_info payload use_payload) :
    (query_too_long request_info use_payload ↔
        use_payload = false ∧ DIAL_DATA_MAX_PAYLOAD < payload.length) ∧
      (¬query_too_long request_info use_payload →
        dial_data_body conn request_info use_payload = payload.take DIAL_DATA_MAX_PAYLOAD) := by
  cases h with
  | body h =>
    simp only [query_too_long, dial_data_body, reduceCtorEq, false_and, true_and, if_true]
    exact fun _ => mg_read_received h _
  | query h =>
    simp only [query_too_long, dial_data_body, h, Option.getD_some, true_and]
    refine fun hlen => ?_
    rw [List.take_of_length_le (by omega)]
    rfl

/-- **All or nothing.** A request that delivers a payload for a registered application is all or
nothing if and only if it is refused, for want of the mutex or for its payload, or all of the
payload is read. With memory and the mutex free every request is answered. -/
theorem dial_data_all_or_nothing_iff {conn : mg_connection} {request_info : mg_request_info}
    {app_name : Bytes} {use_payload : Bool} {payload : Bytes} {s : System W}
    (hregistered : app_name ∈ s.apps.map DIALApp.name)
    (hdelivers : Delivers conn request_info payload use_payload) (origin_header : Option Bytes) :
    (∀ e t, handle_dial_data conn request_info app_name origin_header use_payload s =
        some ((), e, t) →
      (AllOrNothing app_name payload s e t ↔
        s.supply 0 = false ∨ RefusesPayload use_payload payload ∨ ReadWhole payload s.supply)) ∧
    (s.mux = false → s.supply = plenty → ∃ e t,
      handle_dial_data conn request_info app_name origin_header use_payload s =
        some ((), e, t)) := by
  obtain ⟨hlong, hbody⟩ := hdelivers.body_eq
  constructor
  · intro e t h
    cases handle_dial_data_cases h with
    | refused hrefused hanswer happs hfiles =>
      -- Nothing has changed, and the reason of the refusal is one of the conditions.
      refine iff_of_true (.inr ⟨hanswer, ?_, by rw [hfiles]⟩) ?_
      · unfold dial_data_of
        rw [happs]
      · rcases hrefused with hsupply | habsent | htoo_long | hbad
        · exact .inl hsupply
        · exact absurd hregistered habsent
        · exact .inr (.inl (.inl (hlong.mp htoo_long)))
        · by_cases htoo_long : query_too_long request_info use_payload
          · exact .inr (.inl (.inl (hlong.mp htoo_long)))
          · exact .inr (.inl (.inr (hbody htoo_long ▸ hbad)))
    | @replaced e' data supply hsupply _ hshort hbad hanswer hparse =>
      -- The answer is 200, so that all depends on what the parser made of the text.
      rw [hbody hshort] at hbad hparse
      rw [cstr_of_notMem (zero_notMem_of_isBadPayload hbad)] at hparse
      have haccepted : answered_2xx e = true := by
        unfold answered_2xx
        rw [hanswer]
        rfl
      have hrefuses : ¬RefusesPayload use_payload payload := by
        rintro (htoo_long | hbad')
        · exact hshort (hlong.mpr htoo_long)
        · simp [hbad] at hbad'
      have hdata := dial_data_of_modify (t := { s with
        apps := s.apps.modify (find_app s.apps app_name) fun app => { app with dial_data := data }
        files := Function.update s.files (app_path app_name) (some (print_dial_data data))
        supply := supply.after 2
        mux := false }) hregistered rfl
      have hcomplete := parse_params_complete_iff (by decide) hparse
      unfold AllOrNothing
      simp only [hanswer, haccepted, hsupply, hrefuses, hdata, true_and, Option.some.injEq,
        exists_eq_left', false_and, or_false, false_or, Bool.true_eq_false]
      rw [hcomplete]
      have hafter : ∀ i, s.supply.after 1 (1 + i) = s.supply (2 + i) := fun i => by
        rw [Supply.after, show 1 + i + 1 = 2 + i by omega]
      simp only [hafter]
      exact ⟨fun h => ⟨h.1, h.2.1, h.2.2⟩, fun h => ⟨h.rest, h.tokens, h.memory⟩⟩
  · intro hmux hsupply
    obtain ⟨⟨⟩, e, t, h, -⟩ := returns_handle_dial_data conn request_info app_name origin_header
      use_payload s ⟨hsupply, hmux⟩
    exact ⟨e, t, h⟩

/-- A request for the dial data of the application, from the local host. -/
def data_request (method : Bytes) (query_string : Option Bytes) : mg_request_info :=
  ⟨method, bytes "/apps/YouTube/dial_data", query_string, ⟨127, 0, 0, 1⟩, ⟨127, 0, 0, 1⟩, []⟩

/-- A connection whose body came with the headers. -/
def with_body (body : Bytes) : mg_connection := ⟨body.length, 0, body, []⟩

/-- Two pairs in the query. -/
theorem dial_data_all_or_nothing_query :
    ∃ e t, handle_dial_data (with_body []) (data_request (bytes "GET") (some (bytes "a=1&b=2")))
        (bytes "YouTube") none false youtube_server = some ((), e, t) ∧
      AllOrNothing (bytes "YouTube") (bytes "a=1&b=2") youtube_server e t := by
  have hregistered : bytes "YouTube" ∈ youtube_server.apps.map DIALApp.name := by decide
  have hwhole : ReadWhole (bytes "a=1&b=2") youtube_server.supply := by
    refine ⟨by decide, ?_, fun _ _ => rfl⟩
    rw [show param_tokens ((bytes "a=1&b=2").take DIAL_DATA_MAX_PAYLOAD) =
      [bytes "a=1", bytes "b=2"] by decide]
    intro token hmem
    rcases List.mem_pair.mp hmem with rfl | rfl
    · exact ⟨bytes "a", bytes "1", rfl, by decide, by decide, by decide, by decide⟩
    · exact ⟨bytes "b", bytes "2", rfl, by decide, by decide, by decide, by decide⟩
  obtain ⟨hiff, hreturns⟩ := @dial_data_all_or_nothing_iff _ (with_body [])
    (data_request (bytes "GET") (some (bytes "a=1&b=2"))) _ _ _ youtube_server hregistered
    (.query rfl) none
  obtain ⟨e, t, h⟩ := hreturns rfl rfl
  exact ⟨e, t, h, (hiff e t h).mpr (.inr (.inr hwhole))⟩

/-- The server with data of the application. -/
def youtube_with (dial_data : List DIALData) : System Bool :=
  { new_server with apps := [{ youtube_app with dial_data }] }

/-- A body without `=` is answered 200 and loses the pair. -/
theorem token_without_value_loses_data :
    ∃ e t, handle_dial_data (with_body (bytes "volume")) (data_request (bytes "POST") none)
        (bytes "YouTube") none true (youtube_with [⟨bytes "v", bytes "1"⟩]) =
          some ((), e, t) ∧
      answer e = some (bytes "200") ∧ dial_data_of t (bytes "YouTube") = some [] ∧
      ¬AllOrNothing (bytes "YouTube") (bytes "volume")
        (youtube_with [⟨bytes "v", bytes "1"⟩]) e t := by
  obtain ⟨e, t, h, hanswer, haccepted, hdata⟩ : ∃ e t,
      handle_dial_data (with_body (bytes "volume")) (data_request (bytes "POST") none)
        (bytes "YouTube") none true (youtube_with [⟨bytes "v", bytes "1"⟩]) =
          some ((), e, t) ∧
      answer e = some (bytes "200") ∧ answered_2xx e = true ∧
      dial_data_of t (bytes "YouTube") = some [] :=
    ⟨_, _, rfl, rfl, rfl, rfl⟩
  refine ⟨e, t, h, hanswer, hdata, ?_⟩
  rintro (⟨-, data, -, pairs, hstands, -⟩ | ⟨hrefused, -⟩)
  · have hnone : (param_tokens (bytes "volume")).map split_token = [none] := by decide
    rw [StandsFor, hnone] at hstands
    cases pairs with
    | nil => simp at hstands
    | cons pair pairs => simp at hstands
  · simp [haccepted] at hrefused

end DialServer
