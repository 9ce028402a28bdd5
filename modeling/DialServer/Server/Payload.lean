import DialServer.Server.Connection
import DialServer.Server.Runs

/-!
# The payload of an application

`DIAL_get_payload` hands out the payload field of a record, which a start that is answered 2xx
overwrites with its body. `Latest` are the runs of registrations and starts together with the body
of the last such start of each application. The field is a terminated string with that body in it as
long as no body fills the field to its last byte and the memory of every new record begins with a
zero, because a registration leaves the field as `malloc` returned it.
-/

namespace DialServer

open CLib Program

variable {W : Type}

/-- The payload field of the first record of a name. -/
def payload_of (s : System W) (app_name : Bytes) : Option Payload :=
  s.apps[find_app s.apps app_name]?.map DIALApp.payload

/-- The names and the payload fields. -/
def payloads (s : System W) : List (Bytes × Payload) :=
  s.apps.map fun app => (app.name, app.payload)

/-- The field is looked up by the name. -/
theorem payload_of_eq_lookup (s : System W) (app_name : Bytes) :
    payload_of s app_name = (payloads s).lookup app_name := by
  unfold payload_of payloads
  induction s.apps with
  | nil => rfl
  | cons app apps ih =>
    unfold find_app
    split_ifs with hname
    · simp [hname]
    · have : (app_name == app.name) = false := by simpa using hname
      simp [List.lookup, this, ih]

/-- Only the payload of the application at the position that `find_app` returns is new after an
assignment there. -/
theorem payload_of_modify (s : System W) (app_name : Bytes) (payload : Payload) (other : Bytes) :
    payload_of { s with
        apps := s.apps.modify (find_app s.apps app_name) fun app => { app with payload } } other =
      if other = app_name ∧ app_name ∈ s.apps.map DIALApp.name then some payload
      else payload_of s other := by
  unfold payload_of
  simp only
  induction s.apps with
  | nil => simp
  | cons app apps ih =>
    by_cases hname : app_name = app.name
    · -- The assignment is to this record, and a later one of the same name does not matter.
      by_cases hother : other = app.name
      · simp [find_app, hname, hother]
      · simp [find_app, hname, hother]
    · by_cases hother : other = app.name
      · simp [find_app, hname, hother, Ne.symm hname]
      · simpa [find_app, hname, hother] using ih

/-! ## What a start does -/

/-- Nothing is written, and the payload fields stay as they are. -/
def prepares : Guarantee (System W) Event where
  rel s e t := answer e = none ∧ payloads t = payloads s
  refl _ := ⟨rfl, rfl⟩
  trans := by
    rintro s t u e₁ e₂ ⟨h₁, hp₁⟩ ⟨h₂, hp₂⟩
    exact ⟨by rw [answer_append_of_none h₁, h₂], hp₂.trans hp₁⟩

/-- Calling the callbacks writes nothing and assigns no payload. -/
theorem silent_prepares (pos : ℕ) (app_name : Bytes) :
    Silent (prepares : Guarantee (System W) Event) pos app_name :=
  have h := silent_unchanged (g := fun app : DIALApp W => (app.name, app.payload))
    (fun _ _ _ => rfl) pos app_name
  { supply := fun _ _ => ⟨rfl, rfl⟩
    world := fun _ _ => ⟨rfl, rfl⟩
    state := fun s state => ⟨rfl, h.state s state⟩
    run := fun s state run_id => ⟨rfl, h.run s state run_id⟩
    callback := fun _ _ _ => ⟨rfl, rfl⟩ }

/-- How a start ends for the payload of the application at a position: refused, or accepted with its
body in the field. -/
def StartEnd (pos : ℕ) (body : Bytes) (_ : Unit) (s : System W) (e : List Event)
    (t : System W) : Prop :=
  (answered_2xx e = false ∧ t = { s with mux := false }) ∨
    (answered_2xx e = true ∧ isBadPayload body = false ∧
      ∃ h, t = { s with
        apps := s.apps.modify pos fun app => { app with payload := copy_payload body h },
        mux := false })

/-- An error refuses the start. -/
theorem ends_refused (pos : ℕ) (body : Bytes) {status : ℕ} {reason : String}
    (hcode : (dec status).length = 3) (hfirst : (dec status).head? ≠ some (chr '2')) :
    Ends prepares (StartEnd pos body)
      (do http_error status reason; ds_unlock : Server W Unit) :=
  ends_last fun _ _ _ _ h => .inl (refusal_eq_some hcode hfirst h)

/-- The two answers that accept a start. -/
theorem ends_accepted {pos : ℕ} {body : Bytes} (hbad : isBadPayload body = false)
    (hlen : ¬body.length > DIAL_MAX_PAYLOAD) {code : String} (hcode : (bytes code).length = 3)
    (hfirst : (bytes code).head? = some (chr '2')) (laddr : Bytes) (dial_port : UInt16)
    (app_name : Bytes) (origin_header : Option Bytes) :
    Ends prepares (StartEnd pos body) (do
      reply (created_response code laddr dial_port app_name origin_header)
      set_app pos fun app => { app with payload := copy_payload body hlen }
      ds_unlock : Server W Unit) := by
  refine ends_last fun s a e t h => ?_
  obtain ⟨⟨⟩, e₁, r, e₂, h₁, h₂, rfl⟩ := bind_eq_some.mp h
  obtain ⟨rfl, rfl⟩ := reply_eq_some.mp h₁
  obtain ⟨⟨⟩, e₃, r, e₄, h₃, h₄, rfl⟩ := bind_eq_some.mp h₂
  simp only [set_app, modify_apply, Option.some.injEq, Prod.mk.injEq, true_and] at h₃
  obtain ⟨rfl, rfl⟩ := h₃
  obtain ⟨rfl, rfl⟩ := ds_unlock_eq_some.mp h₄
  exact .inr ⟨answered_created hcode hfirst _ _ _ _ _, hbad, hlen, rfl⟩

/-- A start writes nothing and assigns no payload until it ends. -/
theorem start_app_ends_payload (conn : mg_connection) (request_info : mg_request_info)
    (app_name : Bytes) (origin_header : Option Bytes) (pos : ℕ) (app : DIALApp W) :
    Ends prepares (StartEnd pos (start_body conn))
      (start_app conn request_info app_name origin_header pos app) := by
  have hG := silent_prepares (W := W) pos app_name
  refine ends_dite (fun _ => ends_refused _ _ rfl (by decide)) fun hlen => ?_
  refine ends_ite (fun _ => ends_refused _ _ rfl (by decide)) fun hbad => ?_
  rw [Bool.not_eq_true] at hbad
  refine ends_bind (keeps_read _) fun _ =>
    ends_ite (fun _ => ends_refused _ _ rfl (by decide)) fun _ => ?_
  refine ends_bind (hG.keeps_status_cb _ _) fun _ => ends_bind (hG.keeps_set_state _) fun _ => ?_
  refine ends_bind (hG.keeps_start_cb _ _ _ _) fun _ => ends_bind (hG.keeps_set_run _ _) fun _ => ?_
  refine ends_bind (keeps_read _) fun _ => ?_
  refine ends_ite (fun _ => ends_accepted hbad hlen rfl rfl _ _ _ _) fun _ => ?_
  refine ends_ite (fun _ => ends_accepted hbad hlen rfl rfl _ _ _ _) fun _ => ?_
  refine ends_ite (fun _ => ends_refused _ _ rfl (by decide)) fun _ => ?_
  refine ends_ite (fun _ => ends_refused _ _ rfl (by decide)) fun _ => ?_
  exact ends_ite (fun _ => ends_refused _ _ rfl (by decide)) fun _ =>
    ends_refused _ _ rfl (by decide)

/-- What a start does to the payload fields: it is refused and they stay as they are, or it is
accepted and the field of its application has its body. -/
theorem handle_app_start_payload {conn : mg_connection} {request_info : mg_request_info}
    {app_name : Bytes} {origin_header : Option Bytes} {s t : System W} {e : List Event}
    (h : handle_app_start conn request_info app_name origin_header s = some ((), e, t)) :
    (answered_2xx e = false ∧ ∀ other, payload_of t other = payload_of s other) ∨
      (answered_2xx e = true ∧ isBadPayload (start_body conn) = false ∧
        app_name ∈ s.apps.map DIALApp.name ∧ ∃ hlen, ∀ other, payload_of t other =
          if other = app_name then some (copy_payload (start_body conn) hlen)
          else payload_of s other) := by
  obtain ⟨taken, e₁, r, e₂, h₁, h₂, rfl⟩ := bind_eq_some.mp h
  rcases ds_lock_cases h₁ with ⟨-, rfl, rfl, rfl⟩ | ⟨-, -, rfl, rfl, rfl⟩
  · -- The lock is refused, and the start with it.
    obtain ⟨hrefused, rfl⟩ := http_error_refuses rfl (by decide) h₂
    exact .inl ⟨by simpa using hrefused [], fun _ => rfl⟩
  simp only [Bool.not_true, Bool.false_eq_true, if_false] at h₂
  obtain ⟨⟨pos, app⟩, e₃, r, e₄, h₃, h₄, rfl⟩ := bind_eq_some.mp h₂
  simp only [get_app, read_apply, Option.some.injEq, Prod.mk.injEq] at h₃
  obtain ⟨⟨rfl, happ⟩, rfl, rfl⟩ := h₃
  have hanswer : ∀ e', answered_2xx ([Event.lock] ++ ([] ++ e')) = answered_2xx e' := fun _ => rfl
  rw [hanswer]
  cases app with
  | none =>
    obtain ⟨hrefused, rfl⟩ := refusal_eq_some rfl (by decide) h₄
    exact .inl ⟨hrefused, fun _ => rfl⟩
  | some app =>
    obtain ⟨e₅, r, e₆, ⟨hnone, hpayloads⟩, hend, rfl⟩ :=
      start_app_ends_payload conn request_info app_name origin_header _ app _ _ _ _ h₄
    have hsame : ∀ other, payload_of r other = payload_of s other := by
      intro other
      rw [payload_of_eq_lookup, payload_of_eq_lookup, hpayloads]
      rfl
    have hnames : r.apps.map DIALApp.name = s.apps.map DIALApp.name := by
      simpa [payloads, Function.comp_def] using congrArg (List.map Prod.fst) hpayloads
    -- Nothing was written before the last step, which so decides the answer.
    have htail : answered_2xx (e₅ ++ e₆) = answered_2xx e₆ := by
      unfold answered_2xx
      rw [answer_append_of_none hnone]
    rw [htail]
    rcases hend with ⟨hrefused, rfl⟩ | ⟨haccepted, hbad, hlen, rfl⟩
    · exact .inl ⟨hrefused, hsame⟩
    · have hmem : app_name ∈ s.apps.map DIALApp.name := by
        by_contra habsent
        simp [find_app_eq_none.mpr habsent] at happ
      refine .inr ⟨haccepted, hbad, hmem, hlen, fun other => ?_⟩
      have hmodify := payload_of_modify r app_name (copy_payload (start_body conn) hlen) other
      rw [find_app_eq_idxOf, hnames, ← find_app_eq_idxOf, hsame] at hmodify
      simp only [hmem, and_true] at hmodify
      exact hmodify

/-! ## Runs of registrations and starts -/

/-- Runs of registrations and starts, each of a kind, with the body of the last start of each name
that was answered 2xx. -/
inductive Latest (ok : Call W → Prop) : System W → (Bytes → Bytes) → Prop
  | create (files supply world platform) :
      Latest ok (DIAL_create files supply world platform) fun _ => []
  | register {s t latest e app_name callbacks user_data useAdditionalData corsAllowedOrigin block} :
      Latest ok s latest →
      ok (.register app_name callbacks user_data useAdditionalData corsAllowedOrigin block) →
      (Call.register app_name callbacks user_data useAdditionalData corsAllowedOrigin
        block).exec s = some ((), e, t) →
      Latest ok t latest
  | start {s t latest e conn request_info app_name origin_header} :
      Latest ok s latest →
      ok (.start conn request_info app_name origin_header) →
      (Call.start conn request_info app_name origin_header).exec s = some ((), e, t) →
      Latest ok t
        (if answered_2xx e then Function.update latest app_name (start_body conn) else latest)

/-- The calls that leave a terminator in the payload field: a registration in memory whose payload
begins with a zero, and a start whose body does not fill the field. -/
def Call.Terminated : Call W → Prop
  | .register _ _ _ _ _ block => block.payload.val.head? = some 0
  | .start conn _ _ _ => (start_body conn).length ≠ DIAL_MAX_PAYLOAD
  | _ => True

/-- The payload field is a terminated string. -/
def Payload.Holds (payload : Payload) (body : Bytes) : Prop :=
  0 ∈ payload.val ∧ cstr payload.val = body

/-- A body that does not fill the field is the string in it. -/
theorem copy_payload_holds {body : Bytes} (hbad : isBadPayload body = false)
    (h : ¬body.length > DIAL_MAX_PAYLOAD) (hne : body.length ≠ DIAL_MAX_PAYLOAD) :
    (copy_payload body h).Holds body := by
  obtain ⟨n, hn⟩ : ∃ n, DIAL_MAX_PAYLOAD - body.length = n + 1 :=
    ⟨DIAL_MAX_PAYLOAD - body.length - 1, by omega⟩
  unfold copy_payload Payload.Holds
  simp only [hn, List.replicate_succ]
  exact ⟨by simp, cstr_append_zero (zero_notMem_of_isBadPayload hbad) _⟩

/-- What the payload fields hold after such calls; a name without a record has had no start. -/
def HoldsLatest (s : System W) (latest : Bytes → Bytes) : Prop :=
  (∀ app_name payload, payload_of s app_name = some payload → payload.Holds (latest app_name)) ∧
    ∀ app_name, payload_of s app_name = none → latest app_name = []

/-- A new record is behind all others. -/
theorem payload_of_registered (s : System W) (app : DIALApp W) (app_name : Bytes) :
    payload_of { s with apps := s.apps ++ [app] } app_name =
      (payload_of s app_name).or (if app_name = app.name then some app.payload else none) := by
  rw [payload_of_eq_lookup, payload_of_eq_lookup]
  simp only [payloads, List.map_append, List.lookup_append, List.map_cons, List.map_nil,
    List.lookup_cons, List.lookup_nil]
  by_cases h : app_name = app.name
  · simp [h]
  · simp [h, beq_eq_false_iff_ne.mpr h]

/-- A registration keeps the invariant. -/
theorem HoldsLatest.register {app_name : Bytes} {corsAllowedOrigin : Option Bytes} {block : Block}
    {s t : System W} {a : ℤ} {e : List Event} {latest : Bytes → Bytes} (hs : HoldsLatest s latest)
    (hblock : block.payload.val.head? = some 0)
    (h : Registration app_name corsAllowedOrigin block s a e t) : HoldsLatest t latest := by
  cases h with
  | refused => exact hs
  | present => exact hs
  | no_memory => exact hs
  | leaked => exact hs
  | @registered supply app hmux habsent hname hcors hpayload hretrieve =>
    have hnew : payload_of s app_name = none := by
      unfold payload_of
      rw [find_app_eq_none.mpr habsent, Option.map_none]
    have hof : ∀ other, payload_of { s with apps := s.apps ++ [app], supply, mux := false } other =
        (payload_of s other).or (if other = app.name then some app.payload else none) :=
      payload_of_registered s app
    constructor
    · intro other payload hp
      rw [hof] at hp
      cases hother : payload_of s other with
      | some payload' =>
        rw [hother, Option.some_or, Option.some.injEq] at hp
        exact hp ▸ hs.1 other payload' hother
      | none =>
        -- The new record: its block begins with a zero, and its name has had no start.
        rw [hother, Option.none_or] at hp
        split_ifs at hp with heq
        obtain ⟨rest, hrest⟩ := List.head?_eq_some_iff.mp hblock
        rw [Option.some.injEq, hpayload] at hp
        subst hp
        rw [hs.2 other hother, Payload.Holds, hrest]
        exact ⟨by simp, by simp [cstr]⟩
    · intro other hnone
      rw [hof, Option.or_eq_none_iff] at hnone
      exact hs.2 other hnone.1

/-- A start keeps the invariant. -/
theorem HoldsLatest.start {conn : mg_connection} {request_info : mg_request_info}
    {app_name : Bytes} {origin_header : Option Bytes} {s t : System W} {e : List Event}
    {latest : Bytes → Bytes} (hs : HoldsLatest s latest)
    (hbody : (start_body conn).length ≠ DIAL_MAX_PAYLOAD)
    (h : handle_app_start conn request_info app_name origin_header s = some ((), e, t)) :
    HoldsLatest t
      (if answered_2xx e then Function.update latest app_name (start_body conn) else latest) := by
  rcases handle_app_start_payload h with ⟨hrefused, hsame⟩ | ⟨haccepted, hbad, hmem, hlen, hof⟩
  · rw [hrefused, if_neg (by simp)]
    exact ⟨fun other payload hp => hs.1 other payload (hsame other ▸ hp),
      fun other hnone => hs.2 other (hsame other ▸ hnone)⟩
  · rw [haccepted, if_pos rfl]
    constructor
    · intro other payload hp
      rw [hof] at hp
      split_ifs at hp with heq
      · rw [Option.some.injEq] at hp
        subst heq hp
        rw [Function.update_self]
        exact copy_payload_holds hbad hlen hbody
      · rw [Function.update_of_ne heq]
        exact hs.1 other payload hp
    · intro other hnone
      rw [hof] at hnone
      split_ifs at hnone with heq
      rw [Function.update_of_ne heq]
      exact hs.2 other hnone

/-- **The payload is the latest.** After every run of registrations and starts that leave a
terminator in the payload field, `DIAL_get_payload` of a registered application returns a terminated
string, the body of the last start of that application that was answered 2xx or the empty string;
and a start that is not answered 2xx changes no payload. -/
theorem payload_is_latest {s : System W} {latest : Bytes → Bytes}
    (h : Latest Call.Terminated s latest) :
    (∀ app_name ∈ s.apps.map DIALApp.name, ∃ payload : Payload,
        DIAL_get_payload app_name s = some (some payload, [], s) ∧
          payload.Holds (latest app_name)) ∧
      ∀ conn request_info app_name origin_header t e,
        handle_app_start conn request_info app_name origin_header s = some ((), e, t) →
        answered_2xx e = false → ∀ other, payload_of t other = payload_of s other := by
  have hinv : HoldsLatest s latest := by
    induction h with
    | create =>
      refine ⟨fun app_name payload hp => ?_, fun _ _ => rfl⟩
      simp [payload_of, DIAL_create] at hp
    | register _ hok hexec ih =>
      obtain ⟨a, hexec⟩ := void_eq_some.mp hexec
      exact ih.register hok (DIAL_register_app_cases hexec)
    | start _ hok hexec ih => exact ih.start hok hexec
  constructor
  · intro app_name hmem
    cases hp : payload_of s app_name with
    | none =>
      rw [payload_of, Option.map_eq_none_iff, find_app_eq_none] at hp
      exact absurd hmem hp
    | some payload =>
      refine ⟨payload, ?_, hinv.1 app_name payload hp⟩
      rw [← hp]
      rfl
  · intro conn request_info app_name origin_header t e hexec hrefused
    rcases handle_app_start_payload hexec with ⟨-, hsame⟩ | ⟨haccepted, -⟩
    · exact hsame
    · simp [hrefused] at haccepted

/-- A start of the application with a body that comes with the headers. -/
def start_youtube (body : Bytes) : Call Bool :=
  .start ⟨body.length, 0, body, []⟩
    ⟨bytes "POST", bytes "/apps/YouTube", none, ⟨192, 168, 0, 2⟩, ⟨192, 168, 0, 3⟩, []⟩
    (bytes "YouTube") (some (bytes "package:com.google.android.youtube"))

/-- A body that came with the headers and is not too long is read whole. -/
theorem start_body_buffered {body : Bytes} (h : body.length ≤ DIAL_MAX_PAYLOAD) :
    start_body ⟨body.length, 0, body, []⟩ = body := by
  unfold start_body
  rw [mg_read_received ⟨rfl, rfl, by simp, by simp⟩]
  exact List.take_of_length_le (h.trans (by decide))

/-- A start with a short body. -/
theorem payload_is_latest_start :
    ∃ (s : System Bool) (payload : Payload),
      DIAL_get_payload (bytes "YouTube") s = some (some payload, [], s) ∧
        payload.Holds (bytes "v=1") := by
  obtain ⟨s, e, hs, haccepted, hmem⟩ : ∃ s e,
      (start_youtube (bytes "v=1")).exec youtube_server = some ((), e, s) ∧
      answered_2xx e = true ∧ bytes "YouTube" ∈ s.apps.map DIALApp.name :=
    ⟨_, _, rfl, rfl, by decide⟩
  have hcreate : Latest Call.Terminated new_server fun _ => [] := .create _ _ _ _
  have hregister : Latest Call.Terminated youtube_server fun _ => [] :=
    hcreate.register (by simp [Call.Terminated, zero_block]; rfl) register_youtube_exec
  have hstart := hregister.start (by simp [Call.Terminated]; decide) hs
  obtain ⟨payload, hget, hholds⟩ := (payload_is_latest hstart).1 _ hmem
  rw [haccepted] at hholds
  exact ⟨s, payload, hget, hholds⟩

/-- A body of as many characters as the field has bytes. -/
def full_body : Bytes := List.replicate DIAL_MAX_PAYLOAD (chr 'x')

/-- A start with such a body is accepted, and leaves no terminator in the field. -/
theorem full_body_not_terminated :
    ∃ (s : System Bool) (e : List Event) (payload : Payload),
      (start_youtube full_body).exec youtube_server = some ((), e, s) ∧ answered_2xx e = true ∧
      DIAL_get_payload (bytes "YouTube") s = some (some payload, [], s) ∧ 0 ∉ payload.val := by
  have hlength : full_body.length = DIAL_MAX_PAYLOAD := List.length_replicate
  have hbody := start_body_buffered hlength.le
  have hbad : isBadPayload full_body = false := by
    unfold isBadPayload full_body
    rw [List.any_replicate]
    decide
  have hlen : ¬full_body.length > DIAL_MAX_PAYLOAD := by omega
  have hrun : ((start_youtube full_body).exec youtube_server).map (fun r => answered_2xx r.2.1) =
      some true := by
    simp only [start_youtube, Call.exec, handle_app_start, with_app, found, start_app, hbody,
      dif_neg hlen, hbad]
    rfl
  obtain ⟨⟨⟨⟩, e, s⟩, hs, haccepted⟩ := Option.map_eq_some_iff.mp hrun
  rcases handle_app_start_payload hs with ⟨hrefused, -⟩ | ⟨-, -, -, hfits, hof⟩
  · simp [haccepted] at hrefused
  · have hget := hof (bytes "YouTube")
    rw [if_pos rfl] at hget
    refine ⟨s, e, _, hs, haccepted, congrArg (fun p => some (p, [], s)) hget, ?_⟩
    simp only [copy_payload, hbody]
    rw [hlength, Nat.sub_self, List.replicate_zero, List.append_nil]
    intro hmem
    exact absurd (List.mem_replicate.mp hmem).2 (by decide)

end DialServer
