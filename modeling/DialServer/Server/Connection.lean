import DialServer.Server.Sections

/-!
# Bodies and answers

What a call reads from its connection and the status code of what it writes. A body that arrives
completely is what `mg_read` returns, up to the length it is asked for, however the socket cuts it
into segments. All answers of the server begin with the same nine characters and a code of three,
well inside the buffer of `mg_printf`, so that the code is there whatever the rest of the answer is.
-/

namespace DialServer

open CLib Program

variable {W : Type}

/-! ## Bodies -/

/-- The connection delivers all of the body: it has the announced length, nothing of it has been
read, and no `recv` fails. -/
structure Receives (conn : mg_connection) (body : Bytes) : Prop where
  announced : conn.content_len = body.length
  unread : conn.consumed_content = 0
  arrives : body <+: conn.buffered ++ conn.pending.flatten
  no_failure : ∀ segment ∈ conn.pending, segment ≠ []

/-- The loop of `mg_read` returns what the segments hold, up to the length. -/
theorem pull_loop_eq_take {pending : List Bytes} (h : ∀ segment ∈ pending, segment ≠ []) (len : ℕ) :
    (pull_loop pending len).1 = pending.flatten.take len := by
  induction pending generalizing len with
  | nil => simp [pull_loop]
  | cons segment pending ih =>
    obtain ⟨hsegment, hpending⟩ := List.forall_mem_cons.mp h
    unfold pull_loop
    split_ifs with h0 hlen
    · simp [h0]
    · -- The whole segment is wanted, and the rest comes from the segments behind it.
      change segment ++ (pull_loop pending (len - segment.length)).1 = _
      rw [ih hpending, List.flatten_cons, List.take_append, List.take_of_length_le hlen]
    · rw [List.flatten_cons, List.take_append_of_le_length (by omega)]

/-- A body that arrives is read up to the length asked for. -/
theorem mg_read_received {conn : mg_connection} {body : Bytes} (h : Receives conn body) (len : ℕ) :
    (mg_read conn len).1 = body.take len := by
  obtain ⟨hlen, hunread, ⟨rest, harrives⟩, hfail⟩ := h
  -- The bytes that came with the headers and those from the socket make up the body.
  have hread : ∀ n ≤ body.length, conn.buffered.take n ++
      (pull_loop conn.pending (n - (conn.buffered.take n).length)).1 = body.take n := by
    intro n hn
    rw [pull_loop_eq_take hfail, List.length_take,
      show n - min n conn.buffered.length = n - conn.buffered.length by omega, ← List.take_append,
      ← harrives, List.take_append_of_le_length hn]
  unfold mg_read
  rw [hlen, hunread]
  by_cases hempty : body = []
  · simp [hempty]
  have hpos : 0 < body.length := List.length_pos_of_ne_nil hempty
  rw [if_pos (by omega)]
  simp only [Nat.cast_zero, sub_zero, Int.toNat_natCast, List.drop_zero]
  split_ifs with hlt
  · rw [hread _ le_rfl, List.take_of_length_le le_rfl, List.take_of_length_le hlt.le]
  · exact hread len (by omega)

/-- A body that is not refused has no terminator in it. -/
theorem zero_notMem_of_isBadPayload {body : Bytes} (h : isBadPayload body = false) : 0 ∉ body := by
  intro hmem
  unfold isBadPayload at h
  rw [List.any_eq_false] at h
  exact h 0 hmem (by decide)

/-! ## Answers -/

/-- The status code in the first line of a text. -/
def status_code (text : Bytes) : Bytes := (text.drop (bytes "HTTP/1.1 ").length).take 3

/-- The status code of the first text that a call writes. -/
def answer : List Event → Option Bytes
  | [] => none
  | .write text :: _ => some (status_code text)
  | .lock :: e | .unlock :: e | .callback _ _ :: e => answer e

/-- The call answers with a code 2xx. -/
def answered_2xx (e : List Event) : Bool :=
  match answer e with
  | some code => code.head? = some (chr '2')
  | none => false

/-- The answer of two parts is that of the first part that writes. -/
theorem answer_append (e₁ e₂ : List Event) : answer (e₁ ++ e₂) = (answer e₁).or (answer e₂) := by
  induction e₁ with
  | nil => simp [answer]
  | cons x e₁ ih =>
    cases x with
    | write text => simp [answer]
    | _ => simpa [answer] using ih

/-- What is written before decides the answer. -/
theorem answer_append_of_some {e₁ : List Event} {code : Bytes} (h : answer e₁ = some code)
    (e₂ : List Event) : answer (e₁ ++ e₂) = some code := by
  rw [answer_append, h, Option.some_or]

/-- What writes nothing leaves the answer to what follows. -/
theorem answer_append_of_none {e₁ : List Event} (h : answer e₁ = none) (e₂ : List Event) :
    answer (e₁ ++ e₂) = answer e₂ := by
  rw [answer_append, h, Option.none_or]

/-- A text within the buffer of `mg_printf` is not cut, and the rest of the text is cut behind
it. -/
theorem mg_printf_append {text : Bytes} (h : text.length ≤ BUFSIZ - 1) (rest : Bytes) :
    mg_printf (text ++ rest) = text ++ rest.take (BUFSIZ - 1 - text.length) := by
  unfold mg_printf mg_vsnprintf
  rw [List.take_append, List.take_of_length_le h]

/-- The status code of an answer. -/
theorem status_code_printf {code : Bytes} (h : code.length = 3) (rest : Bytes) :
    status_code (mg_printf (bytes "HTTP/1.1 " ++ code ++ rest)) = code := by
  have hlen : (bytes "HTTP/1.1 " ++ code).length = 12 := by
    rw [List.length_append, h]
    rfl
  rw [mg_printf_append (by rw [hlen]; decide), List.append_assoc]
  unfold status_code
  rw [List.drop_left, ← h, List.take_left]

/-- An answer to a start has its code. -/
theorem answered_created {code : String} (hcode : (bytes code).length = 3)
    (hfirst : (bytes code).head? = some (chr '2')) (laddr : Bytes) (dial_port : UInt16)
    (app_name : Bytes) (origin_header : Option Bytes) (e : List Event) :
    answered_2xx (.write (mg_printf (created_response code laddr dial_port app_name
      origin_header)) :: e) = true := by
  unfold answered_2xx created_response
  simp only [answer, List.append_assoc]
  rw [← List.append_assoc, status_code_printf hcode]
  simpa using hfirst

/-- A reply is one text and leaves the state. -/
theorem reply_eq_some {text : Bytes} {s t : System W} {e : List Event} :
    reply text s = some ((), e, t) ↔ e = [.write (mg_printf text)] ∧ t = s := by
  simp [reply, eq_comm]

/-- An error answers with its code and leaves the state. -/
theorem http_error_answer {status : ℕ} {reason : String} (hcode : (dec status).length = 3)
    {s t : System W} {e : List Event} (h : http_error status reason s = some ((), e, t)) :
    answer e = some (dec status) ∧ t = s := by
  obtain ⟨⟨⟩, e₁, r, e₂, h₁, h₂, rfl⟩ := bind_eq_some.mp h
  obtain ⟨rfl, rfl⟩ := reply_eq_some.mp h₁
  obtain ⟨rfl, rfl⟩ := reply_eq_some.mp h₂
  refine ⟨?_, rfl⟩
  unfold http_error_head
  simp only [List.append_assoc, List.singleton_append, answer, Option.some.injEq]
  rw [← List.append_assoc, status_code_printf hcode]

/-- An error with a code other than 2xx. -/
theorem http_error_refuses {status : ℕ} {reason : String} (hcode : (dec status).length = 3)
    (hfirst : (dec status).head? ≠ some (chr '2')) {s t : System W} {e : List Event}
    (h : http_error status reason s = some ((), e, t)) :
    (∀ e', answered_2xx (e ++ e') = false) ∧ t = s := by
  obtain ⟨hanswer, rfl⟩ := http_error_answer hcode h
  refine ⟨fun e' => ?_, rfl⟩
  unfold answered_2xx
  rw [answer_append_of_some hanswer]
  simpa using hfirst

/-- A read of the state, when it is known which record is there. -/
theorem get_state_apply {pos : ℕ} {app app' : DIALApp W} {s : System W}
    (happ : s.apps[pos]? = some app) : get_state pos app' s = some (app.state, [], s) := by
  unfold get_state
  rw [read_apply, happ]
  rfl

/-- A handler that gets the mutex works on the application that it finds. -/
theorem with_app_found {s : System W} {app_name : Bytes} {app : DIALApp W}
    (hgranted : s.supply 0 = true) (hmux : s.mux = false)
    (happ : s.apps[find_app s.apps app_name]? = some app)
    (body : ℕ → DIALApp W → Server W Unit) :
    with_app app_name body s = (body (find_app s.apps app_name) app (locked s)).map
      fun r => (r.1, .lock :: r.2.1, r.2.2) := by
  have hget : (get_app app_name : Server W _) (locked s) =
      some ((find_app s.apps app_name, some app), [], locked s) := by
    rw [← happ]
    rfl
  unfold with_app found
  rw [bind_of_some (ds_lock_taken hgranted hmux)]
  simp only [Bool.not_true, Bool.false_eq_true, if_false]
  rw [bind_of_some hget]
  simp

/-- A handler that finds the mutex held does not return. -/
theorem with_app_waits {s : System W} {app_name : Bytes} (hgranted : s.supply 0 = true)
    (hmux : s.mux = true) (body : ℕ → DIALApp W → Server W Unit) :
    with_app app_name body s = none := by
  unfold with_app
  rw [bind_apply, ds_lock_waits hgranted hmux]

/-- The way out of a handler through an error. -/
theorem refusal_eq_some {status : ℕ} {reason : String} (hcode : (dec status).length = 3)
    (hfirst : (dec status).head? ≠ some (chr '2')) {s t : System W} {e : List Event}
    (h : (do http_error status reason; ds_unlock : Server W Unit) s = some ((), e, t)) :
    answered_2xx e = false ∧ t = { s with mux := false } := by
  obtain ⟨⟨⟩, e₁, r, e₂, h₁, h₂, rfl⟩ := bind_eq_some.mp h
  obtain ⟨hrefused, rfl⟩ := http_error_refuses hcode hfirst h₁
  obtain ⟨rfl, rfl⟩ := ds_unlock_eq_some.mp h₂
  exact ⟨hrefused _, rfl⟩

/-- An operation that takes the mutex refuses without it, and leaves all but the supply. -/
theorem lock_cases {q : Server W Unit} {s t : System W} {e : List Event}
    (h : (do if !(← ds_lock) then internal_server_error else q) s = some ((), e, t)) :
    (s.supply 0 = false ∧ answered_2xx e = false ∧ t.world = s.world) ∨
      (s.supply 0 = true ∧ ∃ e', q (locked s) = some ((), e', t) ∧ e = .lock :: e') := by
  obtain ⟨taken, e₁, r, e₂, hlock, hrest, rfl⟩ := bind_eq_some.mp h
  rcases ds_lock_cases hlock with ⟨hnot, rfl, rfl, rfl⟩ | ⟨hgranted, -, rfl, rfl, rfl⟩
  · obtain ⟨hrefused, rfl⟩ := http_error_refuses rfl (by decide) hrest
    exact .inl ⟨hnot, by simpa using hrefused [], rfl⟩
  · simp only [Bool.not_true, Bool.false_eq_true, if_false] at hrest
    exact .inr ⟨hgranted, e₂, hrest, rfl⟩

/-- The lookup refuses a name that no record has. -/
theorem found_cases {app_name : Bytes} {body : ℕ → DIALApp W → Server W Unit} {s t : System W}
    {e : List Event} (h : found app_name body s = some ((), e, t)) :
    (s.apps[find_app s.apps app_name]? = none ∧ answered_2xx e = false ∧ t.world = s.world) ∨
      ∃ app, s.apps[find_app s.apps app_name]? = some app ∧
        body (find_app s.apps app_name) app s = some ((), e, t) := by
  obtain ⟨⟨pos, found⟩, e₁, r, e₂, hget, hrest, rfl⟩ := bind_eq_some.mp h
  simp only [get_app, read_apply, Option.some.injEq, Prod.mk.injEq] at hget
  obtain ⟨⟨rfl, hfound⟩, rfl, rfl⟩ := hget
  cases found with
  | none =>
    obtain ⟨hrefused, rfl⟩ := refusal_eq_some rfl (by decide) hrest
    exact .inl ⟨hfound, hrefused, rfl⟩
  | some app => exact .inr ⟨app, hfound, hrest⟩

/-- The answer to a stop and to a hiding is 2xx. -/
theorem answered_ok (origin_header : Option Bytes) (e : List Event) :
    answered_2xx (.write (mg_printf (ok_response origin_header)) :: e) = true := by
  have htext : ok_response origin_header = bytes "HTTP/1.1 " ++ bytes "200" ++
      (bytes " OK" ++ crlf ++ bytes "Content-Type: text/plain" ++ crlf ++
        allow_origin_line origin_header ++ crlf) := by
    rfl
  unfold answered_2xx
  rw [htext]
  simp only [answer]
  rw [status_code_printf rfl]
  rfl

end DialServer
