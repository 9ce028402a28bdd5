import DialServer.Incoming.Bodies
import DialServer.Incoming.Heads
import DialServer.Server.Parsed

/-!
# The arrival of a request

What a connection is answered with depends on the bytes that arrive on it, and on how they are cut
into segments only where a control character stands in the head of the request: when a segment ends
behind such a character and before the end of the head the connection is closed without an answer.
Everything else is as if all had arrived at once.
-/

set_option maxRecDepth 8000

namespace DialServer

open CLib

variable {W : Type} {pending : List Bytes} {size n : ℕ}

/-! ## Reading the head -/

/-- The head of a request arrives: it ends in what fits into the buffer, and no segment ends in it
behind a control character. -/
structure HeadArrives (size : ℕ) (pending : List Bytes) (n : ℕ) : Prop where
  ends : head_length (pending.flatten.take size) = some n
  unbroken : ∀ k, (pending.take k).flatten.length < n → Clean (pending.take k).flatten

/-- What fits into the buffer has neither the end of a head nor a control character. -/
structure HeadTooLong (size : ℕ) (stream : Bytes) : Prop where
  long : size ≤ stream.length
  no_end : head_length (stream.take size) = none
  clean : Clean (stream.take size)

/-- The head of a text ends. -/
def HasHead (s : Bytes) : Prop := (head_length s).isSome = true

/-- The test that ends the loop of `read_request`. -/
def head_done (s : Bytes) : Bool := get_request_len s ≠ 0

/-- The end of a head stays where it is. -/
theorem stable_hasHead : Stable HasHead := by
  intro s t h
  obtain ⟨n, hn⟩ := Option.isSome_iff_exists.mp h
  exact Option.isSome_iff_exists.mpr ⟨n, head_length_append hn t⟩

/-- The loop ends when it has seen the end of the head or a control character. -/
theorem head_done_iff {s : Bytes} : head_done s = true ↔ HasHead s ∨ ¬Clean s := by
  unfold head_done HasHead
  rw [decide_eq_true_iff, ne_eq, get_request_len_eq_zero, not_and_or, Option.isSome_iff_ne_none]

/-- A part of a clean text is clean. -/
theorem Clean.mono {s t : Bytes} (h : Clean t) (hs : s <+: t) : Clean s := by
  obtain ⟨r, rfl⟩ := hs
  intro c hc
  refine h c ?_
  cases r with
  | nil => rwa [List.append_nil]
  | cons d r =>
    rw [List.dropLast_append_cons]
    exact List.mem_append_left _ (List.dropLast_subset _ hc)

/-- `read_request` reads as long as neither is seen. -/
theorem read_request_eq (buf : Bytes) (hbuf : get_request_len buf = 0) :
    read_request size buf pending =
      (get_request_len (receive head_done size buf pending).1,
        receive head_done size buf pending) := by
  fun_induction read_request size buf pending with
  | case1 buf pending hroom rest hread => rw [receive_nothing hroom hread, hbuf]
  | case2 buf pending hroom c read rest hread len hlen ih =>
    have hopen : head_done (buf ++ c :: read) = false := decide_eq_false (not_not.mpr hlen)
    rw [receive_more hroom hread, hopen, if_neg Bool.false_ne_true]
    exact ih hlen
  | case3 buf pending hroom c read rest hread len hlen =>
    have hdone : head_done (buf ++ c :: read) = true := decide_eq_true hlen
    rw [receive_more hroom hread, hdone, if_pos rfl]
  | case4 buf pending hfull => rw [receive_full hfull, hbuf]

/-- The segments up to one of them are the front of the stream. -/
theorem take_flatten (k : ℕ) :
    pending.flatten.take (pending.take k).flatten.length = (pending.take k).flatten := by
  have hsplit : pending.flatten = (pending.take k).flatten ++ (pending.drop k).flatten := by
    rw [← List.flatten_append, List.take_append_drop]
  rw [hsplit, List.take_left]

/-- The head that arrives is the one that ends what the stream becomes. -/
theorem headArrives_iff : HeadArrives size pending n ↔
    Becomes head_done HasHead size [] pending ∧
      head_length (pending.flatten.take size) = some n := by
  -- The segments up to one of them that fit.
  have hpart {k : ℕ} (hlt : (pending.take k).flatten.length < size) :
      (pending.flatten.take size).take (pending.take k).flatten.length =
        (pending.take k).flatten := by
    rw [List.take_take, Nat.min_eq_left hlt.le, take_flatten]
  constructor
  · intro h
    refine ⟨⟨by simp [HasHead, h.ends], fun k hlt hdone => ?_⟩, h.ends⟩
    rw [List.nil_append] at hlt hdone ⊢
    rcases lt_or_ge (pending.take k).flatten.length n with hbefore | hbehind
    · exact (head_done_iff.mp hdone).resolve_right (not_not.mpr (h.unbroken k hbefore))
    · have hend := head_length_take_of_le h.ends hbehind
      rw [hpart hlt] at hend
      simp [HasHead, hend]
  · rintro ⟨h, hend⟩
    refine ⟨hend, fun k hbefore => ?_⟩
    by_contra hclean
    have hlt : (pending.take k).flatten.length < size := by
      have := (head_length_le hend).2
      rw [List.length_take] at this
      omega
    have hhead : HasHead (pending.take k).flatten := by
      simpa using h.unbroken k (by simpa using hlt)
        (by simpa using head_done_iff.mpr (.inr hclean))
    -- The head that has been seen there is that of the stream, and would end before it does.
    have hsame : head_length (pending.take k).flatten = some n := by
      rw [← hpart hlt]
      refine head_length_take hend ?_
      rw [hpart hlt]
      exact Option.isSome_iff_ne_none.mp hhead
    have := (head_length_le hsame).2
    omega

/-- What `read_request` finds, however the bytes arrive. No byte is lost by it. -/
theorem read_request_spec (size : ℕ) (hlive : Live pending) :
    ∃ len buf rest, read_request size [] pending = (len, buf, rest) ∧
      buf ++ rest.flatten = pending.flatten ∧ len ≤ buf.length ∧ Live rest ∧
      (∀ n : ℕ, 0 < n → (len = n ↔ HeadArrives size pending n)) ∧
      (len = 0 ∧ buf.length = size ↔ HeadTooLong size pending.flatten) := by
  have hopen : ¬head_done [] = true := by decide
  have hgood := @good_receive_iff _ head_done HasHead size [] pending stable_hasHead
    (fun s hs => head_done_iff.mpr (.inl hs)) hlive (Nat.zero_le _) hopen
  obtain ⟨hkept, hfits, hrest, hends⟩ :=
    @received_receive _ head_done size [] pending hlive (Nat.zero_le _)
  rw [List.nil_append] at hkept hends
  generalize hr : receive head_done size [] pending = r at *
  refine ⟨get_request_len r.1, r.1, r.2, ?_, hkept, get_request_len_le r.1, hrest,
    fun n hn => ?_, ?_⟩
  · rw [read_request_eq [] rfl, hr]
  · -- The buffer is the front of the stream, so that a head in it is that of the stream.
    have hfront {m : ℕ} (hm : head_length r.1 = some m) :
        head_length (pending.flatten.take size) = some m := by
      rw [← hkept, List.take_append, List.take_of_length_le hfits]
      exact head_length_append hm _
    rw [get_request_len_eq_iff hn, headArrives_iff, ← hgood]
    constructor
    · exact fun h => ⟨Option.isSome_iff_exists.mpr ⟨n, h⟩, hfront h⟩
    · rintro ⟨h, hend⟩
      obtain ⟨m, hm⟩ := Option.isSome_iff_exists.mp h
      rw [hm, ← hfront hm, hend]
  · rw [get_request_len_eq_zero]
    constructor
    · rintro ⟨⟨hnone, hclean⟩, hfull⟩
      have hopen : ¬head_done r.1 = true := by
        rw [head_done_iff, HasHead, hnone]
        simpa using hclean
      have hall : r.1 = pending.flatten.take size := hends.resolve_left hopen
      refine ⟨?_, hall ▸ hnone, hall ▸ hclean⟩
      have hlength := congrArg List.length hall
      rw [List.length_take] at hlength
      omega
    · rintro ⟨hlong, hnone, hclean⟩
      -- What is true of all that fits is true of the part of it that has been read.
      have hpart : r.1 <+: pending.flatten.take size :=
        List.prefix_take_iff.mpr ⟨⟨r.2.flatten, hkept⟩, hfits⟩
      have hopen : ¬head_done r.1 = true := by
        rw [head_done_iff]
        rintro (hhead | hnot)
        · obtain ⟨rest, hrest⟩ := hpart
          have := stable_hasHead _ rest hhead
          rw [hrest, HasHead, hnone] at this
          cases this
        · exact hnot (hclean.mono hpart)
      have hall : r.1 = pending.flatten.take size := hends.resolve_left hopen
      refine ⟨⟨hall ▸ hnone, hall ▸ hclean⟩, ?_⟩
      rw [hall, List.length_take]
      omega

/-! ## The rest of the request -/

/-- A request is handled by what is read of its body. -/
theorem handle_request_congr {conn conn' : mg_connection}
    (h : ∀ len, (mg_read conn len).1 = (mg_read conn' len).1) (ri : mg_request_info) :
    (handle_request conn ri : Server W Unit) = handle_request conn' ri := by
  have hperform (d : Decision) :
      (perform conn (normalise ri) d : Server W Unit) = perform conn' (normalise ri) d := by
    cases d with
    | start app_name =>
      have hbody : start_body conn = start_body conn' := h _
      simp only [perform, handle_app_start]
      congr 1
      funext pos app
      unfold start_app
      simp only [hbody]
    | dial_data app_name use_payload =>
      simp only [perform, handle_dial_data]
      congr 1
      funext pos app
      unfold dial_data_app
      rw [h]
    | _ => rfl
  unfold handle_request request_handler
  simp only [hperform]

/-- A valid request, with all that arrives. -/
theorem process_valid_request_eq {rest : List Bytes} (hlive : Live rest) (ri : mg_request_info)
    (buffered : Bytes) :
    (process_valid_request ri buffered rest : Server W Unit) =
      process_valid_request ri (buffered ++ rest.flatten) [] := by
  unfold process_valid_request
  simp only
  split_ifs
  · rfl
  · refine handle_request_congr (fun len => ?_) ri
    rw [mg_read_fst hlive, mg_read_fst (by simp [Live])]
    simp [mg_connection.unread, mg_connection.stream]

/-- The text of the buffer after the parser is a part of it. -/
theorem length_parsed_text_le (text : Bytes) : (parsed_text text).length ≤ text.length := by
  have hword := skip_quoted_length (text.dropWhile isspace) (bytes " ") (bytes " ")
  have hsplit := congrArg List.length (List.takeWhile_append_dropWhile (p := isspace) (l := text))
  unfold parsed_text skip
  rw [List.length_append] at hsplit ⊢
  omega

/-- A request, with all that arrives. -/
theorem process_request_eq {rest : List Bytes} (hlive : Live rest) {buf : Bytes}
    (hn : n ≤ buf.length) (local_addr remote_addr : InAddr) :
    (process_request local_addr remote_addr n buf rest : Server W Unit) =
      process_request local_addr remote_addr n (buf ++ rest.flatten) [] := by
  have htext : (buf ++ rest.flatten).take (n - 1) = buf.take (n - 1) :=
    List.take_append_of_le_length (by omega)
  have hlength : (parsed_text (cstr (buf.take (n - 1)))).length ≤ buf.length := by
    have hparsed := length_parsed_text_le (cstr (buf.take (n - 1)))
    have hcstr := (List.takeWhile_sublist (· ≠ 0) (l := buf.take (n - 1))).length_le
    exact (hparsed.trans hcstr).trans (List.length_take_le' ..)
  have hlength' := hlength.trans (Nat.le_add_right _ rest.flatten.length)
  unfold process_request
  simp only
  rw [htext, List.take_of_length_le hlength, List.length_append, List.take_of_length_le hlength']
  cases parse_http_request (cstr (buf.take (n - 1))) local_addr remote_addr with
  | none => rfl
  | some ri =>
    simp only
    rw [process_valid_request_eq hlive, List.drop_append_of_le_length hn]

/-- The head arrives. -/
theorem process_new_connection_arrives (hlive : Live pending)
    (h : HeadArrives MAX_REQUEST_SIZE pending n) (local_addr remote_addr : InAddr) :
    (process_new_connection local_addr remote_addr pending : Server W Unit) =
      process_request local_addr remote_addr n pending.flatten [] := by
  obtain ⟨len, buf, rest, hread, hkept, hlen, hrest, harrives, -⟩ :=
    read_request_spec MAX_REQUEST_SIZE hlive
  have hpos : 0 < n := by
    have := (head_length_le h.ends).1
    omega
  obtain rfl := (harrives n hpos).mpr h
  unfold process_new_connection
  rw [hread]
  simp only
  rw [if_neg (by omega), if_neg (by omega), Int.toNat_natCast,
    process_request_eq hrest (by omega), hkept]

/-- The buffer is full before. -/
theorem process_new_connection_too_long (hlive : Live pending)
    (h : HeadTooLong MAX_REQUEST_SIZE pending.flatten) (local_addr remote_addr : InAddr) :
    (process_new_connection local_addr remote_addr pending : Server W Unit) =
      mg_send_http_error 413 (bytes "Request Too Large") [] := by
  obtain ⟨len, buf, rest, hread, -, -, -, -, hlong⟩ := read_request_spec MAX_REQUEST_SIZE hlive
  unfold process_new_connection
  rw [hread]
  exact if_pos (hlong.mpr h)

/-- The client gives up, or it has sent a control character. -/
theorem process_new_connection_closed (hlive : Live pending)
    (h : ∀ n, ¬HeadArrives MAX_REQUEST_SIZE pending n)
    (h' : ¬HeadTooLong MAX_REQUEST_SIZE pending.flatten) (local_addr remote_addr : InAddr) :
    (process_new_connection local_addr remote_addr pending : Server W Unit) = pure () := by
  obtain ⟨len, buf, rest, hread, -, -, -, harrives, hlong⟩ :=
    read_request_spec MAX_REQUEST_SIZE hlive
  unfold process_new_connection
  rw [hread]
  simp only
  rw [if_neg fun hfull => h' (hlong.mp hfull), if_pos]
  by_contra hpos
  have hlen' : (len.toNat : ℤ) = len := by omega
  exact h len.toNat ((harrives len.toNat (by omega)).mp hlen'.symm)

/-- **What a connection is answered with.** When the head of a request arrives, the request is
processed as if all that arrives had arrived at once. When what fits into the buffer has neither the
end of a head nor a control character, the request is refused as too large. Otherwise the connection
is closed without an answer. -/
theorem process_new_connection_eq (hlive : Live pending) (local_addr remote_addr : InAddr) :
    (∀ n, HeadArrives MAX_REQUEST_SIZE pending n →
      (process_new_connection local_addr remote_addr pending : Server W Unit) =
        process_request local_addr remote_addr n pending.flatten []) ∧
    (HeadTooLong MAX_REQUEST_SIZE pending.flatten →
      (process_new_connection local_addr remote_addr pending : Server W Unit) =
        mg_send_http_error 413 (bytes "Request Too Large") []) ∧
    ((∀ n, ¬HeadArrives MAX_REQUEST_SIZE pending n) →
      ¬HeadTooLong MAX_REQUEST_SIZE pending.flatten →
      (process_new_connection local_addr remote_addr pending : Server W Unit) = pure ()) :=
  ⟨fun _ h => process_new_connection_arrives hlive h _ _,
    fun h => process_new_connection_too_long hlive h _ _,
    fun h h' => process_new_connection_closed hlive h h' _ _⟩

/-- A request with a tab in its head, and a segment that ends behind the tab: no answer. -/
theorem process_new_connection_eq_tab :
    (process_new_connection ⟨10, 0, 0, 1⟩ ⟨10, 0, 0, 2⟩
      [bytes "GET /a\tb", bytes " HTTP/1.1\r\n\r\n"] : Server Unit Unit) = pure () := by
  refine (process_new_connection_eq (by simp [Live, bytes]) _ _).2.2 (fun n h => ?_) fun h => ?_
  · have hend : head_length (([bytes "GET /a\tb", bytes " HTTP/1.1\r\n\r\n"].flatten).take
        MAX_REQUEST_SIZE) = some 21 := by decide
    rw [h.ends, Option.some.injEq] at hend
    exact absurd (h.unbroken 1 (by rw [hend]; decide)) (by decide)
  · exact absurd h.long (by decide)

/-- **How the bytes are cut into segments does not matter.** Two connections on which the same bytes
arrive, without a control character in the head of the request, are answered alike, and leave the
server in the same state. -/
theorem segments_irrelevant {pending' : List Bytes} (hlive : Live pending) (hlive' : Live pending')
    (hsame : pending.flatten = pending'.flatten)
    (hclean : ∀ n, head_length (pending.flatten.take MAX_REQUEST_SIZE) = some n →
      Clean (pending.flatten.take n)) (local_addr remote_addr : InAddr) :
    (process_new_connection local_addr remote_addr pending : Server W Unit) =
      process_new_connection local_addr remote_addr pending' := by
  -- Without a control character a segment can end everywhere.
  have harrives {p : List Bytes} (hp : p.flatten = pending.flatten) (n : ℕ) :
      HeadArrives MAX_REQUEST_SIZE p n ↔
        head_length (pending.flatten.take MAX_REQUEST_SIZE) = some n := by
    refine ⟨fun h => hp ▸ h.ends, fun h => ⟨by rw [hp, h], fun k hlt => ?_⟩⟩
    refine (hclean n h).mono (List.prefix_take_iff.mpr ⟨?_, hlt.le⟩)
    rw [← hp, ← take_flatten k]
    exact List.take_prefix ..
  by_cases hend : ∃ n, head_length (pending.flatten.take MAX_REQUEST_SIZE) = some n
  · obtain ⟨n, hn⟩ := hend
    rw [process_new_connection_arrives hlive ((harrives rfl n).mpr hn),
      process_new_connection_arrives hlive' ((harrives hsame.symm n).mpr hn), hsame]
  have hnone (n : ℕ) : ¬HeadArrives MAX_REQUEST_SIZE pending n := fun h =>
    hend ⟨n, (harrives rfl n).mp h⟩
  have hnone' (n : ℕ) : ¬HeadArrives MAX_REQUEST_SIZE pending' n := fun h =>
    hend ⟨n, (harrives hsame.symm n).mp h⟩
  by_cases htoo : HeadTooLong MAX_REQUEST_SIZE pending.flatten
  · rw [process_new_connection_too_long hlive htoo,
      process_new_connection_too_long hlive' (hsame ▸ htoo)]
  · rw [process_new_connection_closed hlive hnone htoo,
      process_new_connection_closed hlive' hnone' (hsame ▸ htoo)]

/-- A request in one segment and in three. -/
theorem segments_irrelevant_get :
    (process_new_connection ⟨10, 0, 0, 1⟩ ⟨10, 0, 0, 2⟩
      [bytes "GET /apps/YouTube HTTP/1.1\r\n\r\n"] : Server Unit Unit) =
    process_new_connection ⟨10, 0, 0, 1⟩ ⟨10, 0, 0, 2⟩
      [bytes "GET /apps/You", bytes "Tube HTTP/1.1\r\n", bytes "\r\n"] := by
  apply segments_irrelevant
  · simp [Live, bytes]
  · simp [Live, bytes]
  · rfl
  · refine fun n _ => Clean.mono ?_ (List.take_prefix ..)
    decide

end DialServer
