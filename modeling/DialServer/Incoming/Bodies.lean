import DialServer.Server.Connection
import DialServer.Source.Incoming

/-!
# Reading a body

`mg_read` reads the body of a request as from one stream: first what came with the head, then what
the socket delivers, and not more than the announced length. So several reads return one behind the
other what one long read would have returned, and when the rest has been discarded the connection
stands at the end of the body, whatever the handler has read of it.
-/

namespace DialServer

open CLib

variable {conn : mg_connection} {pending : List Bytes}

/-- What will arrive on a connection. -/
def mg_connection.stream (conn : mg_connection) : Bytes :=
  conn.buffered.drop conn.consumed_content ++ conn.pending.flatten

/-- The part of it that belongs to the body. -/
def mg_connection.unread (conn : mg_connection) : Bytes :=
  conn.stream.take (conn.content_len - conn.consumed_content).toNat

/-- What `mg_read` asserts of its connection. -/
def mg_connection.Readable (conn : mg_connection) : Prop :=
  (conn.content_len = -1 ∧ conn.consumed_content = 0) ∨ conn.consumed_content ≤ conn.content_len

/-- How reading some bytes of the body changes the connection. -/
structure Advances (conn : mg_connection) (read : Bytes) (conn' : mg_connection) : Prop where
  content_len : conn'.content_len = conn.content_len
  consumed : conn'.consumed_content = conn.consumed_content + read.length
  stream : conn.stream = read ++ conn'.stream
  unread : conn.unread = read ++ conn'.unread
  live : Live conn'.pending

/-- Reading nothing. -/
theorem Advances.refl (hlive : Live conn.pending) : Advances conn [] conn :=
  ⟨rfl, rfl, rfl, rfl, hlive⟩

/-- Reading one part behind the other. -/
theorem Advances.trans {conn' conn'' : mg_connection} {read read' : Bytes}
    (h : Advances conn read conn') (h' : Advances conn' read' conn'') :
    Advances conn (read ++ read') conn'' where
  content_len := h'.content_len.trans h.content_len
  consumed := by rw [h'.consumed, h.consumed, List.length_append, add_assoc]
  stream := by rw [h.stream, h'.stream, List.append_assoc]
  unread := by rw [h.unread, h'.unread, List.append_assoc]
  live := h'.live

/-- Reading keeps what `mg_read` asserts. -/
theorem Advances.readable {conn' : mg_connection} {read : Bytes} (h : Advances conn read conn')
    (hconn : conn.Readable) : conn'.Readable := by
  have hlength : read.length ≤ (conn.content_len - conn.consumed_content).toNat := by
    have := congrArg List.length h.unread
    unfold mg_connection.unread at this
    rw [List.length_take, List.length_append] at this
    omega
  unfold mg_connection.Readable at hconn ⊢
  rw [h.content_len, h.consumed]
  omega

/-- The loop of `mg_read` leaves what is behind the bytes that it returns. -/
theorem pull_loop_append (hlive : Live pending) (len : ℕ) :
    (pull_loop pending len).1 ++ (pull_loop pending len).2.flatten = pending.flatten ∧
      Live (pull_loop pending len).2 := by
  induction pending generalizing len with
  | nil => exact ⟨rfl, hlive⟩
  | cons segment pending ih =>
    obtain ⟨hsegment, hpending⟩ := List.forall_mem_cons.mp hlive
    unfold pull_loop
    split_ifs with h0 hlen
    · exact ⟨rfl, hlive⟩
    · obtain ⟨happend, hrest⟩ := ih hpending (len - segment.length)
      refine ⟨?_, hrest⟩
      show (segment ++ _) ++ _ = _
      rw [List.append_assoc, happend, List.flatten_cons]
    · refine ⟨?_, List.forall_mem_cons.mpr ⟨?_, hpending⟩⟩
      · simp only [List.flatten_cons, ← List.append_assoc, List.take_append_drop]
      · rw [ne_eq, List.drop_eq_nil_iff]
        exact hlen

/-- Bytes that are taken from the front of the stream are taken from the body. -/
theorem Advances.of_stream {conn' : mg_connection} {read : Bytes}
    (hlen : conn'.content_len = conn.content_len)
    (hconsumed : conn'.consumed_content = conn.consumed_content + read.length)
    (hstream : conn.stream = read ++ conn'.stream) (hlive : Live conn'.pending)
    (hread : read.length ≤ (conn.content_len - conn.consumed_content).toNat) :
    Advances conn read conn' := by
  refine ⟨hlen, hconsumed, hstream, ?_, hlive⟩
  unfold mg_connection.unread
  rw [hstream, List.take_append, List.take_of_length_le hread, hlen, hconsumed]
  congr 2
  omega

/-- **`mg_read` reads from a stream.** It returns what is left of the body, up to the length it is
asked for, and leaves what is behind it. -/
theorem mg_read_stream (hlive : Live conn.pending) (len : ℕ) :
    (mg_read conn len).1 = conn.unread.take len ∧
      Advances conn (mg_read conn len).1 (mg_read conn len).2 := by
  unfold mg_read
  by_cases hmore : (conn.consumed_content : ℤ) < conn.content_len
  · rw [if_pos hmore]
    simp only
    set to_read := (conn.content_len - conn.consumed_content).toNat with hto_read
    have hmin : (if to_read < len then to_read else len) = min to_read len := by
      split_ifs <;> omega
    rw [hmin]
    set buffered := conn.buffered.drop conn.consumed_content with hbuffered
    set wanted := min to_read len with hwanted
    have hbuf : (buffered.take wanted).length = min wanted buffered.length := List.length_take ..
    obtain ⟨hrest, hlive'⟩ := pull_loop_append hlive (wanted - (buffered.take wanted).length)
    have hpulled := pull_loop_eq_take hlive (wanted - (buffered.take wanted).length)
    set pulled := pull_loop conn.pending (wanted - (buffered.take wanted).length) with hpull
    have hread : buffered.take wanted ++ pulled.1 = conn.stream.take wanted := by
      rw [mg_connection.stream, ← hbuffered, List.take_append, hpulled, hbuf]
      congr 2
      omega
    have hlength : (buffered.take wanted ++ pulled.1).length ≤ wanted := by
      rw [hread]
      exact List.length_take_le ..
    refine ⟨?_, .of_stream rfl ?_ ?_ hlive' (hlength.trans (min_le_left ..))⟩
    · rw [hread, mg_connection.unread, List.take_take, min_comm]
    · rw [List.length_append, add_assoc]
    · -- Either all that came with the head is read, or nothing else is.
      show buffered ++ conn.pending.flatten = (buffered.take wanted ++ pulled.1) ++
        (conn.buffered.drop (conn.consumed_content + (buffered.take wanted).length +
          pulled.1.length) ++ pulled.2.flatten)
      rw [add_assoc, ← List.drop_drop, ← hbuffered]
      rcases le_or_gt buffered.length wanted with hall | hpart
      · rw [List.take_of_length_le hall, List.drop_eq_nil_of_le (Nat.le_add_right ..),
          List.nil_append, List.append_assoc, hrest]
      · have hnone : pulled.1 = [] := by
          rw [hpulled, hbuf, Nat.min_eq_left hpart.le, Nat.sub_self, List.take_zero]
        rw [hnone, List.nil_append] at hrest
        rw [hnone, hrest, hbuf, Nat.min_eq_left hpart.le, List.append_nil, List.length_nil,
          add_zero, ← List.append_assoc, List.take_append_drop]
  · have hnone : conn.unread = [] := by
      unfold mg_connection.unread
      rw [Int.toNat_eq_zero.mpr (by omega), List.take_zero]
    rw [if_neg hmore, hnone, List.take_nil]
    exact ⟨rfl, .refl hlive⟩

/-- Reading once. -/
theorem mg_read_fst (hlive : Live conn.pending) (len : ℕ) :
    (mg_read conn len).1 = conn.unread.take len := (mg_read_stream hlive len).1

/-- Reading several times, with what is read. -/
def mg_reads : mg_connection → List ℕ → Bytes × mg_connection
  | conn, [] => ([], conn)
  | conn, len :: lens =>
    let (read, conn) := mg_read conn len
    let (more, conn) := mg_reads conn lens
    (read ++ more, conn)

/-- Several reads are one. -/
theorem mg_reads_stream (hlive : Live conn.pending) (lens : List ℕ) :
    (mg_reads conn lens).1 = conn.unread.take lens.sum ∧
      Advances conn (mg_reads conn lens).1 (mg_reads conn lens).2 := by
  induction lens generalizing conn with
  | nil =>
    rw [List.sum_nil, List.take_zero]
    exact ⟨rfl, .refl hlive⟩
  | cons len lens ih =>
    obtain ⟨hread, hadvances⟩ := mg_read_stream hlive len
    obtain ⟨hmore, hrest⟩ := ih hadvances.live
    have hunread : (mg_read conn len).2.unread = conn.unread.drop len := by
      have happend := hadvances.unread
      rw [hread] at happend
      exact (List.append_cancel_left ((List.take_append_drop len _).trans happend)).symm
    have hreads : (mg_reads conn (len :: lens)).1 =
      (mg_read conn len).1 ++ (mg_reads (mg_read conn len).2 lens).1 := rfl
    refine ⟨?_, hadvances.trans hrest⟩
    rw [hreads, hread, hmore, hunread, List.sum_cons, List.take_add]

/-- The loop that discards reads all that is left, if that is not more than it is asked for. -/
theorem discard_loop_advances (hlive : Live conn.pending) {remaining : ℕ}
    (hremaining : conn.unread.length ≤ remaining) :
    Advances conn conn.unread (discard_loop remaining conn) := by
  fun_induction discard_loop remaining conn with
  | case1 remaining conn hpos conn' hread =>
    -- Nothing was read although something was asked for.
    obtain ⟨htake, hadvances⟩ := mg_read_stream hlive (min remaining 16384)
    rw [hread] at htake hadvances
    have hnone : conn.unread = [] := by
      rcases List.take_eq_nil_iff.mp htake.symm with hzero | hnone
      · omega
      · exact hnone
    rw [hnone]
    exact hadvances
  | case2 remaining conn hpos c read conn' hread ih =>
    obtain ⟨-, hadvances⟩ := mg_read_stream hlive (min remaining 16384)
    rw [hread] at hadvances
    have hunread : conn.unread = c :: read ++ conn'.unread := hadvances.unread
    have hlength := congrArg List.length hunread
    rw [List.length_append, List.length_cons] at hlength
    rw [hunread]
    exact hadvances.trans (ih hadvances.live (by omega))
  | case3 remaining conn hzero =>
    have hnone : conn.unread = [] := List.eq_nil_of_length_eq_zero (by omega)
    rw [hnone]
    exact .refl hlive

/-- Discarding reads what is left of the body. -/
theorem discard_advances (hlive : Live conn.pending) :
    Advances conn conn.unread (discard_current_request_from_buffer conn) := by
  unfold discard_current_request_from_buffer
  split_ifs with hmore
  · exact discard_loop_advances hlive (List.length_take_le ..)
  · have hnone : conn.unread = [] := by
      unfold mg_connection.unread
      rw [Int.toNat_eq_zero.mpr (by omega), List.take_zero]
    rw [hnone]
    exact .refl hlive

/-- **A handler and what follows it read exactly the body.** Whatever lengths a handler reads, it
gets the bytes of the body one behind the other; and when what it has left is discarded, the
connection stands behind the body, with what `mg_read` asserts kept. -/
theorem body_drained {conn : mg_connection} (hlive : Live conn.pending) (hconn : conn.Readable)
    (lens : List ℕ) :
    (mg_reads conn lens).1 = conn.unread.take lens.sum ∧
      (mg_reads conn lens).2.Readable ∧
      (discard_current_request_from_buffer (mg_reads conn lens).2).stream =
        conn.stream.drop conn.unread.length ∧
      (discard_current_request_from_buffer (mg_reads conn lens).2).consumed_content =
        conn.consumed_content + conn.unread.length := by
  obtain ⟨hread, hadvances⟩ := mg_reads_stream hlive lens
  have hall := hadvances.trans (discard_advances hadvances.live)
  have hunread : (mg_reads conn lens).1 ++ (mg_reads conn lens).2.unread = conn.unread :=
    hadvances.unread.symm
  rw [hunread] at hall
  refine ⟨hread, hadvances.readable hconn, ?_, hall.consumed⟩
  rw [hall.stream, List.drop_left]

/-- A body of five characters, of which one is read and the others are discarded. -/
theorem body_drained_five :
    (discard_current_request_from_buffer
      (mg_reads ⟨5, 0, bytes "ab", [bytes "cd", bytes "eGET"]⟩ [1]).2).stream = bytes "GET" := by
  have hlive : Live [bytes "cd", bytes "eGET"] := by simp [Live, bytes]
  exact (@body_drained ⟨5, 0, bytes "ab", [bytes "cd", bytes "eGET"]⟩ hlive (.inr (by decide))
    [1]).2.2.1

end DialServer
