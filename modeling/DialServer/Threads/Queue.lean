import DialServer.Threads.Invariant

/-!
# The queue of connections

What the queue is for, over all interleavings of the threads: every connection that is accepted is
served once, in the order in which the connections came, and no connection waits in the queue while
a worker sleeps that nobody has woken up for it.
-/

namespace DialServer

open CLib

variable {S : Type}

/-! ## Traffic -/

/-- The connections that are accepted, in order. -/
def accepted (e : List (Traffic S)) : List S :=
  e.filterMap fun
    | .accepted sp => some sp
    | _ => none

/-- Those that are put in the queue. -/
def queued (e : List (Traffic S)) : List S :=
  e.filterMap fun
    | .queued sp => some sp
    | _ => none

/-- Those that are taken out, with the workers that take them. -/
def taken (e : List (Traffic S)) : List (Fin NUM_THREADS × S) :=
  e.filterMap fun
    | .taken i sp => some (i, sp)
    | _ => none

/-- Those that a worker takes out. -/
def taken_by (i : Fin NUM_THREADS) (e : List (Traffic S)) : List S :=
  ((taken e).filter fun t => t.1 = i).map Prod.snd

/-- Those that a worker closes. -/
def closed_by (i : Fin NUM_THREADS) (e : List (Traffic S)) : List S :=
  e.filterMap fun
    | .closed j sp => if j = i then some sp else none
    | _ => none

/-- One worker is started and waits, the connection `7` comes in and is served, and the server is
stopped. -/
def one_connection : List (Turn ℕ) :=
  [[.main true, .main true, .main false, .main false, .main false, .main true],
    List.replicate 4 (.worker 0),
    [.master none 0, .master (some 7) 0, .master none 0, .master none 0, .master none 0],
    List.replicate 5 (.worker 0), [.main true], List.replicate 3 (.worker 0),
    List.replicate 5 (.master none 0), [.main true]].flatten

/-- In the middle of this schedule the worker is woken up for the connection. -/
theorem one_connection_put : ∃ e s, Runs AnyStep (mg_start 0) e s ∧ s.master = .put 7 ∧
    0 ∈ s.ctx.sq_full := by
  obtain ⟨e, s, hrun, h⟩ := @Threads.exists_runs _ (mg_start 0) (one_connection.take 14)
    (fun r => decide (r.1.master = .put 7 ∧ 0 ∈ r.1.ctx.sq_full)) rfl
  exact ⟨e, s, hrun, of_decide_eq_true h⟩

/-- At its end the connection is served and the context is freed. -/
theorem one_connection_freed : ∃ e s, Runs AnyStep (mg_start 0) e s ∧ s.main = .freed ∧
    accepted e = [7] ∧ closed_by 0 e = [7] := by
  obtain ⟨e, s, hrun, h⟩ := @Threads.exists_runs _ (mg_start 0) one_connection
    (fun r => decide (r.1.main = .freed ∧ accepted r.2 = [7] ∧ closed_by 0 r.2 = [7])) rfl
  exact ⟨e, s, hrun, of_decide_eq_true h⟩

/-! ## Mutual exclusion -/

/-- The places of the master thread at which it needs the mutex. -/
def Master.in_section : Master S → Bool
  | .check _ | .put _ | .join => true
  | _ => false

/-- The places of a worker at which it needs the mutex. -/
def Worker.in_section : Worker S → Bool
  | .check | .wait | .decide | .take | .leave => true
  | _ => false

/-- A thread is at such a place. -/
def Threads.InSection (s : Threads S) : Holder → Prop
  | .master => s.master.in_section = true
  | .worker i => (s.workers i).in_section = true

/-- An assertion is about to fail: the one in `consume_socket`, the one at the end of
`worker_thread`, or the one in `produce_socket`. -/
def Threads.AssertionFails (s : Threads S) : Prop :=
  (∃ i, s.workers i = .decide ∧ s.ctx.stop_flag = 0 ∧ ¬s.ctx.queue.tail < s.ctx.queue.head) ∨
    (∃ i, s.workers i = .leave ∧ s.ctx.num_threads - 1 < 0) ∨
    ∃ sp, s.master = .put sp ∧ s.ctx.queue.IsFull

/-- The master thread has the mutex in its sections. -/
theorem MasterOk.holder {ctx : mg_context S} {m : Master S} (h : MasterOk ctx m)
    (hm : m.in_section = true) : ctx.mutex = some .master := by
  cases m with
  | check sp => exact h.1
  | put sp => exact h.1
  | join => exact h.1
  | _ => cases hm

/-- So has a worker. -/
theorem WorkerOk.holder {ctx : mg_context S} {i : Fin NUM_THREADS} {w : Worker S}
    (h : WorkerOk ctx i w) (hw : w.in_section = true) : ctx.mutex = some (.worker i) := by
  cases w with
  | check => exact h.1
  | wait => exact h.1.1
  | decide => exact h.1.1
  | take => exact h.1.1
  | leave => exact h.1.1
  | _ => cases hw

/-- A thread in its section has the mutex. -/
theorem Inv.holder {s : Threads S} (h : Inv s) {t : Holder} (ht : s.InSection t) :
    s.ctx.mutex = some t := by
  cases t with
  | master => exact h.master.holder ht
  | worker i => exact (h.workers i).holder ht

/-- **The critical sections exclude each other.** In every state that the threads reach, at most one
thread is where it needs the mutex, no assertion is about to fail, and the counters of the queue are
far from the largest `int`. -/
theorem sections_exclusive {blank : S} {s : Threads S} {e : List (Traffic S)}
    (h : Runs AnyStep (mg_start blank) e s) :
    (∀ t t', s.InSection t → s.InSection t' → t = t') ∧ ¬s.AssertionFails ∧
      s.ctx.queue.tail ≤ s.ctx.queue.head ∧ s.ctx.queue.head ≤ 2 * QUEUE_SIZE := by
  obtain ⟨hinv, hphases⟩ := consistent_of_runs h
  refine ⟨fun t t' ht ht' => ?_, ?_, hinv.valid.tail_le_head, ?_⟩
  · exact Option.some.inj ((hinv.holder ht).symm.trans (hinv.holder ht'))
  · rintro (⟨i, hw, hstop, hempty⟩ | ⟨i, hw, hnum⟩ | ⟨sp, hm, hfull⟩)
    · have hok := hinv.workers i
      rw [hw] at hok
      exact hempty ((tail_lt_head_iff hinv.valid).mpr (hok.2 hstop))
    · -- The worker itself is among those that are counted.
      have hok := hinv.workers i
      rw [hw] at hok
      have hnumber := hphases.number_of_stop hok.2
      have halive : count (fun _ w => w.alive = true) s.workers ≠ 0 := fun hzero =>
        count_eq_zero.mp hzero i (by rw [hw]; rfl)
      omega
    · have hok := hinv.master
      rw [hm] at hok
      exact hok.2.2 hfull
  · have hhead := hinv.valid.head_le
    have htail := hinv.valid.tail_le
    omega

/-- While the master thread puts a connection in the queue no worker has anything to do with it. -/
theorem sections_exclusive_put : ∃ e s, Runs AnyStep (mg_start 0) e s ∧ s.InSection .master ∧
    ∀ i, ¬s.InSection (.worker i) := by
  obtain ⟨e, s, hrun, hput, -⟩ := one_connection_put
  have hmaster : s.InSection .master := by
    unfold Threads.InSection
    rw [hput]
    rfl
  refine ⟨e, s, hrun, hmaster, fun i hi => ?_⟩
  cases (sections_exclusive hrun).1 _ _ hmaster hi

/-! ## Connections -/

/-- The connection that the master thread has accepted and has not put in the queue yet. -/
def Master.in_hand : Master S → List S
  | .lock sp | .check sp | .asleep sp | .put sp => [sp]
  | _ => []

/-- The connection that a worker serves. -/
def Worker.serving : Worker S → List S
  | .serve sp => [sp]
  | _ => []

/-- Where the connections are, after some traffic. -/
structure Conserved (e : List (Traffic S)) (s : Threads S) : Prop where
  accepted : accepted e = queued e ++ s.master.in_hand
  queued : queued e = (taken e).map Prod.snd ++ s.ctx.queue.contents
  taken : ∀ i, taken_by i e = closed_by i e ++ (s.workers i).serving

/-- The traffic of two parts. -/
theorem accepted_append (e e' : List (Traffic S)) :
    accepted (e ++ e') = accepted e ++ accepted e' :=
  List.filterMap_append ..

theorem queued_append (e e' : List (Traffic S)) : queued (e ++ e') = queued e ++ queued e' :=
  List.filterMap_append ..

theorem taken_append (e e' : List (Traffic S)) : taken (e ++ e') = taken e ++ taken e' :=
  List.filterMap_append ..

theorem taken_by_append (i : Fin NUM_THREADS) (e e' : List (Traffic S)) :
    taken_by i (e ++ e') = taken_by i e ++ taken_by i e' := by
  unfold taken_by
  rw [taken_append, List.filter_append, List.map_append]

theorem closed_by_append (i : Fin NUM_THREADS) (e e' : List (Traffic S)) :
    closed_by i (e ++ e') = closed_by i e ++ closed_by i e' :=
  List.filterMap_append ..

/-- A worker takes what it takes from the front of the queue, and closes what it has taken. -/
theorem WorkerMove.traffic {ctx ctx' : mg_context S} {i : Fin NUM_THREADS} {w w' : Worker S}
    {e : List (Traffic S)} (h : WorkerMove i ctx w ctx' w' e) (hvalid : ctx.queue.Valid)
    (hok : WorkerOk ctx i w) :
    accepted e = [] ∧ queued e = [] ∧
      ctx.queue.contents = (taken e).map Prod.snd ++ ctx'.queue.contents ∧
      w.serving ++ taken_by i e = closed_by i e ++ w'.serving ∧
      ∀ j, j ≠ i → taken_by j e = [] ∧ closed_by j e = [] := by
  cases h with
  | take =>
    obtain ⟨-, hcontents⟩ := hvalid.take hok.2
    refine ⟨rfl, rfl, hcontents, ?_, fun j hj => ⟨?_, rfl⟩⟩
    · simp [taken_by, taken, closed_by, Worker.serving]
    · simp [taken_by, taken, Ne.symm hj]
  | close =>
    refine ⟨rfl, rfl, rfl, ?_, fun j hj => ⟨rfl, ?_⟩⟩
    · simp [taken_by, taken, closed_by, Worker.serving]
    · simp [closed_by, Ne.symm hj]
  | _ => exact ⟨rfl, rfl, rfl, rfl, fun _ _ => ⟨rfl, rfl⟩⟩

/-- The master thread puts at the end of the queue what it has in its hand. -/
theorem MasterMove.traffic {ctx ctx' : mg_context S} {m m' : Master S} {e : List (Traffic S)}
    (h : MasterMove ctx m ctx' m' e) (hvalid : ctx.queue.Valid) :
    m.in_hand ++ accepted e = queued e ++ m'.in_hand ∧
      ctx'.queue.contents = ctx.queue.contents ++ queued e ∧ taken e = [] ∧
      ∀ i, taken_by i e = [] ∧ closed_by i e = [] := by
  cases h with
  | put hroom => exact ⟨rfl, Ring.contents_put hvalid hroom _, rfl, fun _ => ⟨rfl, rfl⟩⟩
  | accept sp => exact ⟨rfl, (List.append_nil _).symm, rfl, fun _ => ⟨rfl, rfl⟩⟩
  | _ => exact ⟨rfl, (List.append_nil _).symm, rfl, fun _ => ⟨rfl, rfl⟩⟩

/-- A worker that has not been started serves nothing. -/
theorem Conserved.quiet {e : List (Traffic S)} {s t : Threads S} (h : Conserved e s)
    (hmaster : t.master = s.master) (hqueue : t.ctx.queue = s.ctx.queue)
    (hworkers : ∀ i, (t.workers i).serving = (s.workers i).serving) : Conserved (e ++ []) t := by
  rw [List.append_nil]
  exact ⟨hmaster ▸ h.accepted, hqueue ▸ h.queued, fun i => hworkers i ▸ h.taken i⟩

/-- A step of a worker. -/
theorem Conserved.worker {e e' : List (Traffic S)} {s : Threads S} (h : Conserved e s)
    (hs : Inv s) {i : Fin NUM_THREADS} {ctx : mg_context S} {worker : Worker S}
    (hmove : WorkerMove i s.ctx (s.workers i) ctx worker e') :
    Conserved (e ++ e') { s with ctx, workers := Function.update s.workers i worker } := by
  obtain ⟨haccepted, hqueued, hcontents, hmine, hothers⟩ := hmove.traffic hs.valid (hs.workers i)
  refine ⟨?_, ?_, fun j => ?_⟩
  · rw [accepted_append, haccepted, queued_append, hqueued, List.append_nil, List.append_nil]
    exact h.accepted
  · rw [queued_append, hqueued, List.append_nil, h.queued, taken_append, List.map_append,
      List.append_assoc, hcontents]
  · rw [taken_by_append, closed_by_append, h.taken]
    simp only
    by_cases hj : j = i
    · subst hj
      rw [Function.update_self, List.append_assoc, hmine, List.append_assoc]
    · obtain ⟨htaken, hclosed⟩ := hothers j hj
      rw [Function.update_of_ne hj, htaken, hclosed, List.append_nil, List.append_nil]

/-- A step of the master thread. -/
theorem Conserved.master_move {e e' : List (Traffic S)} {s : Threads S} (h : Conserved e s)
    (hs : Inv s) {ctx : mg_context S} {master : Master S}
    (hmove : MasterMove s.ctx s.master ctx master e') :
    Conserved (e ++ e') { s with ctx, master } := by
  obtain ⟨hhand, hcontents, htaken, hworkers⟩ := hmove.traffic hs.valid
  refine ⟨?_, ?_, fun i => ?_⟩
  · rw [accepted_append, h.accepted, queued_append, List.append_assoc, hhand, List.append_assoc]
  · rw [queued_append, h.queued, taken_append, htaken, List.append_nil, hcontents,
      List.append_assoc]
  · rw [taken_by_append, closed_by_append, (hworkers i).1, (hworkers i).2, List.append_nil,
      List.append_nil]
    exact h.taken i

/-- A step of any thread. -/
theorem Conserved.step {s t : Threads S} {e e' : List (Traffic S)} (hc : Conserved e s)
    (hs : Consistent s) (hstep : AnyStep s e' t) : Conserved (e ++ e') t := by
  cases hstep with
  | wake_worker => exact hc.quiet rfl rfl fun _ => rfl
  | wake_producer => exact hc.quiet rfl rfl fun _ => rfl
  | wake_joiner => exact hc.quiet rfl rfl fun _ => rfl
  | thread hstep =>
    cases hstep with
    | master accepted woken hstep => exact hc.master_move hs.inv (master_thread_cases hstep)
    | worker i hstep => exact hc.worker hs.inv (worker_thread_cases hs.inv.valid hstep)
    | main started hstep =>
      cases main_thread_cases hstep with
      | @start i hmain hi =>
        refine hc.quiet rfl rfl fun j => ?_
        simp only
        by_cases hj : j = ⟨i, hi⟩
        · subst hj
          rw [Function.update_self, hs.phases.absent _ (by simp [hmain, Main.before])]
          rfl
        · rw [Function.update_of_ne hj]
      | _ => exact hc.quiet rfl rfl fun _ => rfl

/-- A run of all threads. -/
theorem conserved_of_runs {blank : S} {s : Threads S} {e : List (Traffic S)}
    (h : Runs AnyStep (mg_start blank) e s) : Consistent s ∧ Conserved e s :=
  h.induct (fun e s => Consistent s ∧ Conserved e s)
    ⟨⟨inv_mg_start blank, phases_mg_start blank⟩, rfl, rfl, fun _ => rfl⟩
    fun _ _ _ _ ⟨hs, hc⟩ hstep => ⟨hs.step hstep, hc.step hs hstep⟩

/-- **No connection is lost, served twice or served out of order.** In every interleaving of the
threads, the connections that were accepted are those that were put in the queue and, last, the one
in the hand of the master thread; those that were put in are those that were taken out and, behind
them, the contents of the queue, in one order; and what a worker has taken out it has closed, one
after another, up to the one that it serves. -/
theorem connections_conserved {blank : S} {s : Threads S} {e : List (Traffic S)}
    (h : Runs AnyStep (mg_start blank) e s) : Conserved e s :=
  (conserved_of_runs h).2

/-- The one connection is where it belongs. -/
theorem connections_conserved_freed : ∃ e s, Runs AnyStep (mg_start 0) e s ∧ accepted e = [7] ∧
    Conserved e s := by
  obtain ⟨e, s, hrun, -, haccepted, -⟩ := one_connection_freed
  exact ⟨e, s, hrun, haccepted, connections_conserved hrun⟩

/-! ## Wakeups -/

/-- A worker that is going to look into the queue without being woken up once more. -/
def Worker.awake (sq_full : Finset (Fin NUM_THREADS)) (i : Fin NUM_THREADS) : Worker S → Prop
  | .check | .decide | .take => True
  | .asleep => i ∉ sq_full
  | _ => False

instance (sq_full : Finset (Fin NUM_THREADS)) (i : Fin NUM_THREADS) (w : Worker S) :
    Decidable (w.awake sq_full i) := by
  cases w <;> unfold Worker.awake <;> infer_instance

/-- How many workers are going to look into the queue. -/
def awake (sq_full : Finset (Fin NUM_THREADS)) (workers : Fin NUM_THREADS → Worker S) : ℕ :=
  count (fun i w => w.awake sq_full i) workers

/-- While the server is not asked to stop, a worker waits to be woken up only if for each connection
in the queue another one is going to look. -/
def Notified (s : Threads S) : Prop :=
  s.ctx.stop_flag = 0 → s.ctx.sq_full.Nonempty →
    s.ctx.queue.contents.length ≤ awake s.ctx.sq_full s.workers

/-- When fewer wait more are going to look. -/
theorem Worker.awake_anti {sq_full sq_full' : Finset (Fin NUM_THREADS)} (h : sq_full' ⊆ sq_full)
    {i : Fin NUM_THREADS} {w : Worker S} (hw : w.awake sq_full i) : w.awake sq_full' i := by
  cases w with
  | asleep => exact fun hmem => hw (h hmem)
  | _ => exact hw

/-- The workers that are registered as waiting are those that sleep. -/
theorem Inv.asleep {s : Threads S} (h : Inv s) {i : Fin NUM_THREADS} (hi : i ∈ s.ctx.sq_full) :
    s.workers i = .asleep := by
  have hok := h.workers i
  cases hw : s.workers i with
  | asleep => rfl
  | absent | loop | lock | serve | check =>
    rw [hw] at hok
    exact absurd hi hok.2
  | wait | decide | take | quit | gone | leave =>
    rw [hw] at hok
    exact absurd hi hok.1.2

/-- A step of a worker that takes from the queue no more than it has looked for. -/
theorem Notified.update {s : Threads S} (h : Notified s) {i : Fin NUM_THREADS}
    {ctx : mg_context S} {main : Main} {worker : Worker S} (hstop : ctx.stop_flag = s.ctx.stop_flag)
    (hwaits : ctx.sq_full = s.ctx.sq_full)
    (hle : ctx.queue.contents.length + (if (s.workers i).awake s.ctx.sq_full i then 1 else 0) ≤
      s.ctx.queue.contents.length + (if worker.awake s.ctx.sq_full i then 1 else 0)) :
    Notified { s with ctx, main, workers := Function.update s.workers i worker } := by
  intro hzero hsome
  simp only at hzero hsome ⊢
  rw [hwaits] at hsome ⊢
  have hbefore := h (hstop ▸ hzero) hsome
  have hchange := @count_update _ _ _ (fun i w => Worker.awake s.ctx.sq_full i w) _
    s.workers i worker _
  unfold awake at hbefore ⊢
  omega

/-- A step of a worker. -/
theorem Notified.worker {s : Threads S} (h : Notified s) (hs : Inv s) {i : Fin NUM_THREADS}
    {ctx : mg_context S} {worker : Worker S} {e : List (Traffic S)}
    (hmove : WorkerMove i s.ctx (s.workers i) ctx worker e) :
    Notified { s with ctx, workers := Function.update s.workers i worker } := by
  have hok := hs.workers i
  have hvalid := hs.valid
  have hupdate := @Notified.update _ s h i ctx s.main worker
  generalize s.workers i = w at hmove hok hupdate
  cases hmove with
  | take =>
    -- One connection less, and one worker less that is going to look.
    refine hupdate rfl rfl ?_
    rw [(hvalid.take hok.2).2, List.length_cons]
    simp [Worker.awake]
  | idle hempty hstop =>
    intro _ _
    rw [hvalid.isEmpty_iff.mp hempty]
    exact Nat.zero_le _
  | sleep =>
    intro _ _
    rw [hvalid.isEmpty_iff.mp hok.2]
    exact Nat.zero_le _
  | finish hstop => exact fun hzero => absurd hzero hstop
  | give_up hstop => exact fun hzero => absurd hzero hstop
  | quit => exact fun hzero => absurd hzero hok.2
  | leave => exact fun hzero => absurd hzero hok.2
  | go_on => exact hupdate rfl rfl le_rfl
  | lock => exact hupdate rfl rfl (Nat.le_succ _)
  | busy => exact hupdate rfl rfl le_rfl
  | wake hwoken => exact hupdate rfl rfl (by simp [Worker.awake, hwoken])
  | ready => exact hupdate rfl rfl le_rfl
  | close => exact hupdate rfl rfl le_rfl

/-- A step of the master thread. -/
theorem Notified.master_move {s : Threads S} (h : Notified s) (hs : Inv s) {ctx : mg_context S}
    {master : Master S} {e : List (Traffic S)}
    (hmove : MasterMove s.ctx s.master ctx master e) : Notified { s with ctx, master } := by
  have hvalid := hs.valid
  generalize s.master = m at hmove
  cases hmove with
  | @put sp hroom woken hwoken =>
    intro hzero hsome
    simp only at hzero hsome ⊢
    rcases hwoken with hnone | hmem
    · simp [hnone] at hsome
    · -- The worker that is woken up is one more that is going to look.
      have hbefore := h hzero ⟨woken, hmem⟩
      have hsleeps := hs.asleep hmem
      have hmore : awake s.ctx.sq_full s.workers <
          awake (s.ctx.sq_full.erase woken) s.workers := by
        refine count_lt (j := woken)
          (fun i hi => Worker.awake_anti (Finset.erase_subset _ _) hi) ?_ ?_
        · simpa [hsleeps, Worker.awake] using hmem
        · simp [hsleeps, Worker.awake]
      rw [Ring.contents_put hvalid hroom, List.length_append, List.length_singleton]
      omega
  | close => exact fun _ hsome => by simp at hsome
  | destroy => exact fun hzero => by simp at hzero
  | _ => exact h

/-- **No wakeup is lost while the server runs.** In every state that the threads reach before the
server is asked to stop, a worker is registered as waiting only if for every connection in the queue
another worker is going to look; and the master thread is registered as waiting for room only if the
queue is full. -/
theorem wakeups_not_lost {blank : S} {s : Threads S} {e : List (Traffic S)}
    (h : Runs AnyStep (mg_start blank) e s) :
    Notified s ∧ (s.ctx.sq_empty = true → s.ctx.queue.IsFull ∧ ∃ sp, s.master = .asleep sp) := by
  have hboth : Consistent s ∧ Notified s := by
    refine h.induct (fun _ s => Consistent s ∧ Notified s)
      ⟨⟨inv_mg_start blank, phases_mg_start blank⟩, fun _ hsome => by simp [mg_start] at hsome⟩ ?_
    rintro _ s _ t ⟨hs, hn⟩ hstep
    refine ⟨hs.step hstep, ?_⟩
    cases hstep with
    | wake_worker i =>
      intro hzero hsome
      have hsub : s.ctx.sq_full.erase i ⊆ s.ctx.sq_full := Finset.erase_subset _ _
      exact (hn hzero (hsome.mono hsub)).trans (count_mono fun _ => Worker.awake_anti hsub)
    | wake_producer => exact hn
    | wake_joiner => exact hn
    | thread hstep =>
      cases hstep with
      | master accepted woken hstep => exact hn.master_move hs.inv (master_thread_cases hstep)
      | worker i hstep => exact hn.worker hs.inv (worker_thread_cases hs.inv.valid hstep)
      | main started hstep =>
        cases main_thread_cases hstep with
        | @start i hmain hi =>
          have habsent := hs.phases.absent ⟨i, hi⟩ (by simp [hmain, Main.before])
          exact hn.update rfl rfl (by simp [habsent, Worker.awake])
        | stop => exact fun hzero => by simp at hzero
        | _ => exact hn
  refine ⟨hboth.2, fun hwaits => ?_⟩
  have hok := hboth.1.inv.master
  cases hm : s.master with
  | asleep sp =>
    rw [hm] at hok
    exact ⟨hok.2.2 hwaits, sp, rfl⟩
  | loop | accept | lock | check =>
    rw [hm] at hok
    exact absurd hok.2.1 (by simp [hwaits])
  | put | close | join_lock | join | destroy | exited =>
    rw [hm] at hok
    exact absurd hok.2.1.1 (by simp [hwaits])
  | join_asleep =>
    rw [hm] at hok
    exact absurd hok.2.1 (by simp [hwaits])

/-- A worker waits while the master thread is about to wake it up. -/
theorem wakeups_not_lost_put : ∃ e s, Runs AnyStep (mg_start 0) e s ∧ s.ctx.sq_full.Nonempty ∧
    Notified s := by
  obtain ⟨e, s, hrun, -, hwaits⟩ := one_connection_put
  exact ⟨e, s, hrun, ⟨0, hwaits⟩, (wakeups_not_lost hrun).1⟩

end DialServer
