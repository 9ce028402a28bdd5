import DialServer.Source.Threads

/-!
# What a thread can do

The steps of the worker threads and of the master thread, one case for each way in which a step can
go. The proofs about the threads use these cases and never unfold the steps.
-/

namespace DialServer

open CLib

variable {S : Type}

/-- The steps of a worker. -/
inductive WorkerMove (i : Fin NUM_THREADS) (ctx : mg_context S) :
    Worker S → mg_context S → Worker S → List (Traffic S) → Prop
  | go_on (h : ctx.stop_flag = 0) : WorkerMove i ctx .loop ctx .lock []
  | finish (h : ctx.stop_flag ≠ 0) : WorkerMove i ctx .loop ctx .quit []
  | lock (h : ctx.mutex = none) :
      WorkerMove i ctx .lock { ctx with mutex := some (.worker i) } .check []
  | idle (h : ctx.queue.IsEmpty) (hstop : ctx.stop_flag = 0) : WorkerMove i ctx .check ctx .wait []
  | busy (h : ctx.stop_flag = 0 → ¬ctx.queue.IsEmpty) : WorkerMove i ctx .check ctx .decide []
  | sleep :
      WorkerMove i ctx .wait { ctx with mutex := none, sq_full := insert i ctx.sq_full } .asleep []
  | wake (hwoken : i ∉ ctx.sq_full) (h : ctx.mutex = none) :
      WorkerMove i ctx .asleep { ctx with mutex := some (.worker i) } .check []
  | give_up (h : ctx.stop_flag ≠ 0) : WorkerMove i ctx .decide { ctx with mutex := none } .quit []
  | ready (h : ctx.stop_flag = 0) (hready : ¬ctx.queue.IsEmpty) :
      WorkerMove i ctx .decide ctx .take []
  | take :
      WorkerMove i ctx .take
        { ctx with queue := ctx.queue.take, sq_empty := false, mutex := none }
        (.serve ctx.queue.front) [.taken i ctx.queue.front]
  | close {sp} : WorkerMove i ctx (.serve sp) ctx .loop [.closed i sp]
  | quit (h : ctx.mutex = none) :
      WorkerMove i ctx .quit { ctx with mutex := some (.worker i) } .leave []
  | leave (h : 0 < ctx.num_threads) :
      WorkerMove i ctx .leave
        { ctx with num_threads := ctx.num_threads - 1, cond := false, mutex := none } .gone []

/-- The steps of the master thread. -/
inductive MasterMove (ctx : mg_context S) :
    Master S → mg_context S → Master S → List (Traffic S) → Prop
  | go_on (h : ctx.stop_flag = 0) : MasterMove ctx .loop ctx .accept []
  | finish (h : ctx.stop_flag ≠ 0) : MasterMove ctx .loop ctx .close []
  | accept (sp) : MasterMove ctx .accept ctx (.lock sp) [.accepted sp]
  | nothing : MasterMove ctx .accept ctx .loop []
  | lock {sp} (h : ctx.mutex = none) :
      MasterMove ctx (.lock sp) { ctx with mutex := some .master } (.check sp) []
  | sleep {sp} (h : ctx.queue.IsFull) :
      MasterMove ctx (.check sp) { ctx with mutex := none, sq_empty := true } (.asleep sp) []
  | room {sp} (h : ¬ctx.queue.IsFull) : MasterMove ctx (.check sp) ctx (.put sp) []
  | wake {sp} (hwoken : ctx.sq_empty = false) (h : ctx.mutex = none) :
      MasterMove ctx (.asleep sp) { ctx with mutex := some .master } (.check sp) []
  | put {sp} (h : ¬ctx.queue.IsFull) {woken} (hwoken : ctx.sq_full = ∅ ∨ woken ∈ ctx.sq_full) :
      MasterMove ctx (.put sp)
        { ctx with
          queue := ctx.queue.put sp
          sq_full := ctx.sq_full.erase woken
          mutex := none } .loop [.queued sp]
  | close : MasterMove ctx .close { ctx with sq_full := ∅ } .join_lock []
  | join_lock (h : ctx.mutex = none) :
      MasterMove ctx .join_lock { ctx with mutex := some .master } .join []
  | join_sleep (h : 0 < ctx.num_threads) :
      MasterMove ctx .join { ctx with mutex := none, cond := true } .join_asleep []
  | joined (h : ctx.num_threads ≤ 0) :
      MasterMove ctx .join { ctx with mutex := none } .destroy []
  | join_wake (hwoken : ctx.cond = false) (h : ctx.mutex = none) :
      MasterMove ctx .join_asleep { ctx with mutex := some .master } .join []
  | destroy : MasterMove ctx .destroy { ctx with stop_flag := 2 } .exited []

/-- The steps of the thread that calls `mg_start` and `mg_stop`. -/
inductive MainMove (s : Threads S) : Threads S → Prop
  | start {i} (hmain : s.main = .start i) (hi : i < NUM_THREADS) :
      MainMove s { s with main := .count i, workers := Function.update s.workers ⟨i, hi⟩ .loop }
  | not_started {i} (hmain : s.main = .start i) : MainMove s { s with main := .start (i + 1) }
  | count {i} (hmain : s.main = .count i) :
      MainMove s { s with main := .start (i + 1), ctx.num_threads := s.ctx.num_threads + 1 }
  | started {i} (hmain : s.main = .start i) : MainMove s { s with main := .run }
  | stop (hmain : s.main = .run) : MainMove s { s with main := .stop, ctx.stop_flag := 1 }
  | free (hmain : s.main = .stop) (hstop : s.ctx.stop_flag = 2) :
      MainMove s { s with main := .freed }

/-- The assertion of `consume_socket` says that the queue is not empty. -/
theorem tail_lt_head_iff {ctx : mg_context S} (h : ctx.queue.Valid) :
    ctx.queue.tail < ctx.queue.head ↔ ¬ctx.queue.IsEmpty := by
  have hle := h.tail_le_head
  show _ ↔ ¬ctx.queue.head = ctx.queue.tail
  omega

/-- Every step of a worker is one of these. -/
theorem worker_thread_cases {i : Fin NUM_THREADS} {ctx ctx' : mg_context S} {w w' : Worker S}
    {e : List (Traffic S)} (hvalid : ctx.queue.Valid)
    (h : worker_thread i ctx w = some (ctx', w', e)) : WorkerMove i ctx w ctx' w' e := by
  cases w with
  | absent => cases h
  | gone => cases h
  | wait =>
    cases h
    exact .sleep
  | take =>
    cases h
    exact .take
  | serve sp =>
    cases h
    exact .close
  | loop =>
    simp only [worker_thread] at h
    split_ifs at h with hstop
    · cases h
      exact .go_on hstop
    · cases h
      exact .finish hstop
  | lock =>
    simp only [worker_thread] at h
    split_ifs at h with hfree
    cases h
    exact .lock hfree
  | check =>
    simp only [worker_thread] at h
    split_ifs at h with hidle
    · cases h
      exact .idle hidle.1 hidle.2
    · cases h
      exact .busy fun hstop hempty => hidle ⟨hempty, hstop⟩
  | asleep =>
    simp only [worker_thread] at h
    split_ifs at h with hwake
    cases h
    exact .wake hwake.1 hwake.2
  | decide =>
    simp only [worker_thread] at h
    split_ifs at h with hstop hready
    · cases h
      exact .give_up hstop
    · cases h
      exact .ready (not_not.mp hstop) ((tail_lt_head_iff hvalid).mp hready)
  | quit =>
    simp only [worker_thread] at h
    split_ifs at h with hfree
    cases h
    exact .quit hfree
  | leave =>
    simp only [worker_thread] at h
    split_ifs at h with hcount
    cases h
    exact .leave (by omega)

/-- Every one of these is a step of a worker. -/
theorem WorkerMove.step {i : Fin NUM_THREADS} {ctx ctx' : mg_context S} {w w' : Worker S}
    {e : List (Traffic S)} (hvalid : ctx.queue.Valid) (h : WorkerMove i ctx w ctx' w' e) :
    worker_thread i ctx w = some (ctx', w', e) := by
  cases h with
  | go_on h => exact if_pos h
  | finish h => exact if_neg h
  | lock h => exact if_pos h
  | idle h hstop => exact if_pos ⟨h, hstop⟩
  | busy h => exact if_neg fun hidle => h hidle.2 hidle.1
  | sleep => rfl
  | wake hwoken h => exact if_pos ⟨hwoken, h⟩
  | give_up h => exact if_pos h
  | ready h hready =>
    show ite _ _ (ite _ _ _) = _
    rw [if_neg (not_not.mpr h), if_pos ((tail_lt_head_iff hvalid).mpr hready)]
  | take => rfl
  | close => rfl
  | quit h => exact if_pos h
  | leave h => exact if_pos (by omega)

/-- Every step of the master thread is one of these. -/
theorem master_thread_cases {accepted : Option S} {woken : Fin NUM_THREADS}
    {ctx ctx' : mg_context S} {m m' : Master S} {e : List (Traffic S)}
    (h : master_thread accepted woken ctx m = some (ctx', m', e)) :
    MasterMove ctx m ctx' m' e := by
  cases m with
  | exited => cases h
  | close =>
    cases h
    exact .close
  | destroy =>
    cases h
    exact .destroy
  | loop =>
    simp only [master_thread] at h
    split_ifs at h with hstop
    · cases h
      exact .go_on hstop
    · cases h
      exact .finish hstop
  | accept =>
    cases accepted with
    | some sp =>
      cases h
      exact .accept sp
    | none =>
      cases h
      exact .nothing
  | lock sp =>
    simp only [master_thread] at h
    split_ifs at h with hfree
    cases h
    exact .lock hfree
  | check sp =>
    simp only [master_thread] at h
    split_ifs at h with hfull
    · cases h
      exact .sleep hfull
    · cases h
      exact .room hfull
  | asleep sp =>
    simp only [master_thread] at h
    split_ifs at h with hwake
    cases h
    exact .wake hwake.1 hwake.2
  | put sp =>
    simp only [master_thread] at h
    split_ifs at h with hfull hwoken
    cases h
    exact .put hfull hwoken
  | join_lock =>
    simp only [master_thread] at h
    split_ifs at h with hfree
    cases h
    exact .join_lock hfree
  | join =>
    simp only [master_thread] at h
    split_ifs at h with hcount
    · cases h
      exact .join_sleep hcount
    · cases h
      exact .joined (not_lt.mp hcount)
  | join_asleep =>
    simp only [master_thread] at h
    split_ifs at h with hwake
    cases h
    exact .join_wake hwake.1 hwake.2

/-- Every one of these is a step of the master thread, for some connection and some worker. -/
theorem MasterMove.step {ctx ctx' : mg_context S} {m m' : Master S} {e : List (Traffic S)}
    (h : MasterMove ctx m ctx' m' e) :
    ∃ accepted woken, master_thread accepted woken ctx m = some (ctx', m', e) := by
  have hany : Fin NUM_THREADS := ⟨0, by decide⟩
  cases h with
  | go_on h => exact ⟨none, hany, if_pos h⟩
  | finish h => exact ⟨none, hany, if_neg h⟩
  | accept sp => exact ⟨some sp, hany, rfl⟩
  | nothing => exact ⟨none, hany, rfl⟩
  | lock h => exact ⟨none, hany, if_pos h⟩
  | sleep h => exact ⟨none, hany, if_pos h⟩
  | room h => exact ⟨none, hany, if_neg h⟩
  | wake hwoken h => exact ⟨none, hany, if_pos ⟨hwoken, h⟩⟩
  | @put sp h woken hwoken =>
    refine ⟨none, woken, ?_⟩
    show ite _ _ (ite _ _ _) = _
    rw [if_neg h, if_pos hwoken]
  | close => exact ⟨none, hany, rfl⟩
  | join_lock h => exact ⟨none, hany, if_pos h⟩
  | join_sleep h => exact ⟨none, hany, if_pos h⟩
  | joined h => exact ⟨none, hany, if_neg (not_lt.mpr h)⟩
  | join_wake hwoken h => exact ⟨none, hany, if_pos ⟨hwoken, h⟩⟩
  | destroy => exact ⟨none, hany, rfl⟩

/-- Every step of the thread that calls `mg_start` and `mg_stop` is one of these. -/
theorem main_thread_cases {started : Bool} {s t : Threads S} (h : main_thread started s = some t) :
    MainMove s t := by
  unfold main_thread at h
  cases hmain : s.main with
  | start i =>
    simp only [hmain] at h
    split_ifs at h with hi hstarted
    · cases h
      exact .start hmain hi
    · cases h
      exact .not_started hmain
    · cases h
      exact .started hmain
  | count i =>
    simp only [hmain] at h
    cases h
    exact .count hmain
  | run =>
    simp only [hmain] at h
    cases h
    exact .stop hmain
  | stop =>
    simp only [hmain] at h
    split_ifs at h with hstop
    cases h
    exact .free hmain hstop
  | freed =>
    simp only [hmain] at h
    cases h

/-! ## Schedules -/

/-- Whose turn it is, with what the calls of this thread return. -/
inductive Turn (S : Type)
  | main (started : Bool)
  | master (accepted : Option S) (woken : Fin NUM_THREADS)
  | worker (i : Fin NUM_THREADS)

/-- The step of the thread whose turn it is. -/
def Threads.move (s : Threads S) : Turn S → Option (Threads S × List (Traffic S))
  | .main started => (main_thread started s).map fun t => (t, [])
  | .master accepted woken =>
    (master_thread accepted woken s.ctx s.master).map fun (ctx, master, e) =>
      ({ s with ctx, master }, e)
  | .worker i =>
    (worker_thread i s.ctx (s.workers i)).map fun (ctx, worker, e) =>
      ({ s with ctx, workers := Function.update s.workers i worker }, e)

/-- The steps of a schedule, behind the traffic so far. -/
def Threads.follow (s : Threads S) (e : List (Traffic S)) :
    List (Turn S) → Option (Threads S × List (Traffic S))
  | [] => some (s, e)
  | turn :: turns => (s.move turn).bind fun (t, e') => t.follow (e ++ e') turns

/-- A turn is a step. -/
theorem Threads.step_of_move {s t : Threads S} {turn : Turn S} {e : List (Traffic S)}
    (h : s.move turn = some (t, e)) : ThreadStep s e t := by
  cases turn with
  | main started =>
    obtain ⟨t', hstep, heq⟩ := Option.map_eq_some_iff.mp h
    cases heq
    exact .main started hstep
  | master accepted woken =>
    obtain ⟨⟨ctx, master, e'⟩, hstep, heq⟩ := Option.map_eq_some_iff.mp h
    cases heq
    exact .master accepted woken hstep
  | worker i =>
    obtain ⟨⟨ctx, worker, e'⟩, hstep, heq⟩ := Option.map_eq_some_iff.mp h
    cases heq
    exact .worker i hstep

/-- A schedule that can be followed is a run of the threads. -/
theorem Threads.runs_of_follow {s t u : Threads S} {e e' : List (Traffic S)}
    (turns : List (Turn S)) (hs : Runs ThreadStep s e t) (h : t.follow e turns = some (u, e')) :
    Runs ThreadStep s e' u := by
  induction turns generalizing t e with
  | nil =>
    cases h
    exact hs
  | cons turn turns ih =>
    obtain ⟨⟨t', e''⟩, hstep, hrest⟩ := Option.bind_eq_some_iff.mp h
    exact ih (hs.tail (step_of_move hstep)) hrest

/-- A schedule that can be followed to a state of some kind shows that there is such a run. -/
theorem Threads.exists_runs {s : Threads S} (turns : List (Turn S))
    {p : Threads S × List (Traffic S) → Bool} (h : (s.follow [] turns).any p = true) :
    ∃ e t, Runs AnyStep s e t ∧ p (t, e) = true := by
  cases hfollow : s.follow [] turns with
  | none =>
    rw [hfollow] at h
    cases h
  | some r =>
    rw [hfollow] at h
    have hrun := runs_of_follow turns .refl hfollow
    exact ⟨r.2, r.1, hrun.mono fun _ _ _ => .thread, h⟩

end DialServer
