import DialServer.Threads.Queue

/-!
# Stopping the server

`mg_stop` sets the flag, waits until the master thread has ended and frees the context. It frees
nothing that a thread still uses. Whether it returns depends on where the threads are when the flag
is set: `stop_flag` is written and the workers are woken up without the mutex, so that the master
thread can wait for room in a queue from which nobody takes any more, and a worker can begin to
sleep behind the last wakeup. `Stuck` are these two states, and out of every other one the threads
find to the end.
-/

namespace DialServer

open CLib

variable {S : Type}

/-! ## What is left at the end -/

/-- A worker that has not been started, or that has ended. -/
theorem Worker.not_alive {w : Worker S} (h : ¬w.alive = true) : w = .absent ∨ w = .gone := by
  cases w with
  | absent => exact .inl rfl
  | gone => exact .inr rfl
  | _ => exact absurd rfl h

/-- When the master thread has ended so have the workers. -/
theorem Consistent.workers_gone {s : Threads S} (h : Consistent s)
    (hends : s.master = .destroy ∨ s.master = .exited) (i : Fin NUM_THREADS) :
    s.workers i = .absent ∨ s.workers i = .gone := by
  have hstop : s.ctx.stop_flag ≠ 0 := by
    have hok := h.inv.master
    rcases hends with hm | hm <;> rw [hm] at hok <;> exact hok.2.2
  have hnumber := h.phases.number_of_stop hstop
  rw [h.phases.joined hends] at hnumber
  have hzero : count (fun _ w => w.alive = true) s.workers = 0 := by omega
  exact Worker.not_alive (count_eq_zero.mp hzero i)

/-- **Nothing is used after it is freed.** When the master thread destroys the mutex and the
condition variables all workers have ended, nobody has the mutex and nobody waits; and when the
context is freed no thread can make a step any more. Of the connections that have been taken out of
the queue each has been closed, and those that are left in it are not closed. -/
theorem nothing_used_after_free {blank : S} {s : Threads S} {e : List (Traffic S)}
    (h : Runs AnyStep (mg_start blank) e s) :
    (s.master = .destroy ∨ s.master = .exited →
      (∀ i, s.workers i = .absent ∨ s.workers i = .gone) ∧ s.ctx.mutex = none ∧
        s.ctx.sq_full = ∅ ∧ s.ctx.sq_empty = false ∧ s.ctx.cond = false) ∧
    (s.main = .freed →
      (∀ e t, ¬ThreadStep s e t) ∧ (∀ i, taken_by i e = closed_by i e) ∧
        accepted e = (taken e).map Prod.snd ++ s.ctx.queue.contents) := by
  have hs := consistent_of_runs h
  constructor
  · intro hends
    have hgone := hs.workers_gone hends
    have hok : s.ctx.mutex ≠ some .master ∧ NotWaiting s.ctx := by
      have hok := hs.inv.master
      rcases hends with hm | hm <;> rw [hm] at hok <;> exact ⟨hok.1, hok.2.1⟩
    have houtside (i : Fin NUM_THREADS) : Uninvolved s.ctx i := by
      have hok := hs.inv.workers i
      rcases hgone i with hw | hw <;> rw [hw] at hok
      · exact hok
      · exact hok.1
    refine ⟨hgone, ?_, Finset.eq_empty_of_forall_notMem fun i => (houtside i).2, hok.2.1, hok.2.2⟩
    cases hmutex : s.ctx.mutex with
    | none => rfl
    | some t =>
      cases t with
      | master => exact absurd hmutex hok.1
      | worker i => exact absurd hmutex (houtside i).1
  · intro hfreed
    have hexited := hs.phases.exited.mp (hs.phases.freed hfreed)
    have hgone := hs.workers_gone (.inr hexited)
    have hconserved := (conserved_of_runs h).2
    refine ⟨fun e t hstep => ?_, fun i => ?_, ?_⟩
    · cases hstep with
      | master accepted woken hstep =>
        rw [hexited] at hstep
        cases hstep
      | worker i hstep =>
        rcases hgone i with hw | hw <;> rw [hw] at hstep <;> cases hstep
      | main started hstep =>
        cases main_thread_cases hstep with
        | start h | not_started h | count h | started h | stop h | free h =>
          exact absurd (hfreed.symm.trans h) (by simp)
    · have htaken := hconserved.taken i
      rcases hgone i with hw | hw <;> rw [hw] at htaken <;> simpa [Worker.serving] using htaken
    · rw [hconserved.accepted, hconserved.queued, hexited]
      exact List.append_nil _

/-- After one connection nothing is left to do. -/
theorem nothing_used_after_free_freed : ∃ e s, Runs AnyStep (mg_start 0) e s ∧
    (∀ e t, ¬ThreadStep s e t) ∧ taken_by 0 e = closed_by 0 e := by
  obtain ⟨e, s, hrun, hfreed, -⟩ := one_connection_freed
  obtain ⟨-, hend⟩ := nothing_used_after_free hrun
  exact ⟨e, s, hrun, (hend hfreed).1, (hend hfreed).2.1 0⟩

/-! ## Whether the end is reached -/

/-- The master thread has a connection in its hand and is not past the test for room. -/
def Master.producing : Master S → Bool
  | .lock _ | .check _ | .asleep _ => true
  | _ => false

/-- The master thread has woken the workers up for the last time and waits for them to end. -/
def Master.joining : Master S → Bool
  | .join_lock | .join | .join_asleep => true
  | _ => false

/-- The master thread waits for room in a full queue from which no worker takes any more, or a
worker sleeps, or is about to, behind the last wakeup. -/
def Threads.Stuck (s : Threads S) : Prop :=
  (s.ctx.queue.IsFull ∧ s.master.producing = true ∧ ∀ i, s.workers i ≠ .take) ∨
    (s.master.joining = true ∧ ∃ i, s.workers i = .wait ∨ i ∈ s.ctx.sq_full)

/-- How far a worker is from its end. -/
def Worker.rank : Worker S → ℕ
  | .absent | .gone => 0
  | .leave => 1
  | .quit => 2
  | .loop | .decide => 3
  | .check | .serve _ => 4
  | .lock | .asleep | .take => 5
  | .wait => 6

/-- How far the master thread is from its end, when it is not held up. -/
def Master.rank (num_threads : ℤ) : Master S → ℕ
  | .exited => 0
  | .destroy => 1
  | .join => if 0 < num_threads then 4 else 2
  | .join_asleep => 3
  | .join_lock => 5
  | .close => 6
  | .loop => 7
  | .accept | .put _ => 8
  | .check _ => 9
  | .lock _ | .asleep _ => 10

/-- Once the flag is set every step of a worker brings it nearer to its end. It does not begin to
wait or to take a connection. -/
theorem WorkerMove.stopping {ctx ctx' : mg_context S} {i : Fin NUM_THREADS} {w w' : Worker S}
    {e : List (Traffic S)} (h : WorkerMove i ctx w ctx' w' e) (hstop : ctx.stop_flag ≠ 0) :
    w'.rank < w.rank ∧ w' ≠ .wait ∧ w' ≠ .take ∧ ctx'.num_threads ≤ ctx.num_threads ∧
      (w ≠ .wait → ctx'.sq_full = ctx.sq_full) ∧ (w ≠ .take → ctx'.queue = ctx.queue) := by
  cases h with
  | go_on hzero => exact absurd hzero hstop
  | idle _ hzero => exact absurd hzero hstop
  | ready hzero => exact absurd hzero hstop
  | leave => exact ⟨by simp [Worker.rank], by simp, by simp, by simp, fun _ => rfl, fun _ => rfl⟩
  | sleep =>
    exact ⟨by simp [Worker.rank], by simp, by simp, le_rfl, fun h => absurd rfl h, fun _ => rfl⟩
  | take =>
    exact ⟨by simp [Worker.rank], by simp, by simp, le_rfl, fun _ => rfl, fun h => absurd rfl h⟩
  | _ => exact ⟨by simp [Worker.rank], by simp, by simp, le_rfl, fun _ => rfl, fun _ => rfl⟩

/-- No step of a thread leads out of a stuck state. -/
theorem Threads.Stuck.step {s t : Threads S} {e : List (Traffic S)} (hs : Consistent s)
    (hmain : s.main = .stop) (h : s.Stuck) (hstep : ThreadStep s e t) :
    t.main = .stop ∧ t.Stuck := by
  have hstop : s.ctx.stop_flag ≠ 0 := fun hzero => by
    have := hs.phases.serving.mpr hzero
    rw [hmain] at this
    cases this
  cases hstep with
  | main started hstep =>
    cases main_thread_cases hstep with
    | start h | not_started h | count h | started h | stop h =>
      exact absurd (hmain.symm.trans h) (by simp)
    | free _ hflag =>
      -- The master thread has ended, and is not held up.
      have hexited := hs.phases.exited.mp hflag
      rcases h with ⟨-, hm, -⟩ | ⟨hm, -⟩ <;> rw [hexited] at hm <;> cases hm
  | worker i hstep =>
    have hmove := worker_thread_cases hs.inv.valid hstep
    obtain ⟨-, hwait, htake, -, hwaits, hqueue⟩ := hmove.stopping hstop
    refine ⟨hmain, ?_⟩
    rcases h with ⟨hfull, hm, hnone⟩ | ⟨hm, j, hj⟩
    · refine .inl ⟨?_, hm, fun j => ?_⟩
      · simp only
        rw [hqueue (hnone i)]
        exact hfull
      · by_cases hj : j = i
        · subst hj
          simpa using htake
        · simpa [hj] using hnone j
    · refine .inr ⟨hm, j, ?_⟩
      simp only
      by_cases hi : j = i
      · -- The worker that is about to sleep does so, and the one that sleeps cannot wake up.
        subst hi
        rcases hj with hj | hj
        · rw [hj] at hmove
          cases hmove
          exact .inr (Finset.mem_insert_self _ _)
        · rw [hs.inv.asleep hj] at hmove
          cases hmove with
          | wake hwoken => exact absurd hj hwoken
      · rw [Function.update_of_ne hi]
        rcases hj with hj | hj
        · exact .inl hj
        · by_cases hsleep : s.workers i = .wait
          · rw [hsleep] at hmove
            cases hmove
            exact .inr (Finset.mem_insert_of_mem hj)
          · exact .inr (hwaits hsleep ▸ hj)
  | master accepted woken hstep =>
    have hmove := master_thread_cases hstep
    refine ⟨hmain, ?_⟩
    rcases h with ⟨hfull, hm, hnone⟩ | ⟨hm, j, hj⟩
    · generalize s.master = m at hmove hm
      cases hmove with
      | lock => exact .inl ⟨hfull, rfl, hnone⟩
      | sleep => exact .inl ⟨hfull, rfl, hnone⟩
      | room hroom => exact absurd hfull hroom
      | wake => exact .inl ⟨hfull, rfl, hnone⟩
      | _ => cases hm
    · have hnumber := hs.phases.number_of_stop hstop
      generalize s.master = m at hmove hm
      cases hmove with
      | join_lock => exact .inr ⟨rfl, j, hj⟩
      | join_sleep => exact .inr ⟨rfl, j, hj⟩
      | join_wake => exact .inr ⟨rfl, j, hj⟩
      | joined hzero =>
        -- The worker that is held up is counted.
        have halive : (s.workers j).alive = true := by
          rcases hj with hj | hj
          · rw [hj]
            rfl
          · rw [hs.inv.asleep hj]
            rfl
        have hsome : count (fun _ w => w.alive = true) s.workers ≠ 0 := fun hnone =>
          count_eq_zero.mp hnone j halive
        omega
      | _ => cases hm

/-- How far the threads are from the end. -/
def Threads.rank (s : Threads S) : ℕ :=
  (∑ i, (s.workers i).rank) + s.master.rank s.ctx.num_threads + if s.main = .freed then 0 else 1

/-- Fewer workers do not bring the master thread further from its end. -/
theorem Master.rank_mono (m : Master S) {n n' : ℤ} (h : n ≤ n') : m.rank n ≤ m.rank n' := by
  cases m with
  | join =>
    simp only [Master.rank]
    split_ifs <;> omega
  | _ => exact le_rfl

/-- The flag is set, and the threads are not stuck. -/
structure Stopping (s : Threads S) : Prop where
  consistent : Consistent s
  stop : s.ctx.stop_flag ≠ 0
  free : ¬s.Stuck

/-- A step of a worker that can be made brings the threads nearer to the end, and they do not get
stuck by it. -/
theorem Stopping.worker {s : Threads S} (h : Stopping s) {i : Fin NUM_THREADS}
    {ctx : mg_context S} {worker : Worker S} {e : List (Traffic S)}
    (hmove : WorkerMove i s.ctx (s.workers i) ctx worker e)
    (hsleep : s.workers i = .wait → s.master.joining = false) :
    ∃ e t, ThreadStep s e t ∧ Stopping t ∧ t.rank < s.rank := by
  obtain ⟨hs, hstop, hfree⟩ := h
  have hstep : ThreadStep s e { s with ctx, workers := Function.update s.workers i worker } :=
    .worker i (hmove.step hs.inv.valid)
  obtain ⟨hrank, hwait, htake, hnum, hwaits, hqueue⟩ := hmove.stopping hstop
  refine ⟨e, _, hstep, ⟨hs.step (.thread hstep), ?_, ?_⟩, ?_⟩
  · exact hmove.phase.1 ▸ hstop
  · rintro (⟨hfull, hm, hnone⟩ | ⟨hm, j, hj⟩)
    · -- Only this worker can be the one that was about to take.
      by_cases hw : s.workers i = .take
      · have hready := hs.inv.workers i
        rw [hw] at hmove hready
        cases hmove
        exact hs.inv.valid.not_isFull_take hready.2 hfull
      · refine hfree (.inl ⟨hqueue hw ▸ hfull, hm, fun j hj => ?_⟩)
        by_cases hji : j = i
        · exact hw (hji ▸ hj)
        · exact hnone j (by simpa [hji] using hj)
    · have hw : s.workers i ≠ .wait := fun hw => by simp [hsleep hw] at hm
      refine hfree (.inr ⟨hm, j, ?_⟩)
      simp only at hj
      rw [hwaits hw] at hj
      rcases hj with hj | hj
      · by_cases hji : j = i
        · subst hji
          rw [Function.update_self] at hj
          exact absurd hj hwait
        · rw [Function.update_of_ne hji] at hj
          exact .inl hj
      · exact .inr hj
  · have hsum := @sum_update _ _ _ s.workers i worker _ Worker.rank
    have hmaster := s.master.rank_mono hnum
    unfold Threads.rank
    simp only
    omega

/-- So does a step of the master thread to a place where it is not held up. -/
theorem Stopping.master_move {s : Threads S} (h : Stopping s) {ctx : mg_context S}
    {master : Master S} {e : List (Traffic S)}
    (hmove : MasterMove s.ctx s.master ctx master e)
    (hrank : master.rank ctx.num_threads < s.master.rank s.ctx.num_threads)
    (hfree : ¬{ s with ctx, master }.Stuck) :
    ∃ e t, ThreadStep s e t ∧ Stopping t ∧ t.rank < s.rank := by
  obtain ⟨accepted, woken, hstep⟩ := hmove.step
  have hthread : ThreadStep s e { s with ctx, master } := .master accepted woken hstep
  refine ⟨e, _, hthread, ⟨h.consistent.step (.thread hthread), ?_, hfree⟩, ?_⟩
  · have hstop := h.stop
    generalize s.master = m at hmove
    cases hmove with
    | destroy => simp
    | _ => exact hstop
  · unfold Threads.rank
    simp only
    omega

/-- A worker with the mutex can make a step. -/
theorem Consistent.holder_moves {s : Threads S} (h : Consistent s) (hstop : s.ctx.stop_flag ≠ 0)
    {i : Fin NUM_THREADS} (hmutex : s.ctx.mutex = some (.worker i)) :
    ∃ ctx w e, WorkerMove i s.ctx (s.workers i) ctx w e := by
  have hok := h.inv.workers i
  have hnumber := h.phases.number_of_stop hstop
  cases hw : s.workers i with
  | check => exact ⟨_, _, _, .busy fun hzero => absurd hzero hstop⟩
  | wait => exact ⟨_, _, _, .sleep⟩
  | decide => exact ⟨_, _, _, .give_up hstop⟩
  | take => exact ⟨_, _, _, .take⟩
  | leave =>
    -- The worker is counted itself.
    have hsome : count (fun _ w => w.alive = true) s.workers ≠ 0 := fun hnone =>
      count_eq_zero.mp hnone i (by rw [hw]; rfl)
    exact ⟨_, _, _, .leave (by omega)⟩
  | absent | loop | lock | serve =>
    rw [hw] at hok
    exact absurd hmutex hok.1
  | asleep =>
    rw [hw] at hok
    exact absurd hmutex hok
  | quit | gone =>
    rw [hw] at hok
    exact absurd hmutex hok.1.1

/-- When nobody has the mutex, a worker that is alive and does not sleep can make a step. -/
theorem Consistent.worker_moves {s : Threads S} (h : Consistent s) (hstop : s.ctx.stop_flag ≠ 0)
    (hmutex : s.ctx.mutex = none) {i : Fin NUM_THREADS} (halive : (s.workers i).alive = true)
    (hwoken : i ∉ s.ctx.sq_full) : ∃ ctx w e, WorkerMove i s.ctx (s.workers i) ctx w e := by
  have hok := h.inv.workers i
  cases hw : s.workers i with
  | absent | gone =>
    rw [hw] at halive
    cases halive
  | loop => exact ⟨_, _, _, .finish hstop⟩
  | lock => exact ⟨_, _, _, .lock hmutex⟩
  | asleep => exact ⟨_, _, _, .wake hwoken hmutex⟩
  | serve sp => exact ⟨_, _, _, .close⟩
  | quit => exact ⟨_, _, _, .quit hmutex⟩
  | check | wait | decide | take | leave =>
    have hholder := hok.holder (by rw [hw]; rfl)
    simp [hmutex] at hholder

/-- The master thread can make a step when it has the mutex. -/
theorem Stopping.master_holder {s : Threads S} (h : Stopping s)
    (hmutex : s.ctx.mutex = some .master) :
    ∃ e t, ThreadStep s e t ∧ Stopping t ∧ t.rank < s.rank := by
  have hok := h.consistent.inv.master
  have hmove := @Stopping.master_move _ s h
  cases hm : s.master with
  | check sp =>
    rw [hm] at hok hmove
    have hroom : ¬s.ctx.queue.IsFull := fun hfull =>
      -- A worker that is about to take would have the mutex.
      h.free (.inl ⟨hfull, by rw [hm]; rfl, fun i hw => by
        have hholder := (h.consistent.inv.workers i).holder (by rw [hw]; rfl)
        simp [hmutex] at hholder⟩)
    refine hmove (.room hroom) (by simp [Master.rank]) ?_
    rintro (⟨-, hm, -⟩ | ⟨hm, -⟩) <;> cases hm
  | put sp =>
    rw [hm] at hok hmove
    obtain ⟨woken, hwoken⟩ : ∃ woken, s.ctx.sq_full = ∅ ∨ woken ∈ s.ctx.sq_full := by
      rcases s.ctx.sq_full.eq_empty_or_nonempty with hnone | ⟨woken, hmem⟩
      · exact ⟨⟨0, by decide⟩, .inl hnone⟩
      · exact ⟨woken, .inr hmem⟩
    refine hmove (.put hok.2.2 hwoken) (by simp [Master.rank]) ?_
    rintro (⟨-, hm, -⟩ | ⟨hm, -⟩) <;> cases hm
  | join =>
    rw [hm] at hmove
    by_cases hpos : 0 < s.ctx.num_threads
    · refine hmove (.join_sleep hpos) (by simp [Master.rank, hpos]) ?_
      rintro (⟨-, hm, -⟩ | ⟨-, hheld⟩)
      · cases hm
      · exact h.free (.inr ⟨by rw [hm]; rfl, hheld⟩)
    · refine hmove (.joined (not_lt.mp hpos)) (by simp [Master.rank, hpos]) ?_
      rintro (⟨-, hm, -⟩ | ⟨hm, -⟩) <;> cases hm
  | loop | accept | lock | asleep | close | join_lock | join_asleep | destroy | exited =>
    rw [hm] at hok
    exact absurd hmutex hok.1

/-- When nobody has the mutex and the master thread waits for the workers, one of them can make a
step, or all have ended and the master thread can. -/
theorem Stopping.joining {s : Threads S} (h : Stopping s) (hmutex : s.ctx.mutex = none)
    (hjoining : s.master.joining = true) :
    ∃ e t, ThreadStep s e t ∧ Stopping t ∧ t.rank < s.rank := by
  have hok := h.consistent.inv.master
  have hmove := @Stopping.master_move _ s h
  by_cases hall : ∃ i, (s.workers i).alive = true
  · obtain ⟨i, halive⟩ := hall
    have hnot : ∀ j, ¬(s.workers j = .wait ∨ j ∈ s.ctx.sq_full) := fun j hj =>
      h.free (.inr ⟨hjoining, j, hj⟩)
    obtain ⟨ctx, w, e, hworker⟩ := h.consistent.worker_moves h.stop hmutex halive
      fun hmem => hnot i (.inr hmem)
    exact h.worker hworker fun hw => absurd (.inl hw) (hnot i)
  · -- All workers have ended, and the master thread has been told.
    have hzero : s.ctx.num_threads = 0 := by
      have hnone : count (fun _ w => w.alive = true) s.workers = 0 :=
        count_eq_zero.mpr fun i hi => hall ⟨i, hi⟩
      rw [h.consistent.phases.number_of_stop h.stop, hnone]
      rfl
    have hcond : s.ctx.cond = false := by
      cases hcond : s.ctx.cond with
      | false => rfl
      | true =>
        have := h.consistent.phases.cond hcond
        omega
    have hheld (j : Fin NUM_THREADS) (hj : s.workers j = .wait ∨ j ∈ s.ctx.sq_full) : False :=
      h.free (.inr ⟨hjoining, j, hj⟩)
    cases hm : s.master with
    | join_lock =>
      rw [hm] at hmove
      refine hmove (.join_lock hmutex) (by simp [Master.rank, hzero]) ?_
      rintro (⟨-, hm, -⟩ | ⟨-, j, hj⟩)
      · cases hm
      · exact hheld j hj
    | join_asleep =>
      rw [hm] at hmove
      refine hmove (.join_wake hcond hmutex) (by simp [Master.rank, hzero]) ?_
      rintro (⟨-, hm, -⟩ | ⟨-, j, hj⟩)
      · cases hm
      · exact hheld j hj
    | join =>
      rw [hm] at hok
      simp [hok.1] at hmutex
    | loop | accept | lock | check | asleep | put | close | destroy | exited =>
      rw [hm] at hjoining
      cases hjoining

/-- As long as the end is not reached some thread can bring it nearer. -/
theorem Stopping.progress {s : Threads S} (h : Stopping s) (hmain : s.main ≠ .freed) :
    ∃ e t, ThreadStep s e t ∧ Stopping t ∧ t.rank < s.rank := by
  have hs := h.consistent
  cases hmutex : s.ctx.mutex with
  | some t =>
    cases t with
    | master => exact h.master_holder hmutex
    | worker i =>
      obtain ⟨ctx, w, e, hworker⟩ := hs.holder_moves h.stop hmutex
      refine h.worker hworker fun hw => ?_
      by_contra hjoining
      rw [Bool.not_eq_false] at hjoining
      exact h.free (.inr ⟨hjoining, i, .inl hw⟩)
  | none =>
    have hok := hs.inv.master
    have hmove := @Stopping.master_move _ s h
    -- A worker that is about to wait or to take has the mutex.
    have hplace (i : Fin NUM_THREADS) (hw : (s.workers i).in_section = true) : False := by
      have hholder := (hs.inv.workers i).holder hw
      simp [hmutex] at hholder
    have htake (i : Fin NUM_THREADS) (hw : s.workers i = .take) : False :=
      hplace i (by rw [hw]; rfl)
    cases hm : s.master with
    | loop =>
      rw [hm] at hmove
      refine hmove (.finish h.stop) (by simp [Master.rank]) ?_
      rintro (⟨-, hm, -⟩ | ⟨hm, -⟩) <;> cases hm
    | accept =>
      rw [hm] at hmove
      refine hmove .nothing (by simp [Master.rank]) ?_
      rintro (⟨-, hm, -⟩ | ⟨hm, -⟩) <;> cases hm
    | lock sp =>
      rw [hm] at hmove
      refine hmove (.lock hmutex) (by simp [Master.rank]) ?_
      rintro (⟨hfull, -, hnone⟩ | ⟨hm, -⟩)
      · exact h.free (.inl ⟨hfull, by rw [hm]; rfl, hnone⟩)
      · cases hm
    | asleep sp =>
      rw [hm] at hok hmove
      have hwoken : s.ctx.sq_empty = false := by
        cases hempty : s.ctx.sq_empty with
        | false => rfl
        | true => exact absurd (.inl ⟨hok.2.2 hempty, by rw [hm]; rfl, htake⟩) h.free
      refine hmove (.wake hwoken hmutex) (by simp [Master.rank]) ?_
      rintro (⟨hfull, -, hnone⟩ | ⟨hm, -⟩)
      · exact h.free (.inl ⟨hfull, by rw [hm]; rfl, hnone⟩)
      · cases hm
    | close =>
      rw [hm] at hmove
      refine hmove .close (by simp [Master.rank]) ?_
      rintro (⟨-, hm, -⟩ | ⟨-, i, hi⟩)
      · cases hm
      · rcases hi with hw | hmem
        · exact hplace i (by rw [hw]; rfl)
        · simp at hmem
    | destroy =>
      rw [hm] at hmove
      refine hmove .destroy (by simp [Master.rank]) ?_
      rintro (⟨-, hm, -⟩ | ⟨hm, -⟩) <;> cases hm
    | join_lock | join_asleep => exact h.joining hmutex (by rw [hm]; rfl)
    | check | put | join =>
      rw [hm] at hok
      simp [hok.1] at hmutex
    | exited =>
      have hstop : s.main = .stop := by
        have hserving := hs.phases.serving
        cases hmain' : s.main with
        | stop => rfl
        | freed => exact absurd hmain' hmain
        | start | count | run =>
          rw [hmain'] at hserving
          exact absurd (hserving.mp rfl) h.stop
      have hstep : ThreadStep s [] { s with main := .freed } := .main true (by
        unfold main_thread
        simp only [hstop]
        rw [if_pos (hs.phases.exited.mpr hm)])
      refine ⟨_, _, hstep, ⟨hs.step (.thread hstep), h.stop, h.free⟩, ?_⟩
      unfold Threads.rank
      simp [hmain]

/-- **When `mg_stop` returns.** When it has been called, the threads can find to the end exactly if
they are not stuck: the master thread does not wait for room in a full queue from which no worker
takes any more, and no worker sleeps behind the last wakeup. The steps are those of the threads
alone, without wakeups for no reason. -/
theorem stop_returns_iff {blank : S} {s : Threads S} {e : List (Traffic S)}
    (h : Runs AnyStep (mg_start blank) e s) (hmain : s.main = .stop) :
    (∃ e' t, Runs ThreadStep s e' t ∧ t.main = .freed) ↔ ¬s.Stuck := by
  have hs := consistent_of_runs h
  have hstop : s.ctx.stop_flag ≠ 0 := fun hzero => by
    have := hs.phases.serving.mpr hzero
    rw [hmain] at this
    cases this
  constructor
  · rintro ⟨e', t, hrun, hfreed⟩ hstuck
    have hkept : Consistent t ∧ t.main = .stop ∧ t.Stuck := by
      refine hrun.induct (fun _ t => Consistent t ∧ t.main = .stop ∧ t.Stuck)
        ⟨hs, hmain, hstuck⟩ ?_
      rintro _ t _ u ⟨ht, hm, hk⟩ hstep
      exact ⟨ht.step (.thread hstep), hk.step ht hm hstep⟩
    exact absurd (hfreed.symm.trans hkept.2.1) (by simp)
  · intro hfree
    obtain ⟨e', t, hrun, -, hfreed⟩ := Runs.exists_of_measure Stopping
      (fun s => s.main = .freed) Threads.rank (fun s hs hm => hs.progress hm)
      ⟨hs, hstop, hfree⟩
    exact ⟨e', t, hrun, hfreed⟩

/-- A worker is started and finds the queue empty, and before it sleeps the server is asked to stop
and the master thread wakes everybody up. -/
def late_sleeper : List (Turn ℕ) :=
  [[.main true, .main true, .main false, .main false, .main false, .main true],
    List.replicate 3 (.worker 0), [.main true], List.replicate 2 (.master none 0)].flatten

/-- Then `mg_stop` does not return. -/
theorem stop_returns_iff_late_sleeper : ∃ e s, Runs AnyStep (mg_start 0) e s ∧ s.main = .stop ∧
    ¬∃ e' t, Runs ThreadStep s e' t ∧ t.main = .freed := by
  obtain ⟨e, s, hrun, h⟩ := @Threads.exists_runs _ (mg_start 0) late_sleeper
    (fun r => decide (r.1.main = .stop ∧ r.1.master = .join_lock ∧ r.1.workers 0 = .wait)) rfl
  obtain ⟨hmain, hmaster, hworker⟩ := of_decide_eq_true h
  refine ⟨e, s, hrun, hmain, fun hend => (stop_returns_iff hrun hmain).mp hend ?_⟩
  exact .inr ⟨by rw [hmaster]; rfl, 0, .inl hworker⟩

end DialServer
