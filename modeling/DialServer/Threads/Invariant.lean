import DialServer.Threads.Moves

/-!
# What holds while the threads run

For each place of a thread, what holds of the context as long as the thread is there
(`WorkerOk`, `MasterOk`): whether it has the mutex, what it knows of the queue, and that it is not
registered as waiting anywhere else. A step of a thread establishes what belongs to its next place,
and it does not interfere with what the others know, because it is `Unobtrusive` to each of them:
the holder of the mutex finds the mutex and the queue as they were.
-/

namespace DialServer

open CLib

variable {S : Type}

/-! ## Places -/

/-- A worker without the mutex that waits nowhere. -/
def Uninvolved (ctx : mg_context S) (i : Fin NUM_THREADS) : Prop :=
  ctx.mutex ≠ some (.worker i) ∧ i ∉ ctx.sq_full

/-- A worker with the mutex. -/
def Involved (ctx : mg_context S) (i : Fin NUM_THREADS) : Prop :=
  ctx.mutex = some (.worker i) ∧ i ∉ ctx.sq_full

/-- What holds while a worker is at a place. -/
def WorkerOk (ctx : mg_context S) (i : Fin NUM_THREADS) : Worker S → Prop
  | .absent | .loop | .lock | .serve _ => Uninvolved ctx i
  | .check => Involved ctx i
  | .wait => Involved ctx i ∧ ctx.queue.IsEmpty
  | .asleep => ctx.mutex ≠ some (.worker i)
  | .decide => Involved ctx i ∧ (ctx.stop_flag = 0 → ¬ctx.queue.IsEmpty)
  | .take => Involved ctx i ∧ ¬ctx.queue.IsEmpty
  | .quit | .gone => Uninvolved ctx i ∧ ctx.stop_flag ≠ 0
  | .leave => Involved ctx i ∧ ctx.stop_flag ≠ 0

/-- The master thread is registered as waiting nowhere. -/
def NotWaiting (ctx : mg_context S) : Prop := ctx.sq_empty = false ∧ ctx.cond = false

/-- What holds while the master thread is at a place. -/
def MasterOk (ctx : mg_context S) : Master S → Prop
  | .loop | .accept | .lock _ => ctx.mutex ≠ some .master ∧ NotWaiting ctx
  | .check _ => ctx.mutex = some .master ∧ NotWaiting ctx
  | .put _ => ctx.mutex = some .master ∧ NotWaiting ctx ∧ ¬ctx.queue.IsFull
  | .asleep _ =>
    ctx.mutex ≠ some .master ∧ ctx.cond = false ∧ (ctx.sq_empty = true → ctx.queue.IsFull)
  | .close | .join_lock | .destroy | .exited =>
    ctx.mutex ≠ some .master ∧ NotWaiting ctx ∧ ctx.stop_flag ≠ 0
  | .join => ctx.mutex = some .master ∧ NotWaiting ctx ∧ ctx.stop_flag ≠ 0
  | .join_asleep => ctx.mutex ≠ some .master ∧ ctx.sq_empty = false ∧ ctx.stop_flag ≠ 0

/-- What the step of one thread leaves to another thread `t`. -/
structure Unobtrusive (t : Holder) (ctx ctx' : mg_context S) : Prop where
  held : ctx.mutex = some t → ctx'.mutex = some t ∧ ctx'.queue = ctx.queue
  not_given : ctx'.mutex = some t → ctx.mutex = some t
  sq_full : ∀ i, t = .worker i → i ∈ ctx'.sq_full → i ∈ ctx.sq_full
  sq_empty : t = .master → ctx'.sq_empty = true → ctx.sq_empty = true ∧ ctx'.queue = ctx.queue
  cond : t = .master → ctx'.cond = true → ctx.cond = true
  stop : ctx.stop_flag ≠ 0 → ctx'.stop_flag ≠ 0

/-- To do nothing to the context. -/
theorem Unobtrusive.refl (ctx : mg_context S) (t : Holder) : Unobtrusive t ctx ctx :=
  ⟨fun h => ⟨h, rfl⟩, id, fun _ _ h => h, fun _ h => ⟨h, rfl⟩, fun _ h => h, id⟩

/-- A worker that is not interfered with. -/
theorem WorkerOk.stable {ctx ctx' : mg_context S} {i : Fin NUM_THREADS} {w : Worker S}
    (h : WorkerOk ctx i w) (hstep : Unobtrusive (.worker i) ctx ctx') : WorkerOk ctx' i w := by
  have houtside (h : Uninvolved ctx i) : Uninvolved ctx' i :=
    ⟨fun hmutex => h.1 (hstep.not_given hmutex), fun hmem => h.2 (hstep.sq_full i rfl hmem)⟩
  have hinside (h : Involved ctx i) : Involved ctx' i ∧ ctx'.queue = ctx.queue :=
    ⟨⟨(hstep.held h.1).1, fun hmem => h.2 (hstep.sq_full i rfl hmem)⟩, (hstep.held h.1).2⟩
  -- The flag may have been set, which only makes what is known of the queue weaker.
  have hstop (h : ctx'.stop_flag = 0) : ctx.stop_flag = 0 :=
    not_not.mp fun hne => hstep.stop hne h
  cases w with
  | absent => exact houtside h
  | loop => exact houtside h
  | lock => exact houtside h
  | serve sp => exact houtside h
  | check => exact (hinside h).1
  | wait => exact ⟨(hinside h.1).1, (hinside h.1).2 ▸ h.2⟩
  | asleep => exact fun hmutex => h (hstep.not_given hmutex)
  | decide => exact ⟨(hinside h.1).1, fun hzero => (hinside h.1).2 ▸ h.2 (hstop hzero)⟩
  | take => exact ⟨(hinside h.1).1, (hinside h.1).2 ▸ h.2⟩
  | quit => exact ⟨houtside h.1, hstep.stop h.2⟩
  | gone => exact ⟨houtside h.1, hstep.stop h.2⟩
  | leave => exact ⟨(hinside h.1).1, hstep.stop h.2⟩

/-- The master thread when it is not interfered with. -/
theorem MasterOk.stable {ctx ctx' : mg_context S} {m : Master S} (h : MasterOk ctx m)
    (hstep : Unobtrusive .master ctx ctx') : MasterOk ctx' m := by
  have hout (h : ctx.mutex ≠ some .master) : ctx'.mutex ≠ some .master :=
    fun hmutex => h (hstep.not_given hmutex)
  have hempty (h : ctx.sq_empty = false) : ctx'.sq_empty = false := by
    cases hempty : ctx'.sq_empty with
    | false => rfl
    | true => exact absurd (hstep.sq_empty rfl hempty).1 (by simp [h])
  have hcond (h : ctx.cond = false) : ctx'.cond = false := by
    cases hcond : ctx'.cond with
    | false => rfl
    | true => exact absurd (hstep.cond rfl hcond) (by simp [h])
  have hnot (h : NotWaiting ctx) : NotWaiting ctx' := ⟨hempty h.1, hcond h.2⟩
  cases m with
  | loop => exact ⟨hout h.1, hnot h.2⟩
  | accept => exact ⟨hout h.1, hnot h.2⟩
  | lock sp => exact ⟨hout h.1, hnot h.2⟩
  | check sp => exact ⟨(hstep.held h.1).1, hnot h.2⟩
  | put sp => exact ⟨(hstep.held h.1).1, hnot h.2.1, (hstep.held h.1).2 ▸ h.2.2⟩
  | asleep sp =>
    refine ⟨hout h.1, hcond h.2.1, fun hwaits => ?_⟩
    obtain ⟨hwaited, hqueue⟩ := hstep.sq_empty rfl hwaits
    exact hqueue ▸ h.2.2 hwaited
  | close => exact ⟨hout h.1, hnot h.2.1, hstep.stop h.2.2⟩
  | join_lock => exact ⟨hout h.1, hnot h.2.1, hstep.stop h.2.2⟩
  | destroy => exact ⟨hout h.1, hnot h.2.1, hstep.stop h.2.2⟩
  | exited => exact ⟨hout h.1, hnot h.2.1, hstep.stop h.2.2⟩
  | join => exact ⟨(hstep.held h.1).1, hnot h.2.1, hstep.stop h.2.2⟩
  | join_asleep => exact ⟨hout h.1, hempty h.2.1, hstep.stop h.2.2⟩

/-! ## Steps -/

/-- A step of a worker brings it to a place where it knows what belongs there, keeps the queue
valid, and is unobtrusive to the other threads. -/
theorem WorkerMove.ok {ctx ctx' : mg_context S} {i : Fin NUM_THREADS} {w w' : Worker S}
    {e : List (Traffic S)} (h : WorkerMove i ctx w ctx' w' e) (hvalid : ctx.queue.Valid)
    (hok : WorkerOk ctx i w) :
    ctx'.queue.Valid ∧ WorkerOk ctx' i w' ∧ ∀ t, t ≠ .worker i → Unobtrusive t ctx ctx' := by
  have hsame := Unobtrusive.refl ctx
  -- A thread that takes the mutex finds it free, and one that gives it back had it.
  have htaken (hfree : ctx.mutex = none) (t : Holder) (ht : t ≠ .worker i) :
      Unobtrusive t ctx { ctx with mutex := some (.worker i) } :=
    ⟨fun h => by simp [hfree] at h, fun h => absurd (Option.some.inj h).symm ht,
      fun _ _ h => h, fun _ h => ⟨h, rfl⟩, fun _ h => h, id⟩
  have hother (hmine : ctx.mutex = some (.worker i)) (t : Holder) (ht : t ≠ .worker i) :
      ctx.mutex ≠ some t := fun h => ht (Option.some.inj (h.symm.trans hmine))
  cases h with
  | go_on h => exact ⟨hvalid, hok, fun t _ => hsame t⟩
  | finish h => exact ⟨hvalid, ⟨hok, h⟩, fun t _ => hsame t⟩
  | lock h => exact ⟨hvalid, ⟨rfl, hok.2⟩, htaken h⟩
  | idle h hstop => exact ⟨hvalid, ⟨hok, h⟩, fun t _ => hsame t⟩
  | busy h => exact ⟨hvalid, ⟨hok, h⟩, fun t _ => hsame t⟩
  | sleep =>
    refine ⟨hvalid, by simp [WorkerOk], fun t ht => ?_⟩
    refine ⟨fun h => absurd h (hother hok.1.1 t ht), fun h => by simp at h, fun j hj hmem => ?_,
      fun _ h => ⟨h, rfl⟩, fun _ h => h, id⟩
    rcases Finset.mem_insert.mp hmem with rfl | hmem
    · exact absurd hj ht
    · exact hmem
  | wake hwoken h => exact ⟨hvalid, ⟨rfl, hwoken⟩, htaken h⟩
  | give_up h =>
    refine ⟨hvalid, ⟨⟨by simp, hok.1.2⟩, h⟩, fun t ht => ?_⟩
    exact ⟨fun h => absurd h (hother hok.1.1 t ht), fun h => by simp at h, fun _ _ h => h,
      fun _ h => ⟨h, rfl⟩, fun _ h => h, id⟩
  | ready h hready => exact ⟨hvalid, ⟨hok.1, hready⟩, fun t _ => hsame t⟩
  | take =>
    refine ⟨(hvalid.take hok.2).1, ⟨by simp, hok.1.2⟩, fun t ht => ?_⟩
    exact ⟨fun h => absurd h (hother hok.1.1 t ht), fun h => by simp at h, fun _ _ h => h,
      fun _ h => by simp at h, fun _ h => h, id⟩
  | close => exact ⟨hvalid, hok, fun t _ => hsame t⟩
  | quit h => exact ⟨hvalid, ⟨⟨rfl, hok.1.2⟩, hok.2⟩, htaken h⟩
  | leave h =>
    refine ⟨hvalid, ⟨⟨by simp, hok.1.2⟩, hok.2⟩, fun t ht => ?_⟩
    exact ⟨fun h => absurd h (hother hok.1.1 t ht), fun h => by simp at h, fun _ _ h => h,
      fun _ h => ⟨h, rfl⟩, fun _ h => by simp at h, id⟩

/-- A step of the master thread, in the same way. -/
theorem MasterMove.ok {ctx ctx' : mg_context S} {m m' : Master S} {e : List (Traffic S)}
    (h : MasterMove ctx m ctx' m' e) (hvalid : ctx.queue.Valid) (hok : MasterOk ctx m) :
    ctx'.queue.Valid ∧ MasterOk ctx' m' ∧ ∀ i, Unobtrusive (.worker i) ctx ctx' := by
  have hsame (i : Fin NUM_THREADS) := Unobtrusive.refl ctx (.worker i)
  have htaken (hfree : ctx.mutex = none) (i : Fin NUM_THREADS) :
      Unobtrusive (.worker i) ctx { ctx with mutex := some .master } :=
    ⟨fun h => by simp [hfree] at h, fun h => by simp at h, fun _ _ h => h, fun h => by simp at h,
      fun h => by simp at h, id⟩
  have hother (hmine : ctx.mutex = some .master) (i : Fin NUM_THREADS) :
      ctx.mutex ≠ some (.worker i) := by simp [hmine]
  cases h with
  | go_on h => exact ⟨hvalid, hok, hsame⟩
  | finish h => exact ⟨hvalid, ⟨hok.1, hok.2, h⟩, hsame⟩
  | accept sp => exact ⟨hvalid, hok, hsame⟩
  | nothing => exact ⟨hvalid, hok, hsame⟩
  | lock h => exact ⟨hvalid, ⟨rfl, hok.2⟩, htaken h⟩
  | sleep h =>
    refine ⟨hvalid, ⟨by simp, hok.2.2, fun _ => h⟩, fun i => ?_⟩
    exact ⟨fun h => absurd h (hother hok.1 i), fun h => by simp at h, fun _ _ h => h,
      fun h => by simp at h, fun h => by simp at h, id⟩
  | room h => exact ⟨hvalid, ⟨hok.1, hok.2, h⟩, hsame⟩
  | wake hwoken h => exact ⟨hvalid, ⟨rfl, hwoken, hok.2.1⟩, htaken h⟩
  | put h hwoken =>
    refine ⟨hvalid.put h _, ⟨by simp, hok.2.1⟩, fun i => ?_⟩
    exact ⟨fun h => absurd h (hother hok.1 i), fun h => by simp at h,
      fun _ _ h => Finset.mem_of_mem_erase h, fun h => by simp at h, fun h => by simp at h, id⟩
  | close =>
    refine ⟨hvalid, hok, fun i => ?_⟩
    exact ⟨fun h => ⟨h, rfl⟩, id, fun _ _ h => by simp at h, fun h => by simp at h,
      fun h => by simp at h, id⟩
  | join_lock h => exact ⟨hvalid, ⟨rfl, hok.2⟩, htaken h⟩
  | join_sleep h =>
    refine ⟨hvalid, ⟨by simp, hok.2.1.1, hok.2.2⟩, fun i => ?_⟩
    exact ⟨fun h => absurd h (hother hok.1 i), fun h => by simp at h, fun _ _ h => h,
      fun h => by simp at h, fun h => by simp at h, id⟩
  | joined h =>
    refine ⟨hvalid, ⟨by simp, hok.2⟩, fun i => ?_⟩
    exact ⟨fun h => absurd h (hother hok.1 i), fun h => by simp at h, fun _ _ h => h,
      fun h => by simp at h, fun h => by simp at h, id⟩
  | join_wake hwoken h => exact ⟨hvalid, ⟨rfl, ⟨hok.2.1, hwoken⟩, hok.2.2⟩, htaken h⟩
  | destroy =>
    refine ⟨hvalid, ⟨hok.1, hok.2.1, by simp⟩, fun i => ?_⟩
    exact ⟨fun h => ⟨h, rfl⟩, id, fun _ _ h => h, fun h => by simp at h, fun h => by simp at h,
      fun _ => by simp⟩

/-- Every thread knows what belongs to its place. -/
structure Inv (s : Threads S) : Prop where
  valid : s.ctx.queue.Valid
  workers : ∀ i, WorkerOk s.ctx i (s.workers i)
  master : MasterOk s.ctx s.master

/-- It does when the threads start. -/
theorem inv_mg_start (blank : S) : Inv (mg_start blank) where
  valid := Ring.valid_empty blank
  workers _ := ⟨by simp [mg_start], by simp [mg_start]⟩
  master := ⟨by simp [mg_start], rfl, rfl⟩

/-- A step that is unobtrusive to all threads. -/
theorem Inv.unobtrusive {s : Threads S} (h : Inv s) {ctx : mg_context S} {main : Main}
    (hqueue : ctx.queue = s.ctx.queue) (hstep : ∀ t, Unobtrusive t s.ctx ctx) :
    Inv { s with ctx, main } where
  valid := hqueue ▸ h.valid
  workers i := (h.workers i).stable (hstep _)
  master := h.master.stable (hstep _)

/-- A step of a worker. -/
theorem Inv.worker {s : Threads S} (h : Inv s) {i : Fin NUM_THREADS} {ctx : mg_context S}
    {worker : Worker S} {e : List (Traffic S)}
    (hmove : WorkerMove i s.ctx (s.workers i) ctx worker e) :
    Inv { s with ctx, workers := Function.update s.workers i worker } := by
  obtain ⟨hvalid, hok, hothers⟩ := hmove.ok h.valid (h.workers i)
  refine ⟨hvalid, fun j => ?_, h.master.stable (hothers _ (by simp))⟩
  by_cases hj : j = i
  · subst hj
    simpa using hok
  · have hne : Holder.worker j ≠ .worker i := by simpa using hj
    simpa [hj] using (h.workers j).stable (hothers _ hne)

/-- A step of the master thread. -/
theorem Inv.master_move {s : Threads S} (h : Inv s) {ctx : mg_context S} {master : Master S}
    {e : List (Traffic S)} (hmove : MasterMove s.ctx s.master ctx master e) :
    Inv { s with ctx, master } := by
  obtain ⟨hvalid, hok, hothers⟩ := hmove.ok h.valid h.master
  exact ⟨hvalid, fun i => (h.workers i).stable (hothers i), hok⟩

/-! ## Phases -/

/-- The server is not asked to stop yet. -/
def Main.serving : Main → Bool
  | .start _ | .count _ | .run => true
  | .stop | .freed => false

/-- A worker has been started that is not counted yet. -/
def Main.uncounted : Main → ℕ
  | .count _ => 1
  | _ => 0

/-- A worker that `mg_start` has not come to yet. -/
def Main.before (j : Fin NUM_THREADS) : Main → Prop
  | .start k => k ≤ j
  | .count k => k < j
  | _ => False

/-- A worker that has been started and has not ended. -/
def Worker.alive : Worker S → Bool
  | .absent | .gone => false
  | _ => true

/-- How the flag, the number of workers and the places of the threads go together. -/
structure Phases (s : Threads S) : Prop where
  serving : s.main.serving = true ↔ s.ctx.stop_flag = 0
  exited : s.ctx.stop_flag = 2 ↔ s.master = .exited
  freed : s.main = .freed → s.ctx.stop_flag = 2
  absent : ∀ j, s.main.before j → s.workers j = .absent
  number : s.ctx.num_threads + s.main.uncounted = count (fun _ w => w.alive = true) s.workers
  cond : s.ctx.cond = true → 0 < s.ctx.num_threads
  joined : s.master = .destroy ∨ s.master = .exited → s.ctx.num_threads = 0

/-- They do when the threads start. -/
theorem phases_mg_start (blank : S) : Phases (mg_start blank) where
  serving := by simp [mg_start, Main.serving]
  exited := by simp [mg_start]
  freed h := by simp [mg_start] at h
  absent _ _ := rfl
  number := by
    have hnone : count (fun _ w => w.alive = true) (mg_start blank).workers = 0 :=
      count_eq_zero.mpr fun _ => by simp [mg_start, Worker.alive]
    rw [hnone]
    rfl
  cond h := by simp [mg_start] at h
  joined h := by simp [mg_start] at h

/-- What a step of a worker does to the flag and the number of workers. -/
theorem WorkerMove.phase {ctx ctx' : mg_context S} {i : Fin NUM_THREADS} {w w' : Worker S}
    {e : List (Traffic S)} (h : WorkerMove i ctx w ctx' w' e) :
    ctx'.stop_flag = ctx.stop_flag ∧ w.alive = true ∧
      ((w'.alive = true ∧ ctx'.num_threads = ctx.num_threads ∧ ctx'.cond = ctx.cond) ∨
        (w'.alive = false ∧ 0 < ctx.num_threads ∧ ctx'.num_threads = ctx.num_threads - 1 ∧
          ctx'.cond = false)) := by
  cases h with
  | leave h => exact ⟨rfl, rfl, .inr ⟨rfl, h, rfl, rfl⟩⟩
  | _ => exact ⟨rfl, rfl, .inl ⟨rfl, rfl, rfl⟩⟩

/-- A step of a worker. -/
theorem Phases.worker {s : Threads S} (h : Phases s) {i : Fin NUM_THREADS} {ctx : mg_context S}
    {worker : Worker S} {e : List (Traffic S)}
    (hmove : WorkerMove i s.ctx (s.workers i) ctx worker e) :
    Phases { s with ctx, workers := Function.update s.workers i worker } := by
  obtain ⟨hstop, halive, hcount⟩ := hmove.phase
  have hnumber := @count_update _ _ _ (fun _ w => Worker.alive w = true) _ s.workers i worker _
  rw [if_pos halive] at hnumber
  have hbalance := h.number
  refine ⟨hstop ▸ h.serving, hstop ▸ h.exited, fun hfreed => hstop ▸ h.freed hfreed,
    fun j hj => ?_, ?_, fun hcond => ?_, fun hjoined => ?_⟩
  · have hne : j ≠ i := by
      rintro rfl
      rw [h.absent j hj] at halive
      cases halive
    simpa [hne] using h.absent j hj
  · rcases hcount with ⟨halive', hnum, -⟩ | ⟨hgone, hpos, hnum, -⟩
    · rw [if_pos halive'] at hnumber
      simp only
      omega
    · rw [if_neg (by simp [hgone])] at hnumber
      simp only
      omega
  · rcases hcount with ⟨-, hnum, hsame⟩ | ⟨-, -, -, hfalse⟩
    · exact hnum ▸ h.cond (hsame ▸ hcond)
    · simp [hfalse] at hcond
  · have hzero := h.joined hjoined
    rcases hcount with ⟨-, hnum, -⟩ | ⟨-, hpos, -⟩
    · exact hnum.trans hzero
    · omega

/-- When the server is asked to stop all workers are counted. -/
theorem Phases.number_of_stop {s : Threads S} (h : Phases s) (hstop : s.ctx.stop_flag ≠ 0) :
    s.ctx.num_threads = count (fun _ w => w.alive = true) s.workers := by
  have hnot : ¬s.main.serving = true := fun hserving => hstop (h.serving.mp hserving)
  have hcounted : s.main.uncounted = 0 := by
    cases hmain : s.main with
    | count k => simp [hmain, Main.serving] at hnot
    | _ => rfl
  have hbalance := h.number
  rw [hcounted] at hbalance
  simpa using hbalance

/-- A step of the master thread. -/
theorem Phases.master_move {s : Threads S} (h : Phases s) (hok : MasterOk s.ctx s.master)
    {ctx : mg_context S} {master : Master S} {e : List (Traffic S)}
    (hmove : MasterMove s.ctx s.master ctx master e) : Phases { s with ctx, master } := by
  have hnumber := h.number_of_stop
  obtain ⟨hserving, hexited, hfreed, habsent, hbalance, hcond, hjoined⟩ := h
  generalize s.master = m at hmove hok hexited hjoined
  cases hmove with
  | destroy =>
    have hstop := hok.2.2
    exact ⟨by simp [hserving, hstop], by simp, fun _ => rfl, habsent, hbalance, hcond,
      fun _ => hjoined (.inl rfl)⟩
  | join_sleep h =>
    exact ⟨hserving, by simpa using hexited, hfreed, habsent, hbalance, fun _ => h, by simp⟩
  | joined h =>
    refine ⟨hserving, by simpa using hexited, hfreed, habsent, hbalance, hcond, fun _ => ?_⟩
    -- The number is the number of the workers, and not negative.
    have hnonneg := hnumber hok.2.2
    simp only
    omega
  | _ => exact ⟨hserving, by simpa using hexited, hfreed, habsent, hbalance, hcond, by simp⟩

/-- Everything that holds while the threads run. -/
structure Consistent (s : Threads S) : Prop where
  inv : Inv s
  phases : Phases s

/-- A step of the thread that calls `mg_start` and `mg_stop`. -/
theorem Consistent.main_move {s t : Threads S} (h : Consistent s)
    (hmove : MainMove s t) : Consistent t := by
  obtain ⟨hinv, ⟨hserving, hexited, hfreed, habsent, hnumber, hcond, hjoined⟩⟩ := h
  have hsame : ∀ t : Holder, Unobtrusive t s.ctx s.ctx := Unobtrusive.refl s.ctx
  cases hmove with
  | @start i hmain hi =>
    rw [hmain] at hserving hnumber
    have hbefore : s.workers ⟨i, hi⟩ = .absent := habsent _ (by simp [hmain, Main.before])
    have hloop : (Worker.loop : Worker S).alive = true := rfl
    have hupdate := @count_update _ _ _ (fun _ w => Worker.alive w = true) _ s.workers ⟨i, hi⟩
      .loop _
    rw [hbefore, if_neg (by simp [Worker.alive]), if_pos hloop] at hupdate
    have houtside : Uninvolved s.ctx ⟨i, hi⟩ := by
      simpa [hbefore, WorkerOk] using hinv.workers ⟨i, hi⟩
    refine ⟨⟨hinv.valid, fun j => ?_, hinv.master⟩, ⟨hserving, hexited, by simp, fun j hj => ?_,
      ?_, hcond, hjoined⟩⟩
    · by_cases hj : j = ⟨i, hi⟩
      · subst hj
        simpa [WorkerOk] using houtside
      · simpa [hj] using hinv.workers j
    · have hlt : i < j := hj
      have hne : j ≠ ⟨i, hi⟩ := fun h => absurd (congrArg Fin.val h) hlt.ne'
      simpa [hne] using habsent j (by simpa [hmain, Main.before] using hlt.le)
    · simp only [Main.uncounted] at hnumber ⊢
      omega
  | @not_started i hmain =>
    rw [hmain] at hserving hnumber
    refine ⟨hinv.unobtrusive rfl hsame, ⟨hserving, hexited, by simp, fun j hj => ?_, hnumber,
      hcond, hjoined⟩⟩
    have hlt : i < j := hj
    exact habsent j (by simpa [hmain, Main.before] using hlt.le)
  | @count i hmain =>
    rw [hmain] at hserving hnumber
    have hstop := hserving.mp rfl
    refine ⟨hinv.unobtrusive rfl fun t => ?_, ⟨hserving, hexited, by simp, fun j hj => ?_, ?_,
      fun h => ?_, fun hends => ?_⟩⟩
    · exact ⟨fun h => ⟨h, rfl⟩, id, fun _ _ h => h, fun _ h => ⟨h, rfl⟩, fun _ h => h, id⟩
    · have hlt : i < j := hj
      exact habsent j (by simpa [hmain, Main.before] using hlt)
    · simp only [Main.uncounted] at hnumber ⊢
      omega
    · exact (hcond h).trans (by simp)
    · -- The master thread does not end while the server is not asked to stop.
      have hok := hinv.master
      rcases hends with hends | hends <;> rw [hends] at hok <;> exact absurd hstop hok.2.2
  | started hmain =>
    rw [hmain] at hserving hnumber
    exact ⟨hinv.unobtrusive rfl hsame, ⟨hserving, hexited, by simp, by simp [Main.before], hnumber,
      hcond, hjoined⟩⟩
  | stop hmain =>
    rw [hmain] at hserving hnumber
    have hstop := hserving.mp rfl
    refine ⟨hinv.unobtrusive rfl fun t => ?_, ⟨by simp [Main.serving], ?_, by simp,
      by simp [Main.before], hnumber, hcond, hjoined⟩⟩
    · exact ⟨fun h => ⟨h, rfl⟩, id, fun _ _ h => h, fun _ h => ⟨h, rfl⟩, fun _ h => h, by simp⟩
    · rw [hstop] at hexited
      simpa using hexited
  | free hmain hstop =>
    rw [hmain] at hserving hnumber
    exact ⟨hinv.unobtrusive rfl hsame, ⟨hserving, hexited, fun _ => hstop, by simp [Main.before],
      hnumber, hcond, hjoined⟩⟩

/-- Every step keeps it. -/
theorem Consistent.step {s t : Threads S} {e : List (Traffic S)} (h : Consistent s)
    (hstep : AnyStep s e t) :
    Consistent t := by
  obtain ⟨hinv, hphases⟩ := h
  have ⟨hserving, hexited, hfreed, habsent, hnumber, hcond, hjoined⟩ := hphases
  cases hstep with
  | wake_worker i =>
    refine ⟨hinv.unobtrusive rfl fun t => ?_, ⟨hserving, hexited, hfreed, habsent, hnumber, hcond,
      hjoined⟩⟩
    exact ⟨fun h => ⟨h, rfl⟩, id, fun _ _ h => Finset.mem_of_mem_erase h, fun _ h => ⟨h, rfl⟩,
      fun _ h => h, id⟩
  | wake_producer =>
    refine ⟨hinv.unobtrusive rfl fun t => ?_, ⟨hserving, hexited, hfreed, habsent, hnumber, hcond,
      hjoined⟩⟩
    exact ⟨fun h => ⟨h, rfl⟩, id, fun _ _ h => h, fun _ h => by simp at h, fun _ h => h, id⟩
  | wake_joiner =>
    refine ⟨hinv.unobtrusive rfl fun t => ?_, ⟨hserving, hexited, hfreed, habsent, hnumber,
      fun h => by simp at h, hjoined⟩⟩
    exact ⟨fun h => ⟨h, rfl⟩, id, fun _ _ h => h, fun _ h => ⟨h, rfl⟩, fun _ h => by simp at h, id⟩
  | thread hstep =>
    cases hstep with
    | main started hstep => exact Consistent.main_move ⟨hinv, hphases⟩ (main_thread_cases hstep)
    | master accepted woken hstep =>
      have hmove := master_thread_cases hstep
      exact ⟨hinv.master_move hmove, hphases.master_move hinv.master hmove⟩
    | worker i hstep =>
      have hmove := worker_thread_cases hinv.valid hstep
      exact ⟨hinv.worker hmove, hphases.worker hmove⟩

/-- It holds in every state that the threads reach. -/
theorem consistent_of_runs {blank : S} {s : Threads S} {e : List (Traffic S)}
    (h : Runs AnyStep (mg_start blank) e s) : Consistent s :=
  h.induct (fun _ s => Consistent s) ⟨inv_mg_start blank, phases_mg_start blank⟩
    fun _ _ _ _ hs hstep => hs.step hstep

end DialServer
