import DialServer.Base.Ring
import DialServer.Base.Transitions

/-!
# The threads of `mongoose.c`

The master thread accepts connections and puts them in a queue, `NUM_THREADS` worker threads take
them out and serve them, and the thread that has called `mg_start` later calls `mg_stop`. The queue
is protected by a mutex, and a thread that has to wait does so on one of three condition variables;
`stop_flag` is read and written without the mutex.

A step of a thread is what it does up to the next point at which another thread can interfere: up to
the next access to `stop_flag`, or up to the next lock, wait or unlock, whichever is first. Between
two such points a thread that holds the mutex is alone. The calls of `pthread_mutex_lock` and
`pthread_cond_wait` succeed. `S` is `struct socket`, which the threads hand on without looking into
it.
-/

namespace DialServer

open CLib

/-- The size of the array `queue`. -/
def QUEUE_SIZE : ℕ := 20

/-- `NUM_THREADS`. -/
def NUM_THREADS : ℕ := 4

instance : NeZero QUEUE_SIZE := ⟨by decide⟩

instance : NeZero NUM_THREADS := ⟨by decide⟩

/-- A thread that takes the mutex. -/
inductive Holder
  | master
  | worker (i : Fin NUM_THREADS)
  deriving DecidableEq, Repr

/-- The part of `struct mg_context` that the threads share: the flag, the number of workers, the
holder of the mutex, and the queue. Of the condition variables it has who waits on them: workers on
`sq_full`, and the master thread on `sq_empty` and on `cond`. -/
structure mg_context (S : Type) where
  stop_flag : ℕ
  num_threads : ℤ
  mutex : Option Holder
  queue : Ring S QUEUE_SIZE
  sq_full : Finset (Fin NUM_THREADS)
  sq_empty : Bool
  cond : Bool

/-- Where the thread is that calls `mg_start` and `mg_stop`: it is about to start a worker, it is
about to count the worker it has started, the server runs, it waits for the master thread to end, or
it has freed the context. -/
inductive Main
  | start (i : ℕ)
  | count (i : ℕ)
  | run
  | stop
  | freed
  deriving DecidableEq, Repr

/-- Where the master thread is. In `check`, `put` and `join` it holds the mutex; in `lock` and
`join_lock` it is about to take it, and in `asleep` and `join_asleep` it waits on `sq_empty` and on
`cond`. -/
inductive Master (S : Type)
  | loop
  | accept
  | lock (sp : S)
  | check (sp : S)
  | asleep (sp : S)
  | put (sp : S)
  | close
  | join_lock
  | join
  | join_asleep
  | destroy
  | exited
  deriving DecidableEq, Repr

/-- Where a worker is. In `check`, `wait`, `decide`, `take` and `leave` it holds the mutex; in
`lock` and `quit` it is about to take it, and in `asleep` it waits on `sq_full`. -/
inductive Worker (S : Type)
  | absent
  | loop
  | lock
  | check
  | wait
  | asleep
  | decide
  | take
  | serve (sp : S)
  | quit
  | leave
  | gone
  deriving DecidableEq, Repr

/-- What happens to connections: the master thread accepts one and puts it in the queue, and a
worker takes one out and closes it. -/
inductive Traffic (S : Type)
  | accepted (sp : S)
  | queued (sp : S)
  | taken (i : Fin NUM_THREADS) (sp : S)
  | closed (i : Fin NUM_THREADS) (sp : S)
  deriving DecidableEq, Repr

variable {S : Type}

/-- A step of `worker_thread`, with `consume_socket`. -/
def worker_thread (i : Fin NUM_THREADS) (ctx : mg_context S) :
    Worker S → Option (mg_context S × Worker S × List (Traffic S))
  | .absent => none
  | .loop => if ctx.stop_flag = 0 then some (ctx, .lock, []) else some (ctx, .quit, [])
  | .lock =>
    if ctx.mutex = none then some ({ ctx with mutex := some (.worker i) }, .check, []) else none
  | .check =>
    -- The condition of the loop is tested before the call of `pthread_cond_wait`.
    if ctx.queue.IsEmpty ∧ ctx.stop_flag = 0 then some (ctx, .wait, []) else some (ctx, .decide, [])
  | .wait => some ({ ctx with mutex := none, sq_full := insert i ctx.sq_full }, .asleep, [])
  | .asleep =>
    if i ∉ ctx.sq_full ∧ ctx.mutex = none then
      some ({ ctx with mutex := some (.worker i) }, .check, [])
    else none
  | .decide =>
    if ctx.stop_flag ≠ 0 then some ({ ctx with mutex := none }, .quit, [])
    else if ctx.queue.tail < ctx.queue.head then some (ctx, .take, [])
    else none                                           -- the assertion fails
  | .take =>
    some ({ ctx with queue := ctx.queue.take, sq_empty := false, mutex := none },
      .serve ctx.queue.front, [.taken i ctx.queue.front])
  | .serve sp => some (ctx, .loop, [.closed i sp])
  | .quit =>
    if ctx.mutex = none then some ({ ctx with mutex := some (.worker i) }, .leave, []) else none
  | .leave =>
    if 0 ≤ ctx.num_threads - 1 then
      some ({ ctx with num_threads := ctx.num_threads - 1, cond := false, mutex := none }, .gone,
        [])
    else none                                           -- the assertion fails
  | .gone => none

/-- A step of `master_thread`, with `produce_socket`. `accepted` is what `accept` returns, and
`woken` is the worker that `pthread_cond_signal` wakes up when there are some that wait. -/
def master_thread (accepted : Option S) (woken : Fin NUM_THREADS) (ctx : mg_context S) :
    Master S → Option (mg_context S × Master S × List (Traffic S))
  | .loop => if ctx.stop_flag = 0 then some (ctx, .accept, []) else some (ctx, .close, [])
  | .accept =>
    match accepted with
    | some sp => some (ctx, .lock sp, [.accepted sp])
    | none => some (ctx, .loop, [])
  | .lock sp =>
    if ctx.mutex = none then some ({ ctx with mutex := some .master }, .check sp, []) else none
  | .check sp =>
    if ctx.queue.IsFull then some ({ ctx with mutex := none, sq_empty := true }, .asleep sp, [])
    else some (ctx, .put sp, [])
  | .asleep sp =>
    if ctx.sq_empty = false ∧ ctx.mutex = none then
      some ({ ctx with mutex := some .master }, .check sp, [])
    else none
  | .put sp =>
    if ctx.queue.IsFull then none                       -- the assertion fails
    else if ctx.sq_full = ∅ ∨ woken ∈ ctx.sq_full then
      some ({ ctx with
              queue := ctx.queue.put sp
              sq_full := ctx.sq_full.erase woken
              mutex := none }, .loop, [.queued sp])
    else none
  | .close => some ({ ctx with sq_full := ∅ }, .join_lock, [])
  | .join_lock =>
    if ctx.mutex = none then some ({ ctx with mutex := some .master }, .join, []) else none
  | .join =>
    if 0 < ctx.num_threads then some ({ ctx with mutex := none, cond := true }, .join_asleep, [])
    else some ({ ctx with mutex := none }, .destroy, [])
  | .join_asleep =>
    if ctx.cond = false ∧ ctx.mutex = none then
      some ({ ctx with mutex := some .master }, .join, [])
    else none
  | .destroy => some ({ ctx with stop_flag := 2 }, .exited, [])
  | .exited => none

/-- The context with the threads. -/
structure Threads (S : Type) where
  ctx : mg_context S
  main : Main
  master : Master S
  workers : Fin NUM_THREADS → Worker S

/-- `mg_start` when it has started the master thread, with a queue of zeroed entries. -/
def mg_start (blank : S) : Threads S where
  ctx :=
    { stop_flag := 0, num_threads := 0, mutex := none, queue := .empty QUEUE_SIZE blank,
      sq_full := ∅, sq_empty := false, cond := false }
  main := .start 0
  master := .loop
  workers _ := .absent

/-- A step of the thread that calls `mg_start` and `mg_stop`. `started` is whether `start_thread`
succeeds. -/
def main_thread (started : Bool) (s : Threads S) : Option (Threads S) :=
  match s.main with
  | .start i =>
    if hi : i < NUM_THREADS then
      if started then
        some { s with main := .count i, workers := Function.update s.workers ⟨i, hi⟩ .loop }
      else some { s with main := .start (i + 1) }
    else some { s with main := .run }
  | .count i => some { s with main := .start (i + 1), ctx.num_threads := s.ctx.num_threads + 1 }
  | .run => some { s with main := .stop, ctx.stop_flag := 1 }
  | .stop => if s.ctx.stop_flag = 2 then some { s with main := .freed } else none
  | .freed => none

/-- A step of one of the threads. -/
inductive ThreadStep : Threads S → List (Traffic S) → Threads S → Prop
  | main {s t} (started) (hstep : main_thread started s = some t) : ThreadStep s [] t
  | master {s ctx master e} (accepted woken)
      (hstep : master_thread accepted woken s.ctx s.master = some (ctx, master, e)) :
      ThreadStep s e { s with ctx, master }
  | worker {s ctx worker e} (i)
      (hstep : worker_thread i s.ctx (s.workers i) = some (ctx, worker, e)) :
      ThreadStep s e { s with ctx, workers := Function.update s.workers i worker }

/-- A step of one of the threads, or one that waits wakes up without having been signalled. -/
inductive AnyStep : Threads S → List (Traffic S) → Threads S → Prop
  | thread {s e t} (hstep : ThreadStep s e t) : AnyStep s e t
  | wake_worker {s} (i) : AnyStep s [] { s with ctx.sq_full := s.ctx.sq_full.erase i }
  | wake_producer {s} : AnyStep s [] { s with ctx.sq_empty := false }
  | wake_joiner {s} : AnyStep s [] { s with ctx.cond := false }

end DialServer
