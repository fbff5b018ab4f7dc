import Mathlib.Tactic

set_option autoImplicit false

/-! # The thread pool

`threadpool_t` with the threads that work on it. A state (`System`) is the pool, the position
of every thread in its code, and what the threads have agreed on so far; an action (`Act`)
lets one thread run up to the next point at which another thread could interfere.

* A section under `pool->lock` is one step, except that it is cut in two where it waits: a
  thread that has found its condition false still holds the lock (`toWait`) and only then
  enters `pthread_cond_wait`. `shutdown` is read and written without a lock.
* `pthread_cond_signal` wakes one thread that waits, which one being part of the action, and
  is lost when none waits; threads may also wake up spuriously.
* Threads are numbered in the order of their creation. The functions that tasks call, and
  their arguments, are parameters.
-/

namespace SpeechStack

def MIN_WAIT_TASK_NUM : Int := 10

def DEFAULT_THREAD_NUM : Nat := 10

/-- `threadpool_task_t`; the argument may be `NULL`. -/
structure ThreadpoolTask (F A : Type) where
  function : F
  arg : Option A
deriving DecidableEq

/-- `struct threadpool_t` without its locks. `threads` holds the number of the thread that
was created into a slot, and nothing where the slot is still zero. -/
structure Threadpool (F A : Type) where
  threads : Nat → Option Nat
  taskQueue : Int → ThreadpoolTask F A
  minThrNum : Int
  maxThrNum : Int
  liveThrNum : Int
  busyThrNum : Int
  waitExitThrNum : Int
  queueFront : Int
  queueRear : Int
  queueSize : Int
  queueMaxSize : Int
  shutdown : Bool

/-- Where a worker is in `threadpool_thread`. -/
inductive Worker (F A : Type) where
  /-- at the head of its loop, before it takes the lock -/
  | start
  /-- holds the lock and is about to wait on `queue_not_empty` -/
  | toWait
  | waiting
  /-- no longer waits, but has not got the lock back yet -/
  | woken
  /-- has taken a task -/
  | took (task : ThreadpoolTask F A)
  /-- runs a task, and is counted as busy -/
  | busy (task : ThreadpoolTask F A)
  /-- is about to call `pthread_exit`: as one thread too many, or because of the shutdown -/
  | leaving (surplus : Bool)
  | exited (surplus : Bool)
deriving DecidableEq

/-- Where a call is in `threadpool_add_task`. -/
inductive CallPc where
  /-- before it takes the lock -/
  | enter
  /-- holds the lock and is about to wait on `queue_not_full` -/
  | toWait
  | waiting
  | woken
  /-- has added its task and is about to signal -/
  | signal
  | returned (ret : Int)
deriving DecidableEq

/-- A call of `threadpool_add_task`. -/
structure Call (F A : Type) where
  task : ThreadpoolTask F A
  pc : CallPc
deriving DecidableEq

/-- Where the admin thread is, with the snapshots that it holds. -/
inductive Admin where
  /-- about to test `shutdown` -/
  | top
  | sleeping
  | counted (queueSize liveThrNum : Int)
  | deciding (queueSize liveThrNum busyThrNum : Int)
  | shrinking (liveThrNum busyThrNum : Int)
  /-- has so many signals left to send -/
  | notifying (left : Nat)
  | ended
deriving DecidableEq

/-- Where `threadpool_destroy` is. -/
inductive Destroy where
  /-- has not been called -/
  | idle
  /-- has set `shutdown` and joins the admin thread -/
  | joinAdmin
  /-- about to test `i < live_thr_num` in the broadcast loop -/
  | testBroadcast (i : Nat)
  | broadcast (i : Nat)
  /-- about to test `i < live_thr_num` in the join loop -/
  | testJoin (i : Nat)
  | join (i : Nat)
  /-- about to call `threadpool_free` -/
  | free
  | freed
deriving DecidableEq

/-- A thread that can hold `pool->lock` across a step. -/
inductive Owner where
  | worker (i : Nat)
  | call (j : Nat)
deriving DecidableEq

/-- The pool and its threads. -/
structure System (F A : Type) where
  pool : Threadpool F A
  lock : Option Owner
  workers : List (Worker F A)
  calls : List (Call F A)
  admin : Admin
  destroy : Destroy
  /-- the calls whose enqueue section has run, with their tasks, in that order -/
  accepted : List (Nat × ThreadpoolTask F A)
  /-- the tasks that workers have taken, in that order -/
  taken : List (ThreadpoolTask F A)

/-- One step of one thread. -/
inductive Act (F A : Type) where
  | worker (i : Nat)
  /-- worker `i` wakes up spuriously -/
  | wakeWorker (i : Nat)
  /-- a new call of `threadpool_add_task` -/
  | call (function : F) (arg : Option A)
  | caller (j : Nat)
  /-- call `j` signals `queue_not_empty`, and `pick` wakes -/
  | callerSignal (j : Nat) (pick : Option Nat)
  | wakeCaller (j : Nat)
  | admin
  | adminSignal (pick : Option Nat)
  | destroy

section Step

variable {F A : Type}

/-- `threadpool_create`, with the memory that `malloc` gave it for the queue. -/
def threadpoolCreate (minThrNum maxThrNum queueMaxSize : Int)
    (heap : Int → ThreadpoolTask F A) : System F A where
  pool :=
    { threads := fun i => if (i : Int) < minThrNum then some i else none
      taskQueue := heap
      minThrNum := minThrNum
      maxThrNum := maxThrNum
      liveThrNum := minThrNum
      busyThrNum := 0
      waitExitThrNum := 0
      queueFront := 0
      queueRear := 0
      queueSize := 0
      queueMaxSize := queueMaxSize
      shutdown := false }
  lock := none
  workers := List.replicate minThrNum.toNat .start
  calls := []
  admin := .top
  destroy := .idle
  accepted := []
  taken := []

/-! ## Condition variables -/

def Worker.isWaiting : Worker F A → Bool
  | .waiting => true
  | _ => false

def Worker.wake : Worker F A → Worker F A
  | .waiting => .woken
  | w => w

def Call.wake (c : Call F A) : Call F A :=
  match c.pc with
  | .waiting => { c with pc := .woken }
  | _ => c

/-- Worker `i` stops waiting on `queue_not_empty`. -/
def wakeWorker (s : System F A) (i : Nat) : Option (System F A) :=
  match s.workers[i]? with
  | some .waiting => some { s with workers := s.workers.set i .woken }
  | _ => none

/-- Call `j` stops waiting on `queue_not_full`. -/
def wakeCaller (s : System F A) (j : Nat) : Option (System F A) :=
  match s.calls[j]? with
  | some ⟨task, .waiting⟩ => some { s with calls := s.calls.set j ⟨task, .woken⟩ }
  | _ => none

/-- `pthread_cond_signal(&(pool->queue_not_empty))`, which wakes the worker `pick`. -/
def signalNotEmpty (s : System F A) : Option Nat → Option (System F A)
  | some i => wakeWorker s i
  | none => if s.workers.any Worker.isWaiting then none else some s

/-- `pthread_cond_broadcast(&(pool->queue_not_empty))`. -/
def broadcastNotEmpty (s : System F A) : System F A :=
  { s with workers := s.workers.map Worker.wake }

/-- `pthread_cond_broadcast(&(pool->queue_not_full))`. -/
def broadcastNotFull (s : System F A) : System F A :=
  { s with calls := s.calls.map Call.wake }

/-! ## `threadpool_thread` -/

/-- From the test of the wait loop on, under the lock. -/
def workerSection (s : System F A) (i : Nat) : System F A :=
  if s.pool.queueSize = 0 ∧ s.pool.shutdown = false then
    { s with lock := some (.worker i), workers := s.workers.set i .toWait }
  -- what is queued stays in the queue
  else if s.pool.shutdown then { s with workers := s.workers.set i (.leaving false) }
  else
    let task := s.pool.taskQueue s.pool.queueFront
    broadcastNotFull { s with
      pool := { s.pool with
        queueFront := (s.pool.queueFront + 1) % s.pool.queueMaxSize
        queueSize := s.pool.queueSize - 1 }
      workers := s.workers.set i (.took task)
      taken := s.taken ++ [task] }

def threadpoolThread (s : System F A) (i : Nat) : Option (System F A) :=
  match s.workers[i]? with
  | some .start => if s.lock = none then some (workerSection s i) else none
  | some .toWait => some { s with lock := none, workers := s.workers.set i .waiting }
  | some .woken =>
      if s.lock ≠ none then none
      else if s.pool.waitExitThrNum > 0 then
        let pool := { s.pool with waitExitThrNum := s.pool.waitExitThrNum - 1 }
        -- `wait_exit_thr_num` has been counted down even where the thread then stays
        if pool.liveThrNum > pool.minThrNum then
          some { s with
            pool := { pool with liveThrNum := pool.liveThrNum - 1 }
            workers := s.workers.set i (.leaving true) }
        else some (workerSection { s with pool := pool } i)
      else some (workerSection s i)
  | some (.took task) => some { s with
      pool := { s.pool with busyThrNum := s.pool.busyThrNum + 1 }
      workers := s.workers.set i (.busy task) }
  | some (.busy _) => some { s with
      pool := { s.pool with busyThrNum := s.pool.busyThrNum - 1 }
      workers := s.workers.set i .start }
  | some (.leaving surplus) => some { s with workers := s.workers.set i (.exited surplus) }
  | _ => none

/-! ## `threadpool_add_task` -/

/-- What adding `task` makes of the cell at `queue_rear`. -/
def overwrite (cell task : ThreadpoolTask F A) : ThreadpoolTask F A :=
  -- the old argument is dropped, not freed: the source has its `free` in a comment
  let cell := if cell.arg.isSome then { cell with arg := none } else cell
  let cell := { cell with function := task.function }
  { cell with arg := task.arg }

/-- From the test of the wait loop on, under the lock. -/
def callerSection (s : System F A) (j : Nat) (task : ThreadpoolTask F A) : System F A :=
  if s.pool.queueSize = s.pool.queueMaxSize ∧ s.pool.shutdown = false then
    { s with lock := some (.call j), calls := s.calls.set j ⟨task, .toWait⟩ }
  else if s.pool.shutdown then { s with calls := s.calls.set j ⟨task, .returned (-1)⟩ }
  else { s with
    pool := { s.pool with
      taskQueue := fun k =>
        if k = s.pool.queueRear then overwrite (s.pool.taskQueue k) task
        else s.pool.taskQueue k
      queueRear := (s.pool.queueRear + 1) % s.pool.queueMaxSize
      queueSize := s.pool.queueSize + 1 }
    calls := s.calls.set j ⟨task, .signal⟩
    accepted := s.accepted ++ [(j, task)] }

def threadpoolAddTask (s : System F A) (j : Nat) : Option (System F A) :=
  match s.calls[j]? with
  | some ⟨task, .enter⟩ => if s.lock = none then some (callerSection s j task) else none
  | some ⟨task, .toWait⟩ => some { s with lock := none, calls := s.calls.set j ⟨task, .waiting⟩ }
  | some ⟨task, .woken⟩ => if s.lock = none then some (callerSection s j task) else none
  | _ => none

/-- The signal behind the enqueue section, and the return. -/
def callerSignal (s : System F A) (j : Nat) (pick : Option Nat) : Option (System F A) :=
  match s.calls[j]? with
  | some ⟨task, .signal⟩ =>
      (signalNotEmpty s pick).map fun s => { s with calls := s.calls.set j ⟨task, .returned 0⟩ }
  | _ => none

/-! ## `admin_thread` -/

/-- `is_thread_alive(tid)`: a thread is there until it has exited. -/
def isThreadAlive (s : System F A) (tid : Nat) : Bool :=
  match s.workers[tid]? with
  | some (.exited _) => false
  | some _ => true
  | none => false

/-- The slot can take a new thread. -/
def slotFree (s : System F A) (i : Nat) : Bool :=
  match s.pool.threads i with
  | some tid => !isThreadAlive s tid
  | none => true

/-- `pthread_create(&(pool->threads[i]), …)`, and the new thread counted. -/
def createThread (s : System F A) (i : Nat) : System F A :=
  { s with
    pool := { s.pool with
      threads := fun k => if k = i then some s.workers.length else s.pool.threads k
      liveThrNum := s.pool.liveThrNum + 1 }
    workers := s.workers ++ [.start] }

/-- The loop of a grow round over the slots `i`, …, `i + left - 1`. -/
def growLoop : Nat → Nat → Nat → System F A → System F A
  | 0, _, _, s => s
  | left + 1, i, add, s =>
      -- `live_thr_num` is tested again for every slot, now under the lock
      if add < DEFAULT_THREAD_NUM ∧ s.pool.liveThrNum < s.pool.maxThrNum then
        if slotFree s i then growLoop left (i + 1) (add + 1) (createThread s i)
        else growLoop left (i + 1) add s
      else s

def adminThread (s : System F A) : Option (System F A) :=
  match s.admin with
  | .top => some { s with admin := if s.pool.shutdown then .ended else .sleeping }
  | .sleeping =>
      if s.lock = none then
        -- the snapshots are taken under two different locks
        some { s with admin := .counted s.pool.queueSize s.pool.liveThrNum }
      else none
  | .counted queueSize liveThrNum =>
      some { s with admin := .deciding queueSize liveThrNum s.pool.busyThrNum }
  | .deciding queueSize liveThrNum busyThrNum =>
      -- by the snapshots, which may be old by now
      if queueSize ≥ MIN_WAIT_TASK_NUM ∧ liveThrNum ≤ s.pool.maxThrNum then
        if s.lock = none then
          some { growLoop s.pool.maxThrNum.toNat 0 0 s with
            admin := .shrinking liveThrNum busyThrNum }
        else none
      else some { s with admin := .shrinking liveThrNum busyThrNum }
  | .shrinking liveThrNum busyThrNum =>
      if busyThrNum * 2 < liveThrNum ∧ liveThrNum > s.pool.minThrNum then
        if s.lock = none then
          some { s with
            pool := { s.pool with waitExitThrNum := DEFAULT_THREAD_NUM }
            admin := .notifying DEFAULT_THREAD_NUM }
        else none
      else some { s with admin := .top }
  | .notifying 0 => some { s with admin := .top }
  | _ => none

/-- One of the signals of a shrink round. -/
def adminSignal (s : System F A) (pick : Option Nat) : Option (System F A) :=
  match s.admin with
  | .notifying (left + 1) =>
      (signalNotEmpty s pick).map fun s => { s with admin := .notifying left }
  | _ => none

/-! ## `threadpool_destroy` -/

def threadpoolDestroy (s : System F A) : Option (System F A) :=
  match s.destroy with
  | .idle => some { s with pool := { s.pool with shutdown := true }, destroy := .joinAdmin }
  | .joinAdmin => if s.admin = .ended then some { s with destroy := .testBroadcast 0 } else none
  | .testBroadcast i => some { s with
      -- `live_thr_num` is read again before every broadcast and every join, without the lock
      destroy := if (i : Int) < s.pool.liveThrNum then .broadcast i else .testJoin 0 }
  | .broadcast i => some { broadcastNotEmpty s with destroy := .testBroadcast (i + 1) }
  | .testJoin i => some { s with
      destroy := if (i : Int) < s.pool.liveThrNum then .join i else .free }
  | .join i =>
      match s.pool.threads i with
      | some tid => if isThreadAlive s tid then none else some { s with destroy := .testJoin (i + 1) }
      | none => some { s with destroy := .testJoin (i + 1) } -- no such thread
  | .free => some { s with destroy := .freed }
  | .freed => none

/-! ## The machine -/

def System.step (s : System F A) : Act F A → Option (System F A)
  | .worker i => threadpoolThread s i
  | .wakeWorker i => wakeWorker s i
  | .call function arg => some { s with calls := s.calls ++ [⟨⟨function, arg⟩, .enter⟩] }
  | .caller j => threadpoolAddTask s j
  | .callerSignal j pick => callerSignal s j pick
  | .wakeCaller j => wakeCaller s j
  | .admin => adminThread s
  | .adminSignal pick => adminSignal s pick
  | .destroy => threadpoolDestroy s

end Step

end SpeechStack
