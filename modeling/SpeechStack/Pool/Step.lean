import SpeechStack.Lib.Machine
import SpeechStack.Pool.State

set_option autoImplicit false

/-! # What a step can do

The steps of `System.step` as relations, one constructor for each way through the code
(`Step`), and the inversion of the step function into them (`System.step_cases`). The
invariants of the pool are proved over these relations and never unfold the step function.
-/

namespace SpeechStack

variable {F A : Type}

/-! ## Workers -/

/-- Worker `i` has the lock and tests the queue, with `wait_exit_thr_num` at `w`: it comes
from the head of its loop, or back from the wait and stays. -/
inductive Tests (s : System F A) (i : Nat) : Int → Prop where
  | fresh (hlock : s.lock = none) (hpc : s.workers[i]? = some .start) :
      Tests s i s.pool.waitExitThrNum
  | back (hlock : s.lock = none) (hpc : s.workers[i]? = some .woken)
      (hno : s.pool.waitExitThrNum ≤ 0) : Tests s i s.pool.waitExitThrNum
  | spared (hlock : s.lock = none) (hpc : s.workers[i]? = some .woken)
      (hpos : 0 < s.pool.waitExitThrNum) (hmin : s.pool.liveThrNum ≤ s.pool.minThrNum) :
      Tests s i (s.pool.waitExitThrNum - 1)

/-- A step of worker `i` in `threadpool_thread`. -/
inductive WorkerStep (s : System F A) (i : Nat) : System F A → Prop where
  | sleeps (w : Int) (ht : Tests s i w) (hempty : s.pool.queueSize = 0)
      (hopen : s.pool.shutdown = false) :
      WorkerStep s i { s with
        pool := { s.pool with waitExitThrNum := w }
        lock := some (.worker i)
        workers := s.workers.set i .toWait }
  | quits (w : Int) (ht : Tests s i w) (hdown : s.pool.shutdown = true) :
      WorkerStep s i { s with
        pool := { s.pool with waitExitThrNum := w }
        workers := s.workers.set i (.leaving false) }
  | takes (w : Int) (ht : Tests s i w) (hsize : s.pool.queueSize ≠ 0)
      (hopen : s.pool.shutdown = false) :
      WorkerStep s i { s with
        pool := { s.pool with
          waitExitThrNum := w
          queueFront := (s.pool.queueFront + 1) % s.pool.queueMaxSize
          queueSize := s.pool.queueSize - 1 }
        workers := s.workers.set i (.took (s.pool.taskQueue s.pool.queueFront))
        calls := s.calls.map Call.wake
        taken := s.taken ++ [s.pool.taskQueue s.pool.queueFront] }
  | surplus (hlock : s.lock = none) (hpc : s.workers[i]? = some .woken)
      (hpos : 0 < s.pool.waitExitThrNum) (hmin : s.pool.minThrNum < s.pool.liveThrNum) :
      WorkerStep s i { s with
        pool := { s.pool with
          waitExitThrNum := s.pool.waitExitThrNum - 1
          liveThrNum := s.pool.liveThrNum - 1 }
        workers := s.workers.set i (.leaving true) }
  | waits (hpc : s.workers[i]? = some .toWait) :
      WorkerStep s i { s with lock := none, workers := s.workers.set i .waiting }
  | begins (task : ThreadpoolTask F A) (hpc : s.workers[i]? = some (.took task)) :
      WorkerStep s i { s with
        pool := { s.pool with busyThrNum := s.pool.busyThrNum + 1 }
        workers := s.workers.set i (.busy task) }
  | finishes (task : ThreadpoolTask F A) (hpc : s.workers[i]? = some (.busy task)) :
      WorkerStep s i { s with
        pool := { s.pool with busyThrNum := s.pool.busyThrNum - 1 }
        workers := s.workers.set i .start }
  | exits (b : Bool) (hpc : s.workers[i]? = some (.leaving b)) :
      WorkerStep s i { s with workers := s.workers.set i (.exited b) }

theorem Tests.pc {s : System F A} {i : Nat} {w : Int} (h : Tests s i w) :
    s.workers[i]? = some .start ∨ s.workers[i]? = some .woken := by
  cases h with
  | fresh _ hpc => exact Or.inl hpc
  | back _ hpc _ => exact Or.inr hpc
  | spared _ hpc _ _ => exact Or.inr hpc

theorem Tests.exists_worker {s : System F A} {i : Nat} {w : Int} (h : Tests s i w) :
    ∃ b, s.workers[i]? = some b := by
  rcases h.pc with hpc | hpc <;> exact ⟨_, hpc⟩

theorem Tests.lock {s : System F A} {i : Nat} {w : Int} (h : Tests s i w) : s.lock = none := by
  cases h <;> assumption

theorem workerSection_cases {s : System F A} {i : Nat} {w : Int} (ht : Tests s i w) :
    WorkerStep s i (workerSection { s with pool := { s.pool with waitExitThrNum := w } } i) := by
  rw [workerSection]
  split
  · rename_i h
    exact .sleeps w ht h.1 h.2
  · rename_i h
    split
    · rename_i hdown
      exact .quits w ht hdown
    · rename_i hopen
      have hopen' : s.pool.shutdown = false := Bool.eq_false_iff.mpr hopen
      exact .takes w ht (fun h₀ => h ⟨h₀, hopen'⟩) hopen'

theorem threadpoolThread_cases {s s' : System F A} {i : Nat}
    (h : threadpoolThread s i = some s') : WorkerStep s i s' := by
  rw [threadpoolThread] at h
  split at h
  · rename_i hpc
    split at h
    · rename_i hlock
      cases h
      exact workerSection_cases (.fresh hlock hpc)
    · exact absurd h (by simp)
  · rename_i hpc
    cases h
    exact .waits hpc
  · rename_i hpc
    split at h
    · exact absurd h (by simp)
    · rename_i hlock
      rw [not_ne_iff] at hlock
      split at h
      · rename_i hpos
        dsimp only at h
        split at h
        · -- one worker too many
          rename_i hmin
          cases h
          exact .surplus hlock hpc hpos hmin
        · rename_i hmin
          cases h
          exact workerSection_cases (.spared hlock hpc hpos (not_lt.mp hmin))
      · rename_i hno
        cases h
        exact workerSection_cases (.back hlock hpc (not_lt.mp hno))
  · rename_i task hpc
    cases h
    exact .begins task hpc
  · rename_i task hpc
    cases h
    exact .finishes task hpc
  · rename_i b hpc
    cases h
    exact .exits b hpc
  · exact absurd h (by simp)

/-! ## Calls of `threadpool_add_task` -/

/-- Call `j` for `task` has the lock and tests the queue. -/
structure Enters (s : System F A) (j : Nat) (task : ThreadpoolTask F A) : Prop where
  lock : s.lock = none
  pc : s.calls[j]? = some ⟨task, .enter⟩ ∨ s.calls[j]? = some ⟨task, .woken⟩

theorem Enters.exists_call {s : System F A} {j : Nat} {task : ThreadpoolTask F A}
    (h : Enters s j task) : ∃ c, s.calls[j]? = some c := by
  rcases h.pc with hpc | hpc <;> exact ⟨_, hpc⟩

/-- A step of call `j` up to its signal. -/
inductive CallerStep (s : System F A) (j : Nat) : System F A → Prop where
  | blocks (task : ThreadpoolTask F A) (he : Enters s j task)
      (hfull : s.pool.queueSize = s.pool.queueMaxSize) (hopen : s.pool.shutdown = false) :
      CallerStep s j { s with lock := some (.call j), calls := s.calls.set j ⟨task, .toWait⟩ }
  | rejects (task : ThreadpoolTask F A) (he : Enters s j task) (hdown : s.pool.shutdown = true) :
      CallerStep s j { s with calls := s.calls.set j ⟨task, .returned (-1)⟩ }
  | enqueues (task : ThreadpoolTask F A) (he : Enters s j task)
      (hroom : s.pool.queueSize ≠ s.pool.queueMaxSize) (hopen : s.pool.shutdown = false) :
      CallerStep s j { s with
        pool := { s.pool with
          taskQueue := fun k => if k = s.pool.queueRear then task else s.pool.taskQueue k
          queueRear := (s.pool.queueRear + 1) % s.pool.queueMaxSize
          queueSize := s.pool.queueSize + 1 }
        calls := s.calls.set j ⟨task, .signal⟩
        accepted := s.accepted ++ [(j, task)] }
  | waits (task : ThreadpoolTask F A) (hpc : s.calls[j]? = some ⟨task, .toWait⟩) :
      CallerStep s j { s with lock := none, calls := s.calls.set j ⟨task, .waiting⟩ }

/-- The cell ends up as the new task, whatever was in it. -/
theorem overwrite_eq (cell task : ThreadpoolTask F A) : overwrite cell task = task := rfl

theorem callerSection_cases {s : System F A} {j : Nat} {task : ThreadpoolTask F A}
    (he : Enters s j task) : CallerStep s j (callerSection s j task) := by
  rw [callerSection]
  split
  · rename_i h
    exact .blocks task he h.1 h.2
  · rename_i h
    split
    · rename_i hdown
      exact .rejects task he hdown
    · rename_i hopen
      have hopen' : s.pool.shutdown = false := Bool.eq_false_iff.mpr hopen
      simp only [overwrite_eq]
      exact .enqueues task he (fun hfull => h ⟨hfull, hopen'⟩) hopen'

theorem threadpoolAddTask_cases {s s' : System F A} {j : Nat}
    (h : threadpoolAddTask s j = some s') : CallerStep s j s' := by
  rw [threadpoolAddTask] at h
  split at h
  · rename_i task hpc
    split at h
    · rename_i hlock
      cases h
      exact callerSection_cases ⟨hlock, Or.inl hpc⟩
    · exact absurd h (by simp)
  · rename_i task hpc
    cases h
    exact .waits task hpc
  · rename_i task hpc
    split at h
    · rename_i hlock
      cases h
      exact callerSection_cases ⟨hlock, Or.inr hpc⟩
    · exact absurd h (by simp)
  · exact absurd h (by simp)

/-! ## Signals -/

/-- What a signal on `queue_not_empty` makes of the workers. -/
inductive Signals (s : System F A) : List (Worker F A) → Prop where
  | wakes (i : Nat) (hpc : s.workers[i]? = some .waiting) :
      Signals s (s.workers.set i .woken)
  | lost (hnone : ∀ w ∈ s.workers, w.isWaiting = false) : Signals s s.workers

theorem wakeWorker_cases {s s' : System F A} {i : Nat} (h : wakeWorker s i = some s') :
    s.workers[i]? = some .waiting ∧ s' = { s with workers := s.workers.set i .woken } := by
  rw [wakeWorker] at h
  split at h
  · rename_i hpc
    cases h
    exact ⟨hpc, rfl⟩
  · exact absurd h (by simp)

theorem wakeCaller_cases {s s' : System F A} {j : Nat} (h : wakeCaller s j = some s') :
    ∃ task, s.calls[j]? = some ⟨task, .waiting⟩ ∧
      s' = { s with calls := s.calls.set j ⟨task, .woken⟩ } := by
  rw [wakeCaller] at h
  split at h
  · rename_i task hpc
    cases h
    exact ⟨task, hpc, rfl⟩
  · exact absurd h (by simp)

theorem signalNotEmpty_cases {s s' : System F A} {pick : Option Nat}
    (h : signalNotEmpty s pick = some s') : ∃ ws, Signals s ws ∧ s' = { s with workers := ws } := by
  cases pick with
  | some i =>
      obtain ⟨hpc, rfl⟩ := wakeWorker_cases h
      exact ⟨_, .wakes i hpc, rfl⟩
  | none =>
      -- nobody waits: the signal is lost
      rw [signalNotEmpty] at h
      split at h
      · exact absurd h (by simp)
      · rename_i hnone
        cases h
        refine ⟨s.workers, .lost fun w hw => ?_, rfl⟩
        by_contra hwait
        exact hnone (List.any_eq_true.mpr ⟨w, hw, by simpa using hwait⟩)

/-! ## The admin thread -/

/-- A step of the admin thread. -/
inductive AdminStep (s : System F A) : System F A → Prop where
  | sleeps (hpc : s.admin = .top) (hopen : s.pool.shutdown = false) :
      AdminStep s { s with admin := .sleeping }
  | ends (hpc : s.admin = .top) (hdown : s.pool.shutdown = true) :
      AdminStep s { s with admin := .ended }
  | counts (hpc : s.admin = .sleeping) (hlock : s.lock = none) :
      AdminStep s { s with admin := .counted s.pool.queueSize s.pool.liveThrNum }
  | reads (q l : Int) (hpc : s.admin = .counted q l) :
      AdminStep s { s with admin := .deciding q l s.pool.busyThrNum }
  | grows (q l b : Int) (hpc : s.admin = .deciding q l b) (hlock : s.lock = none)
      (hmany : MIN_WAIT_TASK_NUM ≤ q) :
      AdminStep s { growLoop s.pool.maxThrNum.toNat 0 0 s with admin := .shrinking l b }
  | stays (q l b : Int) (hpc : s.admin = .deciding q l b) :
      AdminStep s { s with admin := .shrinking l b }
  | shrinks (l b : Int) (hpc : s.admin = .shrinking l b) (hlock : s.lock = none)
      (hmin : s.pool.minThrNum < l) :
      AdminStep s { s with
        pool := { s.pool with waitExitThrNum := DEFAULT_THREAD_NUM }
        admin := .notifying DEFAULT_THREAD_NUM }
  | keeps (l b : Int) (hpc : s.admin = .shrinking l b) : AdminStep s { s with admin := .top }
  | signals (left : Nat) (ws : List (Worker F A)) (hpc : s.admin = .notifying (left + 1))
      (hs : Signals s ws) : AdminStep s { s with workers := ws, admin := .notifying left }
  | done (hpc : s.admin = .notifying 0) : AdminStep s { s with admin := .top }

theorem adminThread_cases {s s' : System F A} (h : adminThread s = some s') :
    AdminStep s s' := by
  rw [adminThread] at h
  split at h
  · rename_i hpc
    cases h
    split
    · rename_i hdown
      exact .ends hpc hdown
    · rename_i hopen
      exact .sleeps hpc (Bool.eq_false_iff.mpr hopen)
  · rename_i hpc
    split at h
    · rename_i hlock
      cases h
      exact .counts hpc hlock
    · exact absurd h (by simp)
  · rename_i q l hpc
    cases h
    exact .reads q l hpc
  · rename_i q l b hpc
    split at h
    · rename_i hmany
      split at h
      · rename_i hlock
        cases h
        exact .grows q l b hpc hlock hmany.1
      · exact absurd h (by simp)
    · cases h
      exact .stays q l b hpc
  · rename_i l b hpc
    split at h
    · rename_i hmin
      split at h
      · rename_i hlock
        cases h
        exact .shrinks l b hpc hlock hmin.2
      · exact absurd h (by simp)
    · cases h
      exact .keeps l b hpc
  · rename_i hpc
    cases h
    exact .done hpc
  · exact absurd h (by simp)

theorem adminSignal_cases {s s' : System F A} {pick : Option Nat}
    (h : adminSignal s pick = some s') : AdminStep s s' := by
  rw [adminSignal] at h
  split at h
  · rename_i left hpc
    obtain ⟨t, ht, rfl⟩ := Option.map_eq_some_iff.mp h
    obtain ⟨ws, hs, rfl⟩ := signalNotEmpty_cases ht
    exact .signals left ws hpc hs
  · exact absurd h (by simp)

/-- **The rule of a grow round**: what every thread created into a free slot keeps, as long
as there is room for one more, the round keeps. -/
theorem growLoop_invariant (P : System F A → Prop) {n : Nat}
    (hstep : ∀ s i, P s → i < n → s.pool.liveThrNum < s.pool.maxThrNum → slotFree s i = true →
      P (createThread s i)) (left i add : Nat) (hn : i + left ≤ n) {s : System F A} (hs : P s) :
    P (growLoop left i add s) := by
  induction left generalizing i add s with
  -- on the slots left; every new thread goes into a free one
  | zero => exact hs
  | succ left ih =>
      rw [growLoop]
      split
      · rename_i hroom
        split
        · rename_i hfree
          exact ih (i + 1) (add + 1) (by omega) (hstep s i hs (by omega) hroom.2 hfree)
        · exact ih (i + 1) add (by omega) hs
      · exact hs

/-! ## `threadpool_destroy` -/

/-- A step of `threadpool_destroy`. -/
inductive DestroyStep (s : System F A) : System F A → Prop where
  | closes (hpc : s.destroy = .idle) :
      DestroyStep s { s with pool := { s.pool with shutdown := true }, destroy := .joinAdmin }
  | joinsAdmin (hpc : s.destroy = .joinAdmin) (hended : s.admin = .ended) :
      DestroyStep s { s with destroy := .testBroadcast 0 }
  | broadcastNext (i : Nat) (hpc : s.destroy = .testBroadcast i)
      (hlt : (i : Int) < s.pool.liveThrNum) : DestroyStep s { s with destroy := .broadcast i }
  | broadcastEnd (i : Nat) (hpc : s.destroy = .testBroadcast i)
      (hge : s.pool.liveThrNum ≤ i) : DestroyStep s { s with destroy := .testJoin 0 }
  | broadcasts (i : Nat) (hpc : s.destroy = .broadcast i) :
      DestroyStep s { s with
        workers := s.workers.map Worker.wake, destroy := .testBroadcast (i + 1) }
  | joinNext (i : Nat) (hpc : s.destroy = .testJoin i) (hlt : (i : Int) < s.pool.liveThrNum) :
      DestroyStep s { s with destroy := .join i }
  | joinEnd (i : Nat) (hpc : s.destroy = .testJoin i) (hge : s.pool.liveThrNum ≤ i) :
      DestroyStep s { s with destroy := .free }
  | joins (i : Nat) (hpc : s.destroy = .join i)
      (hgone : ∀ tid, s.pool.threads i = some tid → isThreadAlive s tid = false) :
      DestroyStep s { s with destroy := .testJoin (i + 1) }
  | frees (hpc : s.destroy = .free) : DestroyStep s { s with destroy := .freed }

theorem threadpoolDestroy_cases {s s' : System F A} (h : threadpoolDestroy s = some s') :
    DestroyStep s s' := by
  rw [threadpoolDestroy] at h
  split at h
  · rename_i hpc
    cases h
    exact .closes hpc
  · rename_i hpc
    split at h
    · rename_i hended
      cases h
      exact .joinsAdmin hpc hended
    · exact absurd h (by simp)
  · rename_i i hpc
    cases h
    split
    · rename_i hlt
      exact .broadcastNext i hpc hlt
    · rename_i hge
      exact .broadcastEnd i hpc (not_lt.mp hge)
  · rename_i i hpc
    cases h
    exact .broadcasts i hpc
  · rename_i i hpc
    cases h
    split
    · rename_i hlt
      exact .joinNext i hpc hlt
    · rename_i hge
      exact .joinEnd i hpc (not_lt.mp hge)
  · rename_i i hpc
    split at h
    · rename_i tid htid
      split at h
      · exact absurd h (by simp)
      · rename_i hgone
        cases h
        refine .joins i hpc fun tid' htid' => ?_
        obtain rfl : tid = tid' := Option.some.inj (htid.symm.trans htid')
        exact Bool.eq_false_iff.mpr hgone
    · rename_i hnone
      cases h
      exact .joins i hpc fun tid htid => absurd htid (by rw [hnone]; simp)
  · rename_i hpc
    cases h
    exact .frees hpc
  · exact absurd h (by simp)

/-! ## The machine -/

/-- A step of the pool and its threads. -/
inductive Step (s : System F A) : Act F A → System F A → Prop where
  | worker (i : Nat) (s' : System F A) (h : WorkerStep s i s') : Step s (.worker i) s'
  | wakeWorker (i : Nat) (hpc : s.workers[i]? = some .waiting) :
      Step s (.wakeWorker i) { s with workers := s.workers.set i .woken }
  | call (function : F) (arg : Option A) :
      Step s (.call function arg) { s with calls := s.calls ++ [⟨⟨function, arg⟩, .enter⟩] }
  | caller (j : Nat) (s' : System F A) (h : CallerStep s j s') : Step s (.caller j) s'
  | callerSignal (j : Nat) (pick : Option Nat) (task : ThreadpoolTask F A)
      (ws : List (Worker F A)) (hpc : s.calls[j]? = some ⟨task, .signal⟩) (hs : Signals s ws) :
      Step s (.callerSignal j pick)
        { s with workers := ws, calls := s.calls.set j ⟨task, .returned 0⟩ }
  | wakeCaller (j : Nat) (task : ThreadpoolTask F A) (hpc : s.calls[j]? = some ⟨task, .waiting⟩) :
      Step s (.wakeCaller j) { s with calls := s.calls.set j ⟨task, .woken⟩ }
  | admin (s' : System F A) (h : AdminStep s s') : Step s .admin s'
  | adminSignal (pick : Option Nat) (s' : System F A) (h : AdminStep s s') :
      Step s (.adminSignal pick) s'
  | destroy (s' : System F A) (h : DestroyStep s s') : Step s .destroy s'

/-- **Inversion of the step function.** -/
theorem System.step_cases {s s' : System F A} {a : Act F A} (h : s.step a = some s') :
    Step s a s' := by
  cases a with
  | worker i => exact .worker i s' (threadpoolThread_cases h)
  | wakeWorker i =>
      obtain ⟨hpc, rfl⟩ := wakeWorker_cases h
      exact .wakeWorker i hpc
  | call function arg =>
      cases h
      exact .call function arg
  | caller j => exact .caller j s' (threadpoolAddTask_cases h)
  | callerSignal j pick =>
      rw [System.step, SpeechStack.callerSignal] at h
      split at h
      · rename_i task hpc
        obtain ⟨t, ht, rfl⟩ := Option.map_eq_some_iff.mp h
        obtain ⟨ws, hs, rfl⟩ := signalNotEmpty_cases ht
        exact .callerSignal j pick task ws hpc hs
      · exact absurd h (by simp)
  | wakeCaller j =>
      obtain ⟨task, hpc, rfl⟩ := wakeCaller_cases h
      exact .wakeCaller j task hpc
  | admin => exact .admin s' (adminThread_cases h)
  | adminSignal pick => exact .adminSignal pick s' (adminSignal_cases h)
  | destroy => exact .destroy s' (threadpoolDestroy_cases h)

end SpeechStack
