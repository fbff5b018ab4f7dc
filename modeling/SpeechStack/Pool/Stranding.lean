import SpeechStack.Pool.Wakeup

set_option autoImplicit false

/-! # Which pools strand tasks

A worker leaves as surplus only in a pool that has grown: `live_thr_num` is above
`min_thr_num`. A pool whose two bounds are equal does not grow, nor does one whose queue is
shorter than the `MIN_WAIT_TASK_NUM` tasks that a grow round asks for (`Ungrown`), and neither
strands a task. Every other pool does (`threadpool_neverStrands_iff`): ten tasks make it grow,
a shrink round on a pool that nobody sleeps in leaves `wait_exit_thr_num` behind, and when all
workers sleep the signal for the next task goes to one that leaves.
-/

namespace SpeechStack

variable {F A : Type}

/-! ## Pools that do not grow -/

/-- The pool has no surplus worker, and no snapshot that would make it grow. -/
structure Ungrown (s : System F A) : Prop where
  live : s.pool.liveThrNum ≤ s.pool.minThrNum
  counted : ∀ q l, s.admin = .counted q l → q < MIN_WAIT_TASK_NUM
  deciding : ∀ q l b, s.admin = .deciding q l b → q < MIN_WAIT_TASK_NUM

section Ungrown

variable {s s' : System F A} {a : Act F A}

/-- Steps of other threads than the admin thread that add no worker. -/
theorem Ungrown.of_le (h : Ungrown s) (hlive : s'.pool.liveThrNum ≤ s.pool.liveThrNum)
    (hmin : s'.pool.minThrNum = s.pool.minThrNum) (hadmin : s'.admin = s.admin) : Ungrown s' where
  live := (hlive.trans h.live).trans_eq hmin.symm
  counted q l hpc := h.counted q l (hadmin ▸ hpc)
  deciding q l b hpc := h.deciding q l b (hadmin ▸ hpc)

theorem Ungrown.worker {i : Nat} (h : Ungrown s) (hstep : WorkerStep s i s') : Ungrown s' := by
  cases hstep with
  | surplus =>
      refine h.of_le ?_ rfl rfl
      show s.pool.liveThrNum - 1 ≤ s.pool.liveThrNum
      omega
  | _ => exact h.of_le le_rfl rfl rfl

theorem Ungrown.caller {j : Nat} (h : Ungrown s) (hstep : CallerStep s j s') : Ungrown s' := by
  cases hstep <;> exact h.of_le le_rfl rfl rfl

theorem Ungrown.admin (h : Ungrown s) (hsize : s.pool.queueSize < MIN_WAIT_TASK_NUM)
    (hstep : AdminStep s s') : Ungrown s' := by
  cases hstep with
  | counts =>
      refine ⟨h.live, fun q l hpc => ?_, fun q l b hpc => ?_⟩
      · cases hpc
        exact hsize
      · cases hpc
  | reads q l hpc =>
      refine ⟨h.live, fun q' l' hpc' => ?_, fun q' l' b' hpc' => ?_⟩
      · cases hpc'
      · cases hpc'
        exact h.counted q l hpc
  -- the snapshot rules a grow round out
  | grows q l b hpc _ hmany => exact absurd (h.deciding q l b hpc) (by omega)
  | _ => exact ⟨h.live, fun q l hpc => (by cases hpc), fun q l b hpc => (by cases hpc)⟩

theorem Ungrown.step (h : Ungrown s) (hsize : s.pool.queueSize < MIN_WAIT_TASK_NUM)
    (hstep : Step s a s') : Ungrown s' := by
  cases hstep with
  | worker i _ hw => exact h.worker hw
  | caller j _ hc => exact h.caller hc
  | admin _ ha => exact h.admin hsize ha
  | adminSignal pick _ ha => exact h.admin hsize ha
  | destroy _ hd => cases hd <;> exact h.of_le le_rfl rfl rfl
  | _ => exact h.of_le le_rfl rfl rfl

/-- Without a surplus worker no step can strand tasks. -/
theorem spares_of_live_le (hlive : s.pool.liveThrNum ≤ s.pool.minThrNum) (a : Act F A) :
    Spares s a := by
  cases a with
  | worker i => exact fun _ _ _ _ hmin => absurd hmin (not_lt.mpr hlive)
  | _ => trivial

end Ungrown

/-! ## A run that strands a task

The run goes from rest to rest: between its stages the admin thread is at the head of its loop
and all calls have returned. -/

/-- The pool at rest, with `size` tasks queued, `live` workers at `ws` and `exits` in
`wait_exit_thr_num`. -/
structure Calm (minThrNum maxThrNum cap size live exits : Int) (ws : List (Worker F A))
    (s : System F A) : Prop where
  lock : s.lock = none
  opened : s.pool.shutdown = false
  admin : s.admin = .top
  calls : ∀ c ∈ s.calls, c.pc = .returned 0
  min_eq : s.pool.minThrNum = minThrNum
  max_eq : s.pool.maxThrNum = maxThrNum
  capacity : s.pool.queueMaxSize = cap
  size_eq : s.pool.queueSize = size
  live_eq : s.pool.liveThrNum = live
  busy : s.pool.busyThrNum = 0
  exits_eq : s.pool.waitExitThrNum = exits
  workers : s.workers = ws
  /-- before the pool has grown, the slots from `min_thr_num` on are free -/
  slots : live = minThrNum → ∀ i : Nat, minThrNum ≤ i → s.pool.threads i = none

section Calm

variable {minThrNum maxThrNum cap size live exits : Int} {ws ws' : List (Worker F A)}
  {s : System F A}

/-- A call of `threadpool_add_task` from its start to its return: `pick` is whom its signal
wakes. -/
theorem Calm.adds (h : Calm minThrNum maxThrNum cap size live exits ws s) (hroom : size < cap)
    (f : F) {pick : Option Nat} (hsignal : ∀ t : System F A, t.workers = ws →
      signalNotEmpty t pick = some { t with workers := ws' }) :
    ∃ s', Machine.Reaches System.step s s' ∧
      Calm minThrNum maxThrNum cap (size + 1) live exits ws' s' := by
  have hsize := h.size_eq
  have hcap := h.capacity
  obtain ⟨j, hj⟩ : ∃ j, j = s.calls.length := ⟨_, rfl⟩
  -- the three steps: the call, its enqueue section, its signal
  let s₁ : System F A := { s with calls := s.calls ++ [⟨⟨f, none⟩, .enter⟩] }
  let s₂ : System F A := { s₁ with
    pool := { s.pool with
      taskQueue := fun k =>
        if k = s.pool.queueRear then overwrite (s.pool.taskQueue k) ⟨f, none⟩
        else s.pool.taskQueue k
      queueRear := (s.pool.queueRear + 1) % s.pool.queueMaxSize
      queueSize := s.pool.queueSize + 1 }
    calls := s₁.calls.set j ⟨⟨f, none⟩, .signal⟩
    accepted := s.accepted ++ [(j, ⟨f, none⟩)] }
  let s₃ : System F A :=
    { s₂ with workers := ws', calls := s₂.calls.set j ⟨⟨f, none⟩, .returned 0⟩ }
  have hnew : s₁.calls[j]? = some ⟨⟨f, none⟩, .enter⟩ := by
    show (s.calls ++ [_])[j]? = _
    rw [hj, List.getElem?_concat_length]
  have hcall : s₂.calls[j]? = some ⟨⟨f, none⟩, .signal⟩ := getElem?_set_of_getElem? hnew
  have hstep₁ : s.step (.call f none) = some s₁ := rfl
  have hstep₂ : s₁.step (.caller j) = some s₂ := by
    show threadpoolAddTask s₁ j = some s₂
    rw [threadpoolAddTask, hnew]
    show (if s.lock = none then some (callerSection s₁ j ⟨f, none⟩) else none) = some s₂
    rw [if_pos h.lock, callerSection, if_neg (fun hfull => by
      have hfull₁ : s.pool.queueSize = s.pool.queueMaxSize := hfull.1
      omega), if_neg (by
      show ¬ s.pool.shutdown = true
      rw [h.opened]
      decide)]
  have hstep₃ : s₂.step (.callerSignal j pick) = some s₃ := by
    show callerSignal s₂ j pick = some s₃
    rw [callerSignal, hcall]
    show (signalNotEmpty s₂ pick).map _ = some s₃
    rw [hsignal s₂ h.workers]
    rfl
  have hcalls : s₃.calls = s.calls ++ [⟨⟨f, none⟩, .returned 0⟩] := by
    show ((s.calls ++ [_]).set j _).set j _ = _
    rw [List.set_set, hj, List.set_append_right _ _ le_rfl, Nat.sub_self]
    rfl
  refine ⟨s₃, (((Machine.Reaches.refl _ s).step hstep₁).step hstep₂).step hstep₃, ?_⟩
  refine ⟨h.lock, h.opened, h.admin, ?_, h.min_eq, h.max_eq, h.capacity, ?_, h.live_eq, h.busy,
    h.exits_eq, rfl, h.slots⟩
  · rw [hcalls]
    intro c hc
    rcases List.mem_append.mp hc with hold | hlast
    · exact h.calls c hold
    · rw [List.mem_singleton.mp hlast]
  · show s.pool.queueSize + 1 = size + 1
    rw [hsize]

/-- Worker 0 takes the first task of the queue, runs it and comes back. -/
theorem Calm.drains (h : Calm minThrNum maxThrNum cap size live exits ws s) (hpos : 0 < size)
    (hw : ws[0]? = some .start) : ∃ s', Machine.Reaches System.step s s' ∧
      Calm minThrNum maxThrNum cap (size - 1) live exits ws s' := by
  have hsize := h.size_eq
  have hopen := h.opened
  let task := s.pool.taskQueue s.pool.queueFront
  -- the three steps: the test of the queue, the start of the task, its end
  let s₁ : System F A := broadcastNotFull { s with
    pool := { s.pool with
      queueFront := (s.pool.queueFront + 1) % s.pool.queueMaxSize
      queueSize := s.pool.queueSize - 1 }
    workers := s.workers.set 0 (.took task)
    taken := s.taken ++ [task] }
  let s₂ : System F A := { s₁ with
    pool := { s₁.pool with busyThrNum := s₁.pool.busyThrNum + 1 }
    workers := s₁.workers.set 0 (.busy task) }
  let s₃ : System F A := { s₂ with
    pool := { s₂.pool with busyThrNum := s₂.pool.busyThrNum - 1 }
    workers := s₂.workers.set 0 .start }
  have hw₀ : s.workers[0]? = some .start := h.workers ▸ hw
  have hw₁ : s₁.workers[0]? = some (.took task) := getElem?_set_of_getElem? hw₀
  have hw₂ : s₂.workers[0]? = some (.busy task) := getElem?_set_of_getElem? hw₁
  have hstep₁ : s.step (.worker 0) = some s₁ := by
    show threadpoolThread s 0 = some s₁
    rw [threadpoolThread, hw₀]
    show (if s.lock = none then some (workerSection s 0) else none) = some s₁
    rw [if_pos h.lock, workerSection, if_neg (fun hempty => by
      have hzero := hempty.1
      omega), if_neg (by rw [hopen]; decide)]
  have hstep₂ : s₁.step (.worker 0) = some s₂ := by
    show threadpoolThread s₁ 0 = some s₂
    rw [threadpoolThread, hw₁]
  have hstep₃ : s₂.step (.worker 0) = some s₃ := by
    show threadpoolThread s₂ 0 = some s₃
    rw [threadpoolThread, hw₂]
  refine ⟨s₃, (((Machine.Reaches.refl _ s).step hstep₁).step hstep₂).step hstep₃, ?_⟩
  refine ⟨h.lock, h.opened, h.admin, ?_, h.min_eq, h.max_eq, h.capacity, ?_, h.live_eq, ?_,
    h.exits_eq, ?_, h.slots⟩
  · -- no call waits, so the broadcast moves none
    intro c hc
    obtain ⟨d, hd, rfl⟩ := List.mem_map.mp hc
    rw [Call.wake, h.calls d hd]
    exact h.calls d hd
  · show s.pool.queueSize - 1 = size - 1
    rw [hsize]
  · show s.pool.busyThrNum + 1 - 1 = 0
    rw [h.busy]
    rfl
  · show ((s.workers.set 0 _).set 0 _).set 0 .start = ws
    obtain ⟨hlt, hstart⟩ := List.getElem?_eq_some_iff.mp hw
    rw [List.set_set, List.set_set, h.workers, ← hstart, List.set_getElem_self]

/-- A worker that finds the queue empty goes to sleep. -/
theorem Calm.sleeps (h : Calm minThrNum maxThrNum cap 0 live exits ws s) {i : Nat}
    (hw : ws[i]? = some .start) : ∃ s', Machine.Reaches System.step s s' ∧
      Calm minThrNum maxThrNum cap 0 live exits (ws.set i .waiting) s' := by
  let s₁ : System F A := { s with lock := some (.worker i), workers := s.workers.set i .toWait }
  let s₂ : System F A := { s₁ with lock := none, workers := s₁.workers.set i .waiting }
  have hw₀ : s.workers[i]? = some .start := h.workers ▸ hw
  have hw₁ : s₁.workers[i]? = some .toWait := getElem?_set_of_getElem? hw₀
  have hstep₁ : s.step (.worker i) = some s₁ := by
    show threadpoolThread s i = some s₁
    rw [threadpoolThread, hw₀]
    show (if s.lock = none then some (workerSection s i) else none) = some s₁
    rw [if_pos h.lock, workerSection, if_pos ⟨h.size_eq, h.opened⟩]
  have hstep₂ : s₁.step (.worker i) = some s₂ := by
    show threadpoolThread s₁ i = some s₂
    rw [threadpoolThread, hw₁]
  refine ⟨s₂, ((Machine.Reaches.refl _ s).step hstep₁).step hstep₂, ?_⟩
  refine ⟨rfl, h.opened, h.admin, h.calls, h.min_eq, h.max_eq, h.capacity, h.size_eq, h.live_eq,
    h.busy, h.exits_eq, ?_, h.slots⟩
  show (s.workers.set i _).set i .waiting = ws.set i .waiting
  rw [List.set_set, h.workers]

/-- Signals that nobody waits for are lost. -/
theorem signals_lost (hnone : ∀ w ∈ s.workers, w.isWaiting = false) (left : Nat)
    (hadmin : s.admin = .notifying left) :
    Machine.Reaches System.step s { s with admin := .top } := by
  induction left generalizing s with
  | zero =>
      have hstep : s.step .admin = some { s with admin := .top } := by
        show adminThread s = _
        rw [adminThread, hadmin]
        rfl
      exact (Machine.Reaches.refl _ s).step hstep
  | succ left ih =>
      have hlost : signalNotEmpty s none = some s := by
        show (if s.workers.any Worker.isWaiting then none else some s) = some s
        rw [if_neg]
        intro hany
        obtain ⟨w, hw, hwaits⟩ := List.any_eq_true.mp hany
        rw [hnone w hw] at hwaits
        cases hwaits
      have hstep : s.step (.adminSignal none) = some { s with admin := .notifying left } := by
        show adminSignal s none = _
        rw [adminSignal, hadmin]
        show (signalNotEmpty s none).map _ = _
        rw [hlost]
        rfl
      exact ((Machine.Reaches.refl _ s).step hstep).trans (ih hnone rfl)

/-- The admin thread with its snapshots: no task runs. -/
theorem Calm.decides (h : Calm minThrNum maxThrNum cap size live exits ws s) :
    Machine.Reaches System.step s { s with admin := .deciding size live 0 } := by
  let s₁ : System F A := { s with admin := .sleeping }
  let s₂ : System F A := { s with admin := .counted size live }
  have hstep₁ : s.step .admin = some s₁ := by
    show adminThread s = some s₁
    rw [adminThread, h.admin]
    show some { s with admin := if s.pool.shutdown then Admin.ended else .sleeping } = some s₁
    rw [h.opened]
    rfl
  have hstep₂ : s₁.step .admin = some s₂ := by
    show (if s.lock = none then
      some { s with admin := .counted s.pool.queueSize s.pool.liveThrNum } else none) = some s₂
    rw [if_pos h.lock, h.size_eq, h.live_eq]
  have hstep₃ : s₂.step .admin = some { s with admin := .deciding size live 0 } := by
    show some { s with admin := .deciding size live s.pool.busyThrNum } = _
    rw [h.busy]
  exact (((Machine.Reaches.refl _ s).step hstep₁).step hstep₂).step hstep₃

/-- A shrink round while nobody sleeps: `wait_exit_thr_num` stays behind. -/
theorem Calm.shrinks (h : Calm minThrNum maxThrNum cap size live exits ws s)
    (hfew : size < MIN_WAIT_TASK_NUM) (hmin : minThrNum < live) (hlive : 0 < live)
    (hnone : ∀ w ∈ ws, w.isWaiting = false) : ∃ s', Machine.Reaches System.step s s' ∧
      Calm minThrNum maxThrNum cap size live DEFAULT_THREAD_NUM ws s' := by
  let s₁ : System F A := { s with admin := .deciding size live 0 }
  let s₂ : System F A := { s with admin := .shrinking live 0 }
  let s₃ : System F A := { s with
    pool := { s.pool with waitExitThrNum := DEFAULT_THREAD_NUM }
    admin := .notifying DEFAULT_THREAD_NUM }
  have hstep₁ : s₁.step .admin = some s₂ := by
    show (if size ≥ MIN_WAIT_TASK_NUM ∧ live ≤ s.pool.maxThrNum then
      (if s.lock = none then some _ else none) else some s₂) = some s₂
    rw [if_neg (fun hmany => absurd hfew (not_lt.mpr hmany.1))]
  have hstep₂ : s₂.step .admin = some s₃ := by
    show (if (0 : Int) * 2 < live ∧ live > s.pool.minThrNum then
      (if s.lock = none then some s₃ else none) else some _) = some s₃
    rw [if_pos ⟨by omega, by rw [h.min_eq]; omega⟩, if_pos h.lock]
  refine ⟨{ s₃ with admin := .top }, ((h.decides.step hstep₁).step hstep₂).trans
    (signals_lost (fun w hw => hnone w (h.workers ▸ hw)) _ rfl), ?_⟩
  exact ⟨h.lock, h.opened, rfl, h.calls, h.min_eq, h.max_eq, h.capacity, h.size_eq, h.live_eq,
    h.busy, rfl, h.workers, h.slots⟩

/-! ### The grow round -/

theorem growLoop_live_le (left i add : Nat) (s : System F A) :
    s.pool.liveThrNum ≤ (growLoop left i add s).pool.liveThrNum := by
  refine growLoop_invariant (fun t => s.pool.liveThrNum ≤ t.pool.liveThrNum) ?_ left i add
    (le_refl (i + left)) le_rfl
  intro t k ht _ _ _
  show s.pool.liveThrNum ≤ t.pool.liveThrNum + 1
  omega

/-- A grow round that comes to a free slot with room for a worker adds one. -/
theorem growLoop_live_lt {left i add j : Nat} (hij : i ≤ j) (hj : j < i + left)
    (hfree : slotFree s j = true) (hadd : add < DEFAULT_THREAD_NUM)
    (hroom : s.pool.liveThrNum < s.pool.maxThrNum) :
    s.pool.liveThrNum < (growLoop left i add s).pool.liveThrNum := by
  induction left generalizing i with
  | zero => omega
  | succ left ih =>
      rw [growLoop, if_pos ⟨hadd, hroom⟩]
      split
      · calc s.pool.liveThrNum < (createThread s i).pool.liveThrNum := Int.lt_succ _
          _ ≤ _ := growLoop_live_le left (i + 1) (add + 1) (createThread s i)
      · rename_i htaken
        have hne : i ≠ j := by
          rintro rfl
          exact htaken hfree
        exact ih (by omega) (by omega)

/-- Ten tasks make the admin thread add workers. -/
theorem Calm.grows (h : Calm minThrNum maxThrNum cap size minThrNum exits ws s)
    (hmany : MIN_WAIT_TASK_NUM ≤ size) (hmin : 0 ≤ minThrNum) (hmax : minThrNum < maxThrNum)
    (hstart : ∀ w ∈ ws, w = .start) : ∃ live' ws' s', minThrNum < live' ∧
      (∀ w ∈ ws', w = .start) ∧ ws.length ≤ ws'.length ∧ Machine.Reaches System.step s s' ∧
      Calm minThrNum maxThrNum cap size live' exits ws' s' := by
  let s₁ : System F A := { s with admin := .deciding size minThrNum 0 }
  let g : System F A := growLoop s.pool.maxThrNum.toNat 0 0 s₁
  -- a grow round touches the slots, the workers and their number only
  have hgrow : { g with
      pool := { g.pool with threads := s₁.pool.threads, liveThrNum := s₁.pool.liveThrNum }
      workers := s₁.workers } = s₁ ∧ (∀ w ∈ g.workers, w = .start) ∧
      s₁.workers.length ≤ g.workers.length := by
    refine growLoop_invariant (fun t => { t with
      pool := { t.pool with threads := s₁.pool.threads, liveThrNum := s₁.pool.liveThrNum }
      workers := s₁.workers } = s₁ ∧ (∀ w ∈ t.workers, w = .start) ∧
      s₁.workers.length ≤ t.workers.length) ?_ _ 0 0
      (le_refl (0 + s.pool.maxThrNum.toNat)) ⟨rfl, fun w hw => hstart w (h.workers ▸ hw), le_rfl⟩
    rintro t k ⟨hsame, hall, hlen⟩ _ _ _
    refine ⟨hsame, fun w hw => ?_, ?_⟩
    · rcases List.mem_append.mp hw with hold | hnew
      · exact hall w hold
      · exact List.mem_singleton.mp hnew
    · show _ ≤ (t.workers ++ [Worker.start]).length
      rw [List.length_append]
      omega
  obtain ⟨hsame, hall, hlen⟩ := hgrow
  have hpool := congrArg System.pool hsame
  -- the first slot behind the workers is free
  have hfree : slotFree s₁ minThrNum.toNat = true := by
    have hempty : s₁.pool.threads minThrNum.toNat = none := h.slots rfl minThrNum.toNat (by omega)
    rw [slotFree, hempty]
  have hmaxThr := h.max_eq
  have hlive : minThrNum < g.pool.liveThrNum := by
    have hlt : s₁.pool.liveThrNum < g.pool.liveThrNum := growLoop_live_lt
      (Nat.zero_le minThrNum.toNat) (by omega) hfree (by decide)
      (show s.pool.liveThrNum < s.pool.maxThrNum by rw [h.live_eq, h.max_eq]; exact hmax)
    calc minThrNum = s.pool.liveThrNum := h.live_eq.symm
      _ < _ := hlt
  let s₂ : System F A := { g with admin := .shrinking minThrNum 0 }
  have hstep₁ : s₁.step .admin = some s₂ := by
    show (if size ≥ MIN_WAIT_TASK_NUM ∧ minThrNum ≤ s.pool.maxThrNum then
      (if s.lock = none then some s₂ else none) else some _) = some s₂
    rw [if_pos ⟨hmany, by rw [h.max_eq]; omega⟩, if_pos h.lock]
  have hgmin : g.pool.minThrNum = minThrNum :=
    (congrArg Threadpool.minThrNum hpool).trans h.min_eq
  -- by the old snapshot there is nobody to send away
  have hstep₂ : s₂.step .admin = some { g with admin := .top } := by
    show (if (0 : Int) * 2 < minThrNum ∧ minThrNum > g.pool.minThrNum then
      (if g.lock = none then some _ else none) else some { g with admin := .top }) = _
    rw [if_neg (fun hsurplus => by
      have hlt := hsurplus.2
      omega)]
  refine ⟨g.pool.liveThrNum, g.workers, { g with admin := .top }, hlive, hall,
    h.workers ▸ hlen, (h.decides.step hstep₁).step hstep₂, ?_⟩
  refine ⟨(congrArg System.lock hsame).trans h.lock,
    (congrArg Threadpool.shutdown hpool).trans h.opened, rfl, ?_, hgmin,
    (congrArg Threadpool.maxThrNum hpool).trans h.max_eq,
    (congrArg Threadpool.queueMaxSize hpool).trans h.capacity,
    (congrArg Threadpool.queueSize hpool).trans h.size_eq, rfl,
    (congrArg Threadpool.busyThrNum hpool).trans h.busy,
    (congrArg Threadpool.waitExitThrNum hpool).trans h.exits_eq, rfl, fun heq => ?_⟩
  · have hcalls : s₁.calls = g.calls := (congrArg System.calls hsame).symm
    exact fun c hc => h.calls c (hcalls ▸ hc)
  · exact absurd heq (ne_of_gt hlive)

/-! ### The run -/

/-- Nobody waits, so the signals of `n` calls are lost. -/
theorem Calm.addsMany (h : Calm minThrNum maxThrNum cap size live exits ws s) (f : F)
    (hnone : ∀ w ∈ ws, w.isWaiting = false) (n : Nat) (hroom : size + n ≤ cap) :
    ∃ s', Machine.Reaches System.step s s' ∧
      Calm minThrNum maxThrNum cap (size + n) live exits ws s' := by
  induction n generalizing size s with
  | zero => exact ⟨s, Machine.Reaches.refl _ s, (add_zero size).symm ▸ h⟩
  | succ n ih =>
      have hlost : ∀ t : System F A, t.workers = ws →
          signalNotEmpty t none = some { t with workers := ws } := by
        rintro t rfl
        show (if t.workers.any Worker.isWaiting then none else some t) = some t
        rw [if_neg]
        intro hany
        obtain ⟨w, hw, hwaits⟩ := List.any_eq_true.mp hany
        rw [hnone w hw] at hwaits
        cases hwaits
      obtain ⟨s₁, h₁, hcalm₁⟩ := h.adds (by omega) f hlost
      obtain ⟨s₂, h₂, hcalm₂⟩ := ih hcalm₁ (by omega)
      refine ⟨s₂, h₁.trans h₂, ?_⟩
      rw [show size + (n + 1 : Nat) = size + 1 + n by omega]
      exact hcalm₂

/-- Worker 0 empties the queue. -/
theorem Calm.drainsAll (h : Calm minThrNum maxThrNum cap size live exits ws s)
    (hw : ws[0]? = some .start) (n : Nat) (hn : size = n) :
    ∃ s', Machine.Reaches System.step s s' ∧
      Calm minThrNum maxThrNum cap 0 live exits ws s' := by
  induction n generalizing size s with
  | zero =>
      subst hn
      exact ⟨s, Machine.Reaches.refl _ s, h⟩
  | succ n ih =>
      obtain ⟨s₁, h₁, hcalm₁⟩ := h.drains (by omega) hw
      obtain ⟨s₂, h₂, hcalm₂⟩ := ih hcalm₁ (by omega)
      exact ⟨s₂, h₁.trans h₂, hcalm₂⟩

/-- One worker after the other goes to sleep. -/
theorem Calm.sleepsAll (n m : Nat) (h : Calm minThrNum maxThrNum cap 0 live exits
      (List.replicate m .waiting ++ List.replicate n .start) s) :
    ∃ s', Machine.Reaches System.step s s' ∧
      Calm minThrNum maxThrNum cap 0 live exits (List.replicate (m + n) .waiting) s' := by
  induction n generalizing m s with
  | zero =>
      rw [List.replicate_zero, List.append_nil] at h
      exact ⟨s, Machine.Reaches.refl _ s, h⟩
  | succ n ih =>
      have hlen : (List.replicate m (Worker.waiting : Worker F A)).length = m :=
        List.length_replicate
      have hw : (List.replicate m (Worker.waiting : Worker F A) ++
          List.replicate (n + 1) .start)[m]? = some .start := by
        rw [List.getElem?_append_right hlen.le, hlen, Nat.sub_self, List.replicate_succ]
        rfl
      obtain ⟨s₁, h₁, hcalm₁⟩ := h.sleeps hw
      rw [List.set_append_right _ _ hlen.le, hlen, Nat.sub_self, List.replicate_succ,
        List.set_cons_zero, ← List.singleton_append, ← List.append_assoc,
        ← List.replicate_succ'] at hcalm₁
      obtain ⟨s₂, h₂, hcalm₂⟩ := ih (m + 1) hcalm₁
      rw [show m + (n + 1) = m + 1 + n by omega]
      exact ⟨s₂, h₁.trans h₂, hcalm₂⟩

/-- With a task for sleeping workers and a `wait_exit_thr_num` left behind, the worker that the
signal wakes leaves. -/
theorem Calm.strands {n : Nat} (h : Calm minThrNum maxThrNum cap 0 live exits
      (List.replicate (n + 1) .waiting) s) (hroom : 0 < cap) (hmin : minThrNum < live)
    (hexits : 0 < exits) (f : F) :
    ∃ s', Machine.Reaches System.step s s' ∧ s'.Stranded := by
  have hwakes : ∀ t : System F A, t.workers = List.replicate (n + 1) .waiting →
      signalNotEmpty t (some 0) = some { t with
        workers := .woken :: List.replicate n .waiting } := by
    intro t ht
    show wakeWorker t 0 = _
    rw [wakeWorker, ht, List.replicate_succ]
    rfl
  obtain ⟨s₁, h₁, hcalm⟩ := h.adds hroom f hwakes
  let s₂ : System F A := { s₁ with
    pool := { s₁.pool with
      waitExitThrNum := s₁.pool.waitExitThrNum - 1
      liveThrNum := s₁.pool.liveThrNum - 1 }
    workers := s₁.workers.set 0 (.leaving true) }
  have hexits₁ := hcalm.exits_eq
  have hlive₁ := hcalm.live_eq
  have hmin₁ := hcalm.min_eq
  have hstep : s₁.step (.worker 0) = some s₂ := by
    show threadpoolThread s₁ 0 = some s₂
    rw [threadpoolThread, show s₁.workers[0]? = some .woken by rw [hcalm.workers]; rfl]
    show (if s₁.lock ≠ none then none else if s₁.pool.waitExitThrNum > 0 then
      (if s₁.pool.liveThrNum > s₁.pool.minThrNum then some s₂ else some _) else some _) = some s₂
    rw [if_neg (not_not_intro hcalm.lock), if_pos (by omega), if_pos (by omega)]
  refine ⟨s₂, h₁.step hstep, hcalm.opened, ?_, ?_, ?_⟩
  · show 0 < s₁.pool.queueSize
    rw [hcalm.size_eq]
    decide
  · show ∀ w ∈ s₁.workers.set 0 _, w.isAwake = false
    rw [hcalm.workers, List.set_cons_zero]
    intro w hw
    rcases List.mem_cons.mp hw with rfl | hrest
    · rfl
    · rw [List.eq_of_mem_replicate hrest]
      rfl
  · rintro (⟨c, hc, hsignal⟩ | ⟨left, hleft⟩)
    · rw [hcalm.calls c hc] at hsignal
      cases hsignal
    · rw [show s₂.admin = .top from hcalm.admin] at hleft
      cases hleft

end Calm

/-- A pool that can grow, and whose queue takes the tasks that make it grow, strands a task. -/
theorem exists_stranded {minThrNum maxThrNum queueMaxSize : Int}
    (heap : Int → ThreadpoolTask F A) (hmin : 1 ≤ minThrNum) (hmax : minThrNum < maxThrNum)
    (hmany : MIN_WAIT_TASK_NUM ≤ queueMaxSize) :
    ∃ s, Machine.Reaches System.step
      (threadpoolCreate minThrNum maxThrNum queueMaxSize heap) s ∧ s.Stranded := by
  have hten : MIN_WAIT_TASK_NUM = 10 := rfl
  have hfresh : Calm minThrNum maxThrNum queueMaxSize 0 minThrNum 0
      (List.replicate minThrNum.toNat .start)
      (threadpoolCreate minThrNum maxThrNum queueMaxSize heap) :=
    ⟨rfl, rfl, rfl, fun c hc => absurd hc List.not_mem_nil, rfl, rfl, rfl, rfl, rfl, rfl, rfl, rfl,
      fun _ i hi => if_neg (not_lt.mpr hi)⟩
  have hawake : ∀ {ws : List (Worker F A)}, (∀ w ∈ ws, w = .start) →
      ∀ w ∈ ws, w.isWaiting = false := fun hall w hw => by rw [hall w hw]; rfl
  have hstart : ∀ w ∈ List.replicate minThrNum.toNat (Worker.start : Worker F A), w = .start :=
    fun w hw => List.eq_of_mem_replicate hw
  -- ten calls, a grow round, ten tasks, a shrink round, and all go to sleep
  obtain ⟨s₁, h₁, hcalm₁⟩ := hfresh.addsMany (heap 0).function (hawake hstart) 10 (by omega)
  obtain ⟨live, ws, s₂, hlive, hall, hlen, h₂, hcalm₂⟩ :=
    hcalm₁.grows (by omega) (by omega) hmax hstart
  rw [List.length_replicate] at hlen
  obtain ⟨n, hn⟩ : ∃ n, ws.length = n + 1 := ⟨ws.length - 1, by omega⟩
  obtain rfl : ws = List.replicate (n + 1) .start := List.eq_replicate_iff.mpr ⟨hn, hall⟩
  obtain ⟨s₃, h₃, hcalm₃⟩ := hcalm₂.drainsAll rfl 10 rfl
  obtain ⟨s₄, h₄, hcalm₄⟩ := hcalm₃.shrinks (by decide) hlive (by omega : 0 < live) (hawake hall)
  obtain ⟨s₅, h₅, hcalm₅⟩ := Calm.sleepsAll (n + 1) 0 hcalm₄
  rw [Nat.zero_add] at hcalm₅
  obtain ⟨s₆, h₆, hstranded⟩ :=
    hcalm₅.strands (by omega : 0 < queueMaxSize) hlive (by decide) (heap 0).function
  exact ⟨s₆, ((((h₁.trans h₂).trans h₃).trans h₄).trans h₅).trans h₆, hstranded⟩

/-! ## The pools -/

/-- **Stranded tasks.** A pool with at least one worker and room for a task never strands a task,
over all interleavings, if and only if it cannot grow: its two bounds are equal, or its queue is
shorter than the tasks that a grow round asks for. -/
theorem threadpool_neverStrands_iff (minThrNum maxThrNum queueMaxSize : Int)
    (heap : Int → ThreadpoolTask F A) (hmin : 1 ≤ minThrNum) (hmax : minThrNum ≤ maxThrNum)
    (hcap : 1 ≤ queueMaxSize) :
    (∀ s, Machine.Reaches System.step
        (threadpoolCreate minThrNum maxThrNum queueMaxSize heap) s → ¬ s.Stranded) ↔
      minThrNum = maxThrNum ∨ queueMaxSize < MIN_WAIT_TASK_NUM := by
  constructor
  · intro hnever
    by_contra hgrows
    rw [not_or] at hgrows
    obtain ⟨s, hs, hstranded⟩ :=
      exists_stranded heap hmin (lt_of_le_of_ne hmax hgrows.1) (not_lt.mp hgrows.2)
    exact hnever s hs hstranded
  · rintro hpool s ⟨as, hrun⟩
    have hcounted := threadpoolCreate_counted queueMaxSize heap (by omega : 0 ≤ minThrNum) hmax
    have hspares : Machine.Meets System.step Spares
        (threadpoolCreate minThrNum maxThrNum queueMaxSize heap) as := by
      rcases hpool with heq | hshort
      · -- the counter stays between two equal bounds
        refine Machine.meets_of_invariant (Counted minThrNum maxThrNum)
          (fun s a s' h hstep => h.step (System.step_cases hstep)) (fun s a h => ?_) hcounted as
        exact spares_of_live_le (by rw [h.min_eq, heq]; exact h.le_max) a
      · -- the queue never holds enough for a grow round
        refine Machine.meets_of_invariant
          (fun s => (∃ rest, Fifo queueMaxSize s rest) ∧ Ungrown s) (fun s a s' h hstep => ?_)
          (fun s a h => spares_of_live_le h.2.live a) ?_ as
        · obtain ⟨⟨rest, hfifo⟩, hungrown⟩ := h
          have hsize := hfifo.size
          have hle := hfifo.ring.length_le
          exact ⟨hfifo.step (System.step_cases hstep),
            hungrown.step (by omega) (System.step_cases hstep)⟩
        · exact ⟨⟨[], threadpoolCreate_fifo minThrNum maxThrNum heap hcap⟩, le_rfl,
            fun q l hpc => (by cases hpc), fun q l b hpc => (by cases hpc)⟩
    exact (threadpool_stranded_iff minThrNum maxThrNum queueMaxSize heap hmin hmax as s hrun).mpr
      hspares as [] s (List.append_nil as).symm hrun

theorem threadpool_neverStrands_iff_sixteen :
    (∀ s, Machine.Reaches System.step
        (threadpoolCreate 1 1 16 fun _ => (⟨(), none⟩ : ThreadpoolTask Unit Unit)) s →
      ¬ s.Stranded) ↔ (1 : Int) = 1 ∨ (16 : Int) < MIN_WAIT_TASK_NUM :=
  threadpool_neverStrands_iff 1 1 16 _ (by decide) (by decide) (by decide)

end SpeechStack
