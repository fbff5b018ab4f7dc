import SpeechStack.Pool.Lock
import SpeechStack.Pool.Queue
import SpeechStack.Pool.Workers

set_option autoImplicit false

/-! # Stranded tasks

A task is stranded when every worker sleeps and no signal is on its way. The signal that
`threadpool_add_task` sends for a task wakes a worker, but a worker that comes back from the
wait looks at `wait_exit_thr_num` before it looks at the queue, and may leave with the signal
(`threadpool_strands_task`). Nothing else strands a task: a run in which no worker leaves in
this way reaches no such state, and one in which one does, does (`threadpool_stranded_iff`).
Which pools have such runs is in `Pool/Stranding.lean`.
-/

namespace SpeechStack

variable {F A : Type}

/-- The worker neither has left nor waits. -/
def Worker.isAwake (w : Worker F A) : Bool := !w.hasLeft && !w.isWaiting

/-- A signal on `queue_not_empty` is still to be sent. -/
def System.Signalling (s : System F A) : Prop :=
  (∃ c ∈ s.calls, c.pc = .signal) ∨ ∃ left, s.admin = .notifying (left + 1)

/-- Tasks are queued, but every worker that has not left waits, and no signal is due. -/
structure System.Stranded (s : System F A) : Prop where
  opened : s.pool.shutdown = false
  queued : 0 < s.pool.queueSize
  asleep : ∀ w ∈ s.workers, w.isAwake = false
  silent : ¬ s.Signalling

/-- The opposite: somebody will look at the queue. -/
def Attended (s : System F A) : Prop :=
  s.pool.shutdown = false → 0 < s.pool.queueSize →
    (∃ w ∈ s.workers, w.isAwake = true) ∨ s.Signalling

theorem attended_iff {s : System F A} : Attended s ↔ ¬ s.Stranded := by
  constructor
  · intro h hs
    rcases h hs.opened hs.queued with ⟨w, hw, hawake⟩ | hsig
    · rw [hs.asleep w hw] at hawake
      cases hawake
    · exact hs.silent hsig
  · intro h hopen hqueued
    by_contra hno
    rw [not_or] at hno
    refine h ⟨hopen, hqueued, fun w hw => ?_, hno.2⟩
    by_contra hawake
    exact hno.1 ⟨w, hw, by simpa using hawake⟩

/-- In this step no worker leaves as surplus with a task queued, unless another one is awake
or a signal is due. -/
def Spares (s : System F A) : Act F A → Prop
  | .worker i =>
      s.pool.shutdown = false → 0 < s.pool.queueSize →
      s.workers[i]? = some .woken → 0 < s.pool.waitExitThrNum →
      s.pool.minThrNum < s.pool.liveThrNum →
      (∃ k w, k ≠ i ∧ s.workers[k]? = some w ∧ w.isAwake = true) ∨ s.Signalling
  | _ => True

/-! ## The step -/

section Step

variable {s s' : System F A} {a : Act F A}

/-- Steps that put no worker to sleep and drop no signal. -/
theorem Attended.of_same (h : Attended s) (hopen : s'.pool.shutdown = false →
      s.pool.shutdown = false) (hsize : s'.pool.queueSize = s.pool.queueSize)
    (hawake : ∀ w ∈ s.workers, w.isAwake = true → ∃ w' ∈ s'.workers, w'.isAwake = true)
    (hsig : s.Signalling → s'.Signalling) : Attended s' := by
  intro hopen' hqueued
  rw [hsize] at hqueued
  rcases h (hopen hopen') hqueued with ⟨w, hw, hw'⟩ | hs
  · exact Or.inl (hawake w hw hw')
  · exact Or.inr (hsig hs)

/-- A worker that another one takes the place of was not the only one awake. -/
theorem awake_of_set {i : Nat} {b v : Worker F A} (hpc : s.workers[i]? = some b)
    (hb : b.isAwake = false) (w : Worker F A) (hw : w ∈ s.workers) (hawake : w.isAwake = true) :
    ∃ w' ∈ s.workers.set i v, w'.isAwake = true := by
  have hne : b ≠ w := by
    rintro rfl
    rw [hb] at hawake
    cases hawake
  exact ⟨w, mem_set_kept hpc hne hw, hawake⟩

theorem Attended.worker {i : Nat} (h : Attended s) (hl : LockHeld s)
    (hspares : Spares s (.worker i))
    (hstep : WorkerStep s i s') : Attended s' := by
  cases hstep with
  | sleeps w ht hempty =>
      -- it goes to sleep only when the queue is empty
      intro _ hqueued
      change 0 < s.pool.queueSize at hqueued
      omega
  | quits w ht hdown =>
      intro hopen
      exact absurd (hdown.symm.trans hopen) (by decide)
  | takes w ht =>
      obtain ⟨b, hpc⟩ := ht.exists_worker
      exact fun _ _ => Or.inl ⟨_, mem_set_of_getElem? hpc, rfl⟩
  | surplus hlock hpc hpos hmin =>
      intro hopen hqueued
      -- the step spares the last worker awake, so there is another, or a signal is due
      rcases hspares hopen hqueued hpc hpos hmin with ⟨k, w, hki, hk, hawake⟩ | hsig
      · refine Or.inl ⟨w, List.mem_iff_getElem?.mpr ⟨k, ?_⟩, hawake⟩
        show (s.workers.set i _)[k]? = some w
        rw [List.getElem?_set_ne (Ne.symm hki), hk]
      · exact Or.inr hsig
  | waits hpc =>
      intro _ hqueued
      -- nothing has been added since the test: this worker has held the lock
      have hempty := (hl.worker i hpc).2
      change 0 < s.pool.queueSize at hqueued
      omega
  | begins task hpc => exact fun _ _ => Or.inl ⟨_, mem_set_of_getElem? hpc, rfl⟩
  | finishes task hpc => exact fun _ _ => Or.inl ⟨_, mem_set_of_getElem? hpc, rfl⟩
  | exits b hpc => exact h.of_same id rfl (awake_of_set hpc rfl) id

/-- A signal that is due stays due when calls are moved on that have not sent theirs. -/
theorem Signalling.of_set {j : Nat} {c c' : Call F A} (hpc : s.calls[j]? = some c)
    (hc : c.pc ≠ .signal) (hcalls : s'.calls = s.calls.set j c') (hadmin : s'.admin = s.admin)
    (h : s.Signalling) : s'.Signalling := by
  rcases h with ⟨d, hd, hsig⟩ | ⟨left, hleft⟩
  · have hne : c ≠ d := by
      rintro rfl
      exact hc hsig
    exact Or.inl ⟨d, hcalls ▸ mem_set_kept hpc hne hd, hsig⟩
  · exact Or.inr ⟨left, hadmin.trans hleft⟩

theorem Attended.caller {j : Nat} (h : Attended s) (hstep : CallerStep s j s') :
    Attended s' := by
  cases hstep with
  | blocks task he =>
      rcases he.pc with hpc | hpc <;>
        exact h.of_same id rfl (fun w hw ha => ⟨w, hw, ha⟩)
          (Signalling.of_set hpc (by simp) rfl rfl)
  | rejects task he =>
      rcases he.pc with hpc | hpc <;>
        exact h.of_same id rfl (fun w hw ha => ⟨w, hw, ha⟩)
          (Signalling.of_set hpc (by simp) rfl rfl)
  | enqueues task he =>
      obtain ⟨c, hpc⟩ := he.exists_call
      -- the call has its own signal still to send
      exact fun _ _ => Or.inr (Or.inl ⟨⟨task, .signal⟩, mem_set_of_getElem? hpc, rfl⟩)
  | waits task hpc =>
      exact h.of_same id rfl (fun w hw ha => ⟨w, hw, ha⟩) (Signalling.of_set hpc (by simp) rfl rfl)

/-- While the pool is open, some worker has not left. -/
theorem Counted.exists_staying {minThrNum maxThrNum : Int} (h : Counted minThrNum maxThrNum s)
    (hmin : 1 ≤ minThrNum) (hopen : s.pool.shutdown = false) :
    ∃ w ∈ s.workers, w.hasLeft = false := by
  have hlive := h.live_eq hopen
  have hle := h.min_le
  obtain ⟨w, hw, hstays⟩ := List.countP_pos_iff.mp
    (show 0 < s.workers.countP fun w => !w.hasLeft by omega)
  exact ⟨w, hw, by simpa using hstays⟩

/-- After a signal some worker is awake: the one it wakes, or, when it is lost, one that has
not left. -/
theorem Signals.awake {ws : List (Worker F A)} (hs : Signals s ws)
    (hstays : ∃ w ∈ s.workers, w.hasLeft = false) : ∃ w ∈ ws, w.isAwake = true := by
  cases hs with
  | wakes i hpc => exact ⟨_, mem_set_of_getElem? hpc, rfl⟩
  | lost hnone =>
      -- a lost signal: nobody waits
      obtain ⟨w, hw, hleft⟩ := hstays
      refine ⟨w, hw, ?_⟩
      rw [Worker.isAwake, hleft, hnone w hw]
      rfl

variable {minThrNum maxThrNum : Int}

/-- The admin thread moves on from where it had no signal to send. -/
theorem Attended.of_idleAdmin {pc : Admin} (h : Attended s) (hpc : s.admin = pc)
    (hno : ∀ left, pc ≠ .notifying (left + 1))
    (hopen : s'.pool.shutdown = s.pool.shutdown) (hsize : s'.pool.queueSize = s.pool.queueSize)
    (hworkers : ∀ w ∈ s.workers, w ∈ s'.workers) (hcalls : s'.calls = s.calls) :
    Attended s' := by
  refine h.of_same (fun h₀ => hopen.symm.trans h₀) hsize
    (fun w hw hawake => ⟨w, hworkers w hw, hawake⟩) fun hsig => ?_
  rcases hsig with hcall | ⟨left, hleft⟩
  · exact Or.inl (hcalls ▸ hcall)
  · exact absurd (hpc.symm.trans hleft) (hno left)

theorem Attended.admin (h : Attended s) (hc : Counted minThrNum maxThrNum s)
    (hmin : 1 ≤ minThrNum) (hstep : AdminStep s s') : Attended s' := by
  cases hstep with
  | grows q l b hpc =>
      obtain ⟨hq, hcalls⟩ := growLoop_sameQueue s.pool.maxThrNum.toNat 0 0 s
      -- a grow round only adds workers
      have hkeep : (∀ w ∈ s.workers, w ∈ (growLoop s.pool.maxThrNum.toNat 0 0 s).workers) ∧
          (growLoop s.pool.maxThrNum.toNat 0 0 s).pool.shutdown = s.pool.shutdown :=
        growLoop_invariant
          (fun t => (∀ w ∈ s.workers, w ∈ t.workers) ∧ t.pool.shutdown = s.pool.shutdown)
          (fun t i ht _ _ _ => ⟨fun w hw => List.mem_append_left _ (ht.1 w hw), ht.2⟩)
          _ 0 0 (le_refl (0 + s.pool.maxThrNum.toNat)) ⟨fun w hw => hw, rfl⟩
      exact h.of_idleAdmin hpc (by simp) hkeep.2 hq.size hkeep.1 hcalls
  | shrinks l b hpc => exact fun _ _ => Or.inr (Or.inr ⟨9, rfl⟩)
  | signals left ws hpc hs =>
      exact fun hopen _ => Or.inl (hs.awake (hc.exists_staying hmin hopen))
  | sleeps hpc => exact h.of_idleAdmin hpc (by simp) rfl rfl (fun _ hw => hw) rfl
  | ends hpc => exact h.of_idleAdmin hpc (by simp) rfl rfl (fun _ hw => hw) rfl
  | counts hpc => exact h.of_idleAdmin hpc (by simp) rfl rfl (fun _ hw => hw) rfl
  | reads q l hpc => exact h.of_idleAdmin hpc (by simp) rfl rfl (fun _ hw => hw) rfl
  | stays q l b hpc => exact h.of_idleAdmin hpc (by simp) rfl rfl (fun _ hw => hw) rfl
  | keeps l b hpc => exact h.of_idleAdmin hpc (by simp) rfl rfl (fun _ hw => hw) rfl
  | done hpc => exact h.of_idleAdmin hpc (by simp) rfl rfl (fun _ hw => hw) rfl

theorem Attended.destroy (h : Attended s) (hstep : DestroyStep s s') : Attended s' := by
  cases hstep with
  | closes => exact fun hopen => by cases hopen
  | broadcasts i hpc =>
      refine h.of_same id rfl (fun w hw ha => ⟨w.wake, List.mem_map_of_mem hw, ?_⟩) id
      -- who waits is woken, everybody else is as before
      cases w with
      | waiting => rfl
      | _ => exact ha
  | _ => exact h.of_same id rfl (fun w hw ha => ⟨w, hw, ha⟩) id

theorem Attended.step (h : Attended s) (hl : LockHeld s) (hc : Counted minThrNum maxThrNum s)
    (hmin : 1 ≤ minThrNum) (hspares : Spares s a) (hstep : Step s a s') : Attended s' := by
  cases hstep with
  | worker i _ hw => exact h.worker hl hspares hw
  | wakeWorker i hpc => exact fun _ _ => Or.inl ⟨_, mem_set_of_getElem? hpc, rfl⟩
  | call function arg =>
      refine h.of_same id rfl (fun w hw ha => ⟨w, hw, ha⟩) fun hsig => ?_
      rcases hsig with ⟨c, hcmem, hsig⟩ | hadmin
      · exact Or.inl ⟨c, List.mem_append_left _ hcmem, hsig⟩
      · exact Or.inr hadmin
  | caller j _ hj => exact h.caller hj
  | callerSignal j pick task ws hpc hs =>
      exact fun hopen _ => Or.inl (hs.awake (hc.exists_staying hmin hopen))
  | wakeCaller j task hpc =>
      exact h.of_same id rfl (fun w hw ha => ⟨w, hw, ha⟩)
        (Signalling.of_set hpc (by simp) rfl rfl)
  | admin _ ha => exact h.admin hc hmin ha
  | adminSignal pick _ ha => exact h.admin hc hmin ha
  | destroy _ hd => exact h.destroy hd

/-- A worker that tests the queue does not leave as surplus. -/
theorem Tests.not_surplus {i : Nat} {w : Int} (ht : Tests s i w)
    (hpc : s.workers[i]? = some .woken) (hpos : 0 < s.pool.waitExitThrNum)
    (hmin : s.pool.minThrNum < s.pool.liveThrNum) : False := by
  cases ht with
  | fresh _ hpc' => exact absurd (hpc.symm.trans hpc') (by simp)
  | back _ _ hno => omega
  | spared _ _ _ hle => omega

/-- A step that does not spare the last worker awake strands the tasks. -/
theorem Spares.of_not_stranded (hstep : s.step a = some s') (hno : ¬ s'.Stranded) :
    Spares s a := by
  cases a with
  | worker i =>
      intro hopen hqueued hpc hpos hmin
      by_contra hlast
      rw [not_or] at hlast
      cases threadpoolThread_cases hstep with
      | surplus =>
          -- without it everybody sleeps: the state behind the step is stranded
          refine hno ⟨hopen, hqueued, fun w hw => ?_, hlast.2⟩
          obtain ⟨k, hk⟩ := List.mem_iff_getElem?.mp hw
          rcases getElem?_set_cases hk with ⟨-, rfl⟩ | ⟨hki, hk⟩
          · rfl
          · by_contra hawake
            exact hlast.1 ⟨k, w, hki, hk, by simpa using hawake⟩
      | sleeps w ht => exact (ht.not_surplus hpc hpos hmin).elim
      | quits w ht => exact (ht.not_surplus hpc hpos hmin).elim
      | takes w ht => exact (ht.not_surplus hpc hpos hmin).elim
      | waits hpc' => exact absurd (hpc.symm.trans hpc') (by simp)
      | begins task hpc' => exact absurd (hpc.symm.trans hpc') (by simp)
      | finishes task hpc' => exact absurd (hpc.symm.trans hpc') (by simp)
      | exits b hpc' => exact absurd (hpc.symm.trans hpc') (by simp)
  | _ => trivial

end Step

/-! ## Runs -/

/-- What the steps of a run keep as long as they spare the last worker awake. -/
structure Watched (minThrNum maxThrNum : Int) (s : System F A) : Prop where
  attended : Attended s
  lock : LockHeld s
  counted : Counted minThrNum maxThrNum s

/-- **Stranded tasks.** Of the states that a run of a pool with at least one worker passes
through, none is stranded, if and only if no worker leaves as surplus in it while a task is
queued, nobody else is awake and no signal is due. -/
theorem threadpool_stranded_iff (minThrNum maxThrNum queueMaxSize : Int)
    (heap : Int → ThreadpoolTask F A) (hmin : 1 ≤ minThrNum) (hmax : minThrNum ≤ maxThrNum)
    (as : List (Act F A)) (t : System F A)
    (hrun : Machine.run System.step
      (threadpoolCreate minThrNum maxThrNum queueMaxSize heap) as = some t) :
    (∀ bs cs s, as = bs ++ cs → Machine.run System.step
        (threadpoolCreate minThrNum maxThrNum queueMaxSize heap) bs = some s → ¬ s.Stranded) ↔
      Machine.Meets System.step Spares
        (threadpoolCreate minThrNum maxThrNum queueMaxSize heap) as := by
  constructor
  · exact fun hno => Machine.meets_of_forall_prefix
      (fun s a s' hstep hs' => Spares.of_not_stranded hstep hs') hrun hno
  · rintro hspares bs cs s rfl hs
    obtain ⟨m, hm, -⟩ := Machine.run_append.mp hrun
    have hfresh : Watched minThrNum maxThrNum
        (threadpoolCreate minThrNum maxThrNum queueMaxSize heap) :=
      ⟨fun _ hqueued => absurd hqueued (lt_irrefl 0),
        threadpoolCreate_lockHeld minThrNum maxThrNum queueMaxSize heap,
        threadpoolCreate_counted queueMaxSize heap (by omega) hmax⟩
    have hs' : Watched minThrNum maxThrNum s :=
      Machine.run_invariant_of_meets (Watched minThrNum maxThrNum)
        (fun s a s' h hC hstep => by
          have hcases := System.step_cases hstep
          exact ⟨h.attended.step h.lock h.counted hmin hC hcases, h.lock.step hcases,
            h.counted.step hcases⟩)
        hfresh (Machine.meets_append hspares hm).1 hs
    exact attended_iff.mp hs'.attended

/-- One worker becomes two, a shrink round finds nobody waiting, worker 1 does all the work
and both go to sleep. The signal for one more task then wakes worker 0, which leaves. -/
def strandRun : List (Act Unit Unit) :=
  growRound ++ List.replicate 5 Act.admin ++ List.replicate 10 (Act.adminSignal none) ++
    [Act.admin] ++ List.replicate 31 (Act.worker 1) ++ [Act.worker 1, .worker 0, .worker 0] ++
    [Act.call () none, .caller 10, .callerSignal 10 (some 0), .worker 0, .worker 0]

theorem threadpool_strands_task :
    ∃ s, Machine.Reaches System.step (threadpoolCreate 1 2 16 fun _ => ⟨(), none⟩) s ∧
      s.workers = [Worker.exited (F := Unit) (A := Unit) true, .waiting] ∧ s.Stranded := by
  have hrun : (Machine.run System.step (threadpoolCreate 1 2 16 fun _ => ⟨(), none⟩)
      strandRun).map (fun s => (s.pool.shutdown, s.pool.queueSize, s.workers,
        s.calls.all fun c => c.pc ≠ .signal, s.admin))
      = some (false, 1, [.exited true, .waiting], true, .top) := by decide
  obtain ⟨s, hs, heq⟩ := Option.map_eq_some_iff.mp hrun
  simp only [Prod.mk.injEq] at heq
  obtain ⟨hopen, hsize, hworkers, hcalls, hadmin⟩ := heq
  refine ⟨s, ⟨strandRun, hs⟩, hworkers, hopen, by omega, ?_, ?_⟩
  · rw [hworkers]
    decide
  · rintro (⟨c, hc, hsig⟩ | ⟨left, hleft⟩)
    · have := List.all_eq_true.mp hcalls c hc
      rw [hsig] at this
      cases this
    · rw [hadmin] at hleft
      cases hleft

end SpeechStack
