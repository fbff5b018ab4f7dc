import SpeechStack.Pool.Shutdown

set_option autoImplicit false

/-! # The shutdown and the calls

A call of `threadpool_add_task` that waits for room returns -1 when it wakes up and finds
`shutdown` set. But `queue_not_full` is signalled by a worker that takes a task, and after the
shutdown no worker takes one; `threadpool_destroy` broadcasts on `queue_not_empty` only. So a
call that waits when the flag is set is left in its wait, and the pool is freed under it
(`threadpool_destroy_strands_call`).
-/

namespace SpeechStack

variable {F A : Type}

/-- The call waits for room in the queue, or is about to. -/
def Call.isBlocked (c : Call F A) : Bool :=
  match c.pc with
  | .toWait => true
  | .waiting => true
  | _ => false

/-- `threadpool_destroy` does not set the flag while a call waits for room or is about to. -/
def Unblocked (s : System F A) : Act F A → Prop
  | .destroy => s.destroy = .idle → ∀ c ∈ s.calls, c.isBlocked = false
  | _ => True

instance (s : System F A) : ∀ a, Decidable (Unblocked s a)
  | .destroy => inferInstanceAs (Decidable (s.destroy = .idle →
      ∀ c ∈ s.calls, c.isBlocked = false))
  | .worker _ => isTrue trivial
  | .wakeWorker _ => isTrue trivial
  | .call _ _ => isTrue trivial
  | .caller _ => isTrue trivial
  | .callerSignal _ _ => isTrue trivial
  | .wakeCaller _ => isTrue trivial
  | .admin => isTrue trivial
  | .adminSignal _ => isTrue trivial

/-- What the shutdown means for the calls. -/
structure System.Released (s : System F A) : Prop where
  /-- nobody waits for room in a pool that is freed -/
  awake : s.destroy = .free ∨ s.destroy = .freed → ∀ c ∈ s.calls, c.pc ≠ .waiting
  /-- whatever happens next, a call without an answer gets none but -1 -/
  refused : s.pool.shutdown = true → ∀ j task, s.answer j = some (task, none) →
    ∀ a s', s.step a = some s' →
      s'.answer j = some (task, none) ∨ s'.answer j = some (task, some (-1))
  /-- and it gets it as soon as it has the lock -/
  answered : s.pool.shutdown = true → ∀ j task, s.answer j = some (task, none) →
    s.lock = none → ∃ s', s.step (.caller j) = some s' ∧ s'.answer j = some (task, some (-1))

section Released

variable {s s' : System F A} {a : Act F A}

/-! ## Calls that do not wait -/

/-- Only `threadpool_destroy` sets the flag. -/
theorem Step.shutdown_eq (h : Step s a s') :
    s'.pool.shutdown = s.pool.shutdown ∨ a = .destroy ∧ s.destroy = .idle := by
  cases h with
  | worker i _ hw =>
      obtain ⟨b, w, hm⟩ := hw.moves
      exact Or.inl hm.shutdown
  | caller j _ hc => cases hc <;> exact Or.inl rfl
  | admin _ ha => exact Or.inl ha.shutdown
  | adminSignal pick _ ha => exact Or.inl ha.shutdown
  | destroy _ hd =>
      cases hd with
      | closes hpc => exact Or.inr ⟨rfl, hpc⟩
      | _ => exact Or.inl rfl
  | _ => exact Or.inl rfl

theorem unblocked_set {j : Nat} {c : Call F A} (hall : ∀ c ∈ s.calls, c.isBlocked = false)
    (hc : c.isBlocked = false) : ∀ d ∈ s.calls.set j c, d.isBlocked = false := by
  intro d hd
  rcases List.mem_or_eq_of_mem_set hd with hold | rfl
  · exact hall d hold
  · exact hc

/-- Behind the flag no call begins to wait. -/
theorem Step.unblocked (h : Step s a s') (hdown : s.pool.shutdown = true)
    (hall : ∀ c ∈ s.calls, c.isBlocked = false) : ∀ c ∈ s'.calls, c.isBlocked = false := by
  cases h with
  | worker i _ hw =>
      cases hw with
      | takes w ht hsize hopen =>
          rw [hdown] at hopen
          cases hopen
      | _ => exact hall
  | call function arg =>
      intro c hc
      rcases List.mem_append.mp hc with hold | hnew
      · exact hall c hold
      · rw [List.mem_singleton.mp hnew]
        rfl
  | caller j _ hc =>
      cases hc with
      | blocks task he hfull hopen =>
          rw [hdown] at hopen
          cases hopen
      | rejects task he => exact unblocked_set hall rfl
      | enqueues task he hroom hopen =>
          rw [hdown] at hopen
          cases hopen
      | waits task hpc =>
          have hfree := hall _ (List.mem_of_getElem? hpc)
          cases hfree
  | callerSignal j pick task ws hpc => exact unblocked_set hall rfl
  | wakeCaller j task hpc => exact unblocked_set hall rfl
  | admin _ ha => exact ha.sameQueue.2 ▸ hall
  | adminSignal pick _ ha => exact ha.sameQueue.2 ▸ hall
  | destroy _ hd => exact hd.sameQueue.2 ▸ hall
  | wakeWorker => exact hall

/-- Once the flag is set, no call waits for room. -/
structure NoneBlocked (s : System F A) : Prop where
  down : s.destroy ≠ .idle → s.pool.shutdown = true
  unblocked : s.pool.shutdown = true → ∀ c ∈ s.calls, c.isBlocked = false

theorem NoneBlocked.step (h : NoneBlocked s) (hC : Unblocked s a) (hstep : Step s a s') :
    NoneBlocked s' where
  down := hstep.down h.down
  unblocked := by
    intro hdown'
    rcases hstep.shutdown_eq with heq | ⟨rfl, hidle⟩
    · have hdown := heq.symm.trans hdown'
      exact hstep.unblocked hdown (h.unblocked hdown)
    · -- here the flag is set
      cases hstep with
      | destroy _ hd => exact hd.sameQueue.2 ▸ hC hidle

/-! ## Answers behind the flag -/

theorem System.refused (hdown : s.pool.shutdown = true) {j : Nat} {task : ThreadpoolTask F A}
    (hj : s.answer j = some (task, none)) (hstep : s.step a = some s') :
    s'.answer j = some (task, none) ∨ s'.answer j = some (task, some (-1)) := by
  by_cases hcall : ∃ function arg, a = .call function arg
  · obtain ⟨function, arg, rfl⟩ := hcall
    obtain ⟨-, -, hans⟩ := System.call_answer hstep
    have hlt : j ≠ s.calls.length := by
      rintro rfl
      rw [System.answer, List.getElem?_eq_none le_rfl] at hj
      cases hj
    rw [hans, if_neg hlt]
    exact Or.inl hj
  · have hclosed : Closed s s' := Closed.step ⟨hdown, rfl, rfl⟩ (System.step_cases hstep)
    cases System.step_answers hstep fun function arg ha => hcall ⟨function, arg, ha⟩ with
    | same hacc hans =>
        rw [hans]
        exact Or.inl hj
    | accepts k task' hk hacc hans =>
        -- nothing is accepted behind the flag
        rw [hclosed.accepted] at hacc
        exact absurd hacc (by simp)
    | rejects k task' hk hacc hans =>
        rw [hans]
        split
        · rename_i hjk
          rw [← hjk, hj] at hk
          cases hk
          exact Or.inr rfl
        · exact Or.inl hj

theorem System.answered (hdown : s.pool.shutdown = true)
    (hall : ∀ c ∈ s.calls, c.isBlocked = false) {j : Nat} {task : ThreadpoolTask F A}
    (hj : s.answer j = some (task, none)) (hlock : s.lock = none) :
    ∃ s', s.step (.caller j) = some s' ∧ s'.answer j = some (task, some (-1)) := by
  obtain ⟨⟨task', pc⟩, hpc, heq⟩ := Option.map_eq_some_iff.mp hj
  have hfree := hall _ (List.mem_of_getElem? hpc)
  have hsection : callerSection s j task
      = { s with calls := s.calls.set j ⟨task, .returned (-1)⟩ } := by
    simp [callerSection, hdown]
  have hanswer : System.answer { s with calls := s.calls.set j ⟨task, .returned (-1)⟩ } j
      = some (task, some (-1)) := by
    rw [answer_of_set rfl hpc, if_pos rfl]
    rfl
  cases pc with
  | enter =>
      obtain rfl : task' = task := (Prod.mk.inj heq).1
      exact ⟨_, by simp only [System.step, threadpoolAddTask, hpc, if_pos hlock, hsection], hanswer⟩
  | woken =>
      obtain rfl : task' = task := (Prod.mk.inj heq).1
      exact ⟨_, by simp only [System.step, threadpoolAddTask, hpc, if_pos hlock, hsection], hanswer⟩
  | toWait => cases hfree
  | waiting => cases hfree
  | signal => cases heq
  | returned ret => cases heq

theorem NoneBlocked.released (h : NoneBlocked s) : s.Released where
  awake := by
    intro hfree c hc hwait
    have hd : s.destroy ≠ .idle := by
      rintro hidle
      rcases hfree with hfree | hfree <;> rw [hidle] at hfree <;> cases hfree
    have hno := h.unblocked (h.down hd) c hc
    rw [Call.isBlocked, hwait] at hno
    cases hno
  refused := fun hdown j task hj a s' hstep => System.refused hdown hj hstep
  answered := fun hdown j task hj hlock => System.answered hdown (h.unblocked hdown) hj hlock

end Released

/-! ## A pool that is closed on a waiting call -/

section Closing

variable {u v : System F A} {a : Act F A}

/-- `v` comes out of `u` behind the flag: the lock is free, and the calls and
`threadpool_destroy` are where they were. -/
structure Winds (u v : System F A) : Prop where
  lock : v.lock = none
  down : v.pool.shutdown = true
  calls : v.calls = u.calls
  destroy : v.destroy = u.destroy

theorem Winds.trans {w : System F A} (h₁ : Winds u v) (h₂ : Winds v w) : Winds u w :=
  ⟨h₂.lock, h₂.down, h₂.calls.trans h₁.calls, h₂.destroy.trans h₁.destroy⟩

/-! ### The admin thread -/

/-- How many steps the admin thread may have left before it sees the flag. -/
def Admin.rank : Admin → Nat
  | .ended => 0
  | .top => 1
  | .notifying left => left + 2
  | .shrinking _ _ => DEFAULT_THREAD_NUM + 3
  | .deciding _ _ _ => DEFAULT_THREAD_NUM + 4
  | .counted _ _ => DEFAULT_THREAD_NUM + 5
  | .sleeping => DEFAULT_THREAD_NUM + 6

theorem AdminStep.rank_lt (h : AdminStep u v) (hdown : u.pool.shutdown = true) :
    v.admin.rank < u.admin.rank := by
  cases h with
  | sleeps hpc hopen =>
      rw [hdown] at hopen
      cases hopen
  | ends hpc => simp [hpc, Admin.rank]
  | counts hpc => simp [hpc, Admin.rank]
  | reads q l hpc => simp [hpc, Admin.rank]
  | grows q l b hpc => simp [hpc, Admin.rank]
  | stays q l b hpc => simp [hpc, Admin.rank]
  | shrinks l b hpc => simp [hpc, Admin.rank]
  | keeps l b hpc => simp [hpc, Admin.rank]
  | signals left ws hpc => simp [hpc, Admin.rank]
  | done hpc => simp [hpc, Admin.rank]

/-- Somebody can be woken by a signal, or nobody waits. -/
theorem signalNotEmpty_enabled (u : System F A) : ∃ pick v, signalNotEmpty u pick = some v := by
  by_cases hany : u.workers.any Worker.isWaiting = true
  · obtain ⟨w, hw, hwait⟩ := List.any_eq_true.mp hany
    obtain ⟨i, hi⟩ := List.mem_iff_getElem?.mp hw
    obtain rfl : w = .waiting := by cases w <;> first | rfl | cases hwait
    exact ⟨some i, _, by simp only [signalNotEmpty, wakeWorker, hi]; rfl⟩
  · exact ⟨none, u, by simp only [signalNotEmpty, if_neg hany]⟩

/-- With the lock free the admin thread can take a step as long as it has not ended. -/
theorem admin_enabled (hlock : u.lock = none) (hne : u.admin ≠ .ended) :
    ∃ a v, u.step a = some v ∧ AdminStep u v := by
  have hthread : ∀ v, adminThread u = some v → ∃ a v, u.step a = some v ∧ AdminStep u v :=
    fun v hv => ⟨.admin, v, hv, adminThread_cases hv⟩
  cases hpc : u.admin with
  | ended => exact absurd hpc hne
  | top => exact hthread _ (by simp only [adminThread, hpc]; rfl)
  | sleeping => exact hthread _ (by simp only [adminThread, hpc, if_pos hlock]; rfl)
  | counted q l => exact hthread _ (by simp only [adminThread, hpc]; rfl)
  | deciding q l b =>
      by_cases hmany : q ≥ MIN_WAIT_TASK_NUM ∧ l ≤ u.pool.maxThrNum
      · exact hthread _ (by simp only [adminThread, hpc, if_pos hmany, if_pos hlock]; rfl)
      · exact hthread _ (by simp only [adminThread, hpc, if_neg hmany]; rfl)
  | shrinking l b =>
      by_cases hidle : b * 2 < l ∧ l > u.pool.minThrNum
      · exact hthread _ (by simp only [adminThread, hpc, if_pos hidle, if_pos hlock]; rfl)
      · exact hthread _ (by simp only [adminThread, hpc, if_neg hidle]; rfl)
  | notifying left =>
      cases left with
      | zero => exact hthread _ (by simp only [adminThread, hpc]; rfl)
      | succ left =>
          obtain ⟨pick, v, hv⟩ := signalNotEmpty_enabled u
          have hstep : adminSignal u pick = some { v with admin := .notifying left } := by
            simp only [adminSignal, hpc, hv, Option.map_some]
          exact ⟨.adminSignal pick, _, hstep, adminSignal_cases hstep⟩

/-- The admin thread can be brought to its end. -/
theorem reaches_ended (hlock : u.lock = none) (hdown : u.pool.shutdown = true) :
    ∃ v, Machine.Reaches System.step u v ∧ Winds u v ∧ v.admin = .ended := by
  refine Machine.Reaches.of_rank (I := Winds u) (fun s => s.admin.rank) ?_
    ⟨hlock, hdown, rfl, rfl⟩
  intro s hs hne
  obtain ⟨a, s', hstep, hadmin⟩ := admin_enabled hs.lock hne
  refine ⟨a, s', hstep, hs.trans ?_, hadmin.rank_lt hs.down⟩
  exact ⟨hadmin.lock.trans hs.lock, hadmin.shutdown.trans hs.down, hadmin.sameQueue.2,
    hadmin.destroy⟩

/-! ### The workers -/

/-- How many steps a worker may have left before it has exited. -/
def Worker.rank : Worker F A → Nat
  | .exited _ => 0
  | .leaving _ => 1
  | .start => 2
  | .woken => 2
  | .busy _ => 3
  | .waiting => 3
  | .took _ => 4
  | .toWait => 4

def System.rank (s : System F A) : Nat := (s.workers.map Worker.rank).sum

theorem sum_rank_set_lt {ws : List (Worker F A)} {i : Nat} {b w : Worker F A}
    (hpc : ws[i]? = some b) (hlt : w.rank < b.rank) :
    ((ws.set i w).map Worker.rank).sum < (ws.map Worker.rank).sum := by
  induction ws generalizing i with
  | nil => cases hpc
  | cons v ws ih =>
      cases i with
      | zero =>
          obtain rfl : v = b := Option.some.inj hpc
          simp only [List.set_cons_zero, List.map_cons, List.sum_cons]
          omega
      | succ i =>
          have hrest := ih (i := i) hpc
          simp only [List.set_cons_succ, List.map_cons, List.sum_cons]
          omega

/-- Behind the flag every step of a worker brings it nearer to its end. -/
theorem WorkerStep.winds {i : Nat} (h : WorkerStep u i v) (hlock : u.lock = none)
    (hdown : u.pool.shutdown = true) :
    Winds u v ∧ ∃ b w, u.workers[i]? = some b ∧ v.workers = u.workers.set i w ∧
      w.rank < b.rank := by
  cases h with
  | sleeps w ht hempty hopen =>
      rw [hdown] at hopen
      cases hopen
  | takes w ht hsize hopen =>
      rw [hdown] at hopen
      cases hopen
  | quits w ht =>
      refine ⟨⟨hlock, hdown, rfl, rfl⟩, ?_⟩
      rcases ht.pc with hpc | hpc <;> exact ⟨_, _, hpc, rfl, Nat.lt_succ_self 1⟩
  | surplus _ hpc => exact ⟨⟨hlock, hdown, rfl, rfl⟩, _, _, hpc, rfl, Nat.lt_succ_self 1⟩
  | waits hpc => exact ⟨⟨rfl, hdown, rfl, rfl⟩, _, _, hpc, rfl, Nat.lt_succ_self 3⟩
  | begins task hpc => exact ⟨⟨hlock, hdown, rfl, rfl⟩, _, _, hpc, rfl, Nat.lt_succ_self 3⟩
  | finishes task hpc => exact ⟨⟨hlock, hdown, rfl, rfl⟩, _, _, hpc, rfl, Nat.lt_succ_self 2⟩
  | exits b hpc => exact ⟨⟨hlock, hdown, rfl, rfl⟩, _, _, hpc, rfl, Nat.lt_succ_self 0⟩

/-- With the lock free every worker can take a step that neither waits nor has exited. -/
theorem worker_enabled {i : Nat} {w : Worker F A} (hlock : u.lock = none)
    (hpc : u.workers[i]? = some w) (hwait : w.isWaiting = false) (halive : w.isAlive = true) :
    ∃ v, threadpoolThread u i = some v := by
  cases w with
  | start => exact ⟨_, by simp only [threadpoolThread, hpc, if_pos hlock]; rfl⟩
  | toWait => exact ⟨_, by simp only [threadpoolThread, hpc]; rfl⟩
  | waiting => cases hwait
  | woken =>
      by_cases hpos : u.pool.waitExitThrNum > 0
      · by_cases hmin : u.pool.liveThrNum > u.pool.minThrNum
        · exact ⟨_, by simp only [threadpoolThread, hpc, hlock, if_pos hpos, if_pos hmin]; rfl⟩
        · exact ⟨_, by simp only [threadpoolThread, hpc, hlock, if_pos hpos, if_neg hmin]; rfl⟩
      · exact ⟨_, by simp only [threadpoolThread, hpc, hlock, if_neg hpos]; rfl⟩
  | took task => exact ⟨_, by simp only [threadpoolThread, hpc]; rfl⟩
  | busy task => exact ⟨_, by simp only [threadpoolThread, hpc]; rfl⟩
  | leaving b => exact ⟨_, by simp only [threadpoolThread, hpc]; rfl⟩
  | exited b => cases halive

/-- The workers can be brought to their end. -/
theorem reaches_exited (hlock : u.lock = none) (hdown : u.pool.shutdown = true)
    (hended : u.admin = .ended) :
    ∃ v, Machine.Reaches System.step u v ∧ (Winds u v ∧ v.admin = .ended) ∧
      ∀ w ∈ v.workers, w.isAlive = false := by
  refine Machine.Reaches.of_rank (I := fun v => Winds u v ∧ v.admin = .ended) System.rank ?_
    ⟨⟨hlock, hdown, rfl, rfl⟩, hended⟩
  rintro s ⟨hs, hadmin⟩ hne
  obtain ⟨w, hw, halive⟩ : ∃ w ∈ s.workers, w.isAlive = true := by simpa using hne
  obtain ⟨i, hpc⟩ := List.mem_iff_getElem?.mp hw
  cases hwait : w.isWaiting with
  | true =>
      -- one that waits may wake up by itself
      obtain rfl : w = .waiting := by cases w <;> first | rfl | cases hwait
      have hstep : s.step (.wakeWorker i) = some { s with workers := s.workers.set i .woken } := by
        simp only [System.step, wakeWorker, hpc]
      exact ⟨_, _, hstep, ⟨hs.trans ⟨hs.lock, hs.down, rfl, rfl⟩, hadmin⟩,
        sum_rank_set_lt hpc (Nat.lt_succ_self 2)⟩
  | false =>
      obtain ⟨v, hv⟩ := worker_enabled hs.lock hpc hwait halive
      have hcases := threadpoolThread_cases hv
      obtain ⟨hwinds, b, w', hb, hworkers, hlt⟩ := hcases.winds hs.lock hs.down
      refine ⟨.worker i, v, hv, ⟨hs.trans hwinds, hcases.others.2.trans hadmin⟩, ?_⟩
      rw [System.rank, hworkers]
      exact sum_rank_set_lt hb hlt

/-! ### The end of `threadpool_destroy` -/

/-- The join loop can run to its end when all workers have exited. -/
theorem reaches_free (n : Nat) {i : Nat} (hd : u.destroy = .testJoin i)
    (hn : u.pool.liveThrNum ≤ i + n) (hgone : ∀ tid, isThreadAlive u tid = false) :
    Machine.Reaches System.step u { u with destroy := .free } := by
  induction n generalizing i u with
  | zero =>
      have hge : ¬ (i : Int) < u.pool.liveThrNum := by omega
      refine (Machine.Reaches.refl _ u).step (a := .destroy) ?_
      simp only [System.step, threadpoolDestroy, hd, if_neg hge]
  | succ n ih =>
      by_cases hlt : (i : Int) < u.pool.liveThrNum
      · have htest : u.step .destroy = some { u with destroy := .join i } := by
          simp only [System.step, threadpoolDestroy, hd, if_pos hlt]
        have hjoin : System.step { u with destroy := .join i } .destroy
            = some { u with destroy := .testJoin (i + 1) } := by
          simp only [System.step, threadpoolDestroy]
          split
          · rename_i tid htid
            have hdead : isThreadAlive { u with destroy := .join i } tid = false := hgone tid
            rw [hdead]
            rfl
          · rfl
        have hrest := ih (u := { u with destroy := .testJoin (i + 1) }) rfl
          (by push_cast; push_cast at hn; omega) hgone
        exact (((Machine.Reaches.refl _ u).step htest).step hjoin).trans hrest
      · refine (Machine.Reaches.refl _ u).step (a := .destroy) ?_
        simp only [System.step, threadpoolDestroy, hd, if_neg hlt]

theorem isThreadAlive_of_dead (hdead : ∀ w ∈ u.workers, w.isAlive = false) (tid : Nat) :
    isThreadAlive u tid = false := by
  cases hpc : u.workers[tid]? with
  | none =>
      rw [isThreadAlive, hpc]
  | some w =>
      rw [isThreadAlive_eq hpc]
      exact hdead w (List.mem_of_getElem? hpc)

/-- From the shutdown on, the pool can be freed without a call being woken. -/
theorem reaches_free_of_joinAdmin (hlock : u.lock = none) (hdown : u.pool.shutdown = true)
    (hd : u.destroy = .joinAdmin) :
    ∃ v, Machine.Reaches System.step u v ∧ v.destroy = .free ∧ v.calls = u.calls := by
  obtain ⟨v₁, hreach₁, hwinds₁, hended₁⟩ := reaches_ended hlock hdown
  obtain ⟨v₂, hreach₂, ⟨hwinds₂, hended₂⟩, hdead⟩ :=
    reaches_exited hwinds₁.lock hwinds₁.down hended₁
  have hd₂ : v₂.destroy = .joinAdmin := hwinds₂.destroy.trans (hwinds₁.destroy.trans hd)
  have hjoins : v₂.step .destroy = some { v₂ with destroy := .testBroadcast 0 } := by
    simp only [System.step, threadpoolDestroy, hd₂, if_pos hended₂]
  obtain ⟨ws, hws, hreach₃⟩ := reaches_testJoin (u := { v₂ with destroy := .testBroadcast 0 })
    v₂.pool.liveThrNum.toNat rfl (by push_cast; omega)
  -- who has exited stays so in the broadcasts
  have hdead' : ∀ w ∈ ws, w.isAlive = false := by
    intro w hw
    rcases hws with rfl | rfl
    · exact hdead w hw
    · obtain ⟨w₂, hw₂, rfl⟩ := List.mem_map.mp hw
      rw [Worker.wake_isAlive]
      exact hdead w₂ hw₂
  have hreach₄ := reaches_free (u := { v₂ with workers := ws, destroy := .testJoin 0 })
    v₂.pool.liveThrNum.toNat rfl (by push_cast; omega) (isThreadAlive_of_dead hdead')
  exact ⟨_, (((hreach₁.trans hreach₂).step hjoins).trans hreach₃).trans hreach₄, rfl,
    hwinds₂.calls.trans hwinds₁.calls⟩

/-- When a call is blocked, the holder of the lock can go into its wait, and a call waits. -/
theorem reaches_waiting (howner : LockOwner u) (hdown : u.pool.shutdown = true)
    {c : Call F A} (hc : c ∈ u.calls) (hblocked : c.isBlocked = true) :
    ∃ v, Machine.Reaches System.step u v ∧ v.lock = none ∧ v.pool.shutdown = true ∧
      v.destroy = u.destroy ∧ ∃ d ∈ v.calls, d.pc = .waiting := by
  -- a call on its way into the wait gives the lock back there
  have hcall : ∀ (j : Nat) (task : ThreadpoolTask F A), u.calls[j]? = some ⟨task, .toWait⟩ →
      ∃ v, Machine.Reaches System.step u v ∧ v.lock = none ∧ v.pool.shutdown = true ∧
        v.destroy = u.destroy ∧ ∃ d ∈ v.calls, d.pc = .waiting := by
    intro j task hj
    have hstep : u.step (.caller j)
        = some { u with lock := none, calls := u.calls.set j ⟨task, .waiting⟩ } := by
      simp only [System.step, threadpoolAddTask, hj]
    exact ⟨_, (Machine.Reaches.refl _ u).step hstep, rfl, hdown, rfl, ⟨task, .waiting⟩,
      mem_set_of_getElem? hj, rfl⟩
  obtain ⟨j, hj⟩ := List.mem_iff_getElem?.mp hc
  obtain ⟨task, pc⟩ := c
  cases pc with
  | toWait => exact hcall j task hj
  | waiting =>
      cases hlock : u.lock with
      | none => exact ⟨u, Machine.Reaches.refl _ u, hlock, hdown, rfl, _, hc, rfl⟩
      | some owner =>
          cases owner with
          | worker i =>
              have hi := howner.worker i hlock
              have hstep : u.step (.worker i)
                  = some { u with lock := none, workers := u.workers.set i .waiting } := by
                simp only [System.step, threadpoolThread, hi]
              exact ⟨_, (Machine.Reaches.refl _ u).step hstep, rfl, hdown, rfl, _, hc, rfl⟩
          | call k =>
              obtain ⟨task', hk⟩ := howner.call k hlock
              exact hcall k task' hk
  | _ => cases hblocked

end Closing

/-- **Shutdown and the calls.** In a run in which no call waits for room, or is about to, when
`threadpool_destroy` sets the flag, every call is released. Where one does, the run can go on to
where it waits and the pool is freed. -/
theorem threadpool_destroy_releases (minThrNum maxThrNum queueMaxSize : Int)
    (heap : Int → ThreadpoolTask F A) :
    (∀ as s, Machine.run System.step
        (threadpoolCreate minThrNum maxThrNum queueMaxSize heap) as = some s →
      Machine.Meets System.step Unblocked
        (threadpoolCreate minThrNum maxThrNum queueMaxSize heap) as → s.Released) ∧
    (∀ s a s', Machine.Reaches System.step
        (threadpoolCreate minThrNum maxThrNum queueMaxSize heap) s → s.step a = some s' →
      ¬ Unblocked s a → ∃ t, Machine.Reaches System.step s' t ∧
        t.destroy = .free ∧ ∃ c ∈ t.calls, c.pc = .waiting) := by
  constructor
  · intro as s hrun hunblocked
    have h : NoneBlocked s := Machine.run_invariant_of_meets NoneBlocked
      (fun s a s' h hC hstep => h.step hC (System.step_cases hstep))
      ⟨fun hne => absurd rfl hne, fun hdown => by cases hdown⟩ hunblocked hrun
    exact h.released
  · intro s a s' hs hstep hnot
    cases a with
    | destroy =>
        simp only [Unblocked, not_forall] at hnot
        obtain ⟨hidle, c, hc, hblocked⟩ := hnot
        have howner := hs.invariant LockOwner
          (fun s a s' h hstep => h.step (System.step_cases hstep)) (.of_none rfl)
        cases System.step_cases hstep with
        | destroy _ hd =>
            have howner' := howner.step (.destroy s' hd)
            cases hd with
            | closes =>
                obtain ⟨v, hreach, hlock, hdown, hjoin, d, hdmem, hwait⟩ :=
                  reaches_waiting howner' rfl hc (by simpa using hblocked)
                obtain ⟨t, hreach', hfree, hcalls⟩ := reaches_free_of_joinAdmin hlock hdown hjoin
                exact ⟨t, hreach.trans hreach', hfree, d, hcalls ▸ hdmem, hwait⟩
            | _ => simp_all
    | _ => exact absurd trivial hnot

/-- One cell, which is taken, and one more call: it waits when the flag is set, and still does
when the worker has exited and the pool is about to be freed. -/
def fullRun : List (Act Unit Unit) :=
  [Act.call () none, .call () none, .caller 0, .caller 1, .caller 1, .callerSignal 0 none,
    .destroy, .admin] ++ List.replicate 5 Act.destroy ++ [Act.worker 0, .worker 0] ++
    List.replicate 2 Act.destroy

theorem threadpool_destroy_strands_call :
    ∃ s, Machine.Reaches System.step (threadpoolCreate 1 1 1 fun _ => ⟨(), none⟩) s ∧
      s.destroy = .free ∧ s.workers = [Worker.exited (F := Unit) (A := Unit) false] ∧
      s.calls = [⟨⟨(), none⟩, .returned 0⟩, ⟨⟨(), none⟩, .waiting⟩] ∧ ¬ s.Released := by
  have hrun : (Machine.run System.step (threadpoolCreate 1 1 1 fun _ => ⟨(), none⟩)
      fullRun).map (fun s => (s.destroy, s.workers, s.calls))
      = some (.free, [.exited false], [⟨⟨(), none⟩, .returned 0⟩, ⟨⟨(), none⟩, .waiting⟩]) := by
    decide
  obtain ⟨s, hs, heq⟩ := Option.map_eq_some_iff.mp hrun
  simp only [Prod.mk.injEq] at heq
  obtain ⟨hd, hworkers, hcalls⟩ := heq
  refine ⟨s, ⟨fullRun, hs⟩, hd, hworkers, hcalls, fun hreleased => ?_⟩
  refine hreleased.awake (Or.inl hd) ⟨⟨(), none⟩, .waiting⟩ ?_ rfl
  rw [hcalls]
  exact List.mem_cons_of_mem _ List.mem_cons_self

/-- In `closeRun` every call has been answered before the shutdown. -/
theorem threadpool_destroy_releases_closeRun :
    ∃ s, Machine.run System.step (threadpoolCreate 1 2 16 fun _ => ⟨(), none⟩) closeRun = some s ∧
      s.Released := by
  obtain ⟨s, hs⟩ : ∃ s, Machine.run System.step (threadpoolCreate 1 2 16 fun _ => ⟨(), none⟩)
      closeRun = some s := Option.isSome_iff_exists.mp (by decide)
  exact ⟨s, hs, (threadpool_destroy_releases 1 2 16 _).1 closeRun s hs (by decide)⟩

end SpeechStack
