import SpeechStack.Pool.Step

set_option autoImplicit false

/-! # The lock across a wait

`pthread_cond_wait` gives the lock back, but the test before it and the entry into it are two
steps. Between them the thread holds the lock (`LockHeld`), so that what the test has found
still holds: nobody else can add or take a task.
-/

namespace SpeechStack

variable {F A : Type}

/-! ## Lists one element of which has been replaced -/

section Replace

variable {α : Type} {l : List α} {i k : Nat} {a b v : α}

/-- What is at a position of a list one element of which has been replaced. -/
theorem getElem?_set_cases (h : (l.set i a)[k]? = some b) :
    k = i ∧ b = a ∨ k ≠ i ∧ l[k]? = some b := by
  by_cases hki : k = i
  · subst hki
    have hlt : k < (l.set k a).length := (List.getElem?_eq_some_iff.mp h).1
    rw [List.length_set] at hlt
    rw [List.getElem?_set_self hlt] at h
    exact Or.inl ⟨rfl, (Option.some.inj h).symm⟩
  · rw [List.getElem?_set_ne (Ne.symm hki)] at h
    exact Or.inr ⟨hki, h⟩

theorem getElem?_set_of_getElem? (hi : l[i]? = some b) : (l.set i v)[i]? = some v :=
  List.getElem?_set_self (List.getElem?_eq_some_iff.mp hi).1

theorem mem_set_of_getElem? (hi : l[i]? = some b) : v ∈ l.set i v :=
  List.mem_of_getElem? (getElem?_set_of_getElem? hi)

/-- Another element than the replaced one is where it was. -/
theorem getElem?_set_kept (hi : l[i]? = some b) (hne : b ≠ a) (hk : l[k]? = some a) :
    (l.set i v)[k]? = some a := by
  have hki : i ≠ k := by
    rintro rfl
    exact hne (Option.some.inj (hi.symm.trans hk))
  rw [List.getElem?_set_ne hki, hk]

theorem mem_set_kept (hi : l[i]? = some b) (hne : b ≠ a) (ha : a ∈ l) : a ∈ l.set i v := by
  obtain ⟨k, hk⟩ := List.mem_iff_getElem?.mp ha
  exact List.mem_of_getElem? (getElem?_set_kept hi hne hk)

end Replace

/-! ## Between test and wait -/

/-- A thread between its test and its wait holds the lock, and a worker there has found the
queue empty. -/
structure LockHeld (s : System F A) : Prop where
  worker : ∀ i, s.workers[i]? = some .toWait →
    s.lock = some (.worker i) ∧ s.pool.queueSize = 0
  call : ∀ j task, s.calls[j]? = some ⟨task, .toWait⟩ → s.lock = some (.call j)

section LockHeld

variable {s s' : System F A} {a : Act F A}

/-- No worker is between test and wait. -/
def NoWorkerToWait (s : System F A) : Prop :=
  ∀ i : Nat, s.workers[i]? ≠ some Worker.toWait

/-- No call is between test and wait. -/
def NoCallToWait (s : System F A) : Prop :=
  ∀ (j : Nat) (task : ThreadpoolTask F A), s.calls[j]? ≠ some ⟨task, .toWait⟩

theorem LockHeld.free (h : LockHeld s) (hlock : s.lock = none) :
    NoWorkerToWait s ∧ NoCallToWait s := by
  constructor
  · intro i hi
    have hheld := (h.worker i hi).1
    rw [hlock] at hheld
    cases hheld
  · intro j task hj
    have hheld := h.call j task hj
    rw [hlock] at hheld
    cases hheld

theorem LockHeld.of_none (hw : NoWorkerToWait s) (hc : NoCallToWait s) : LockHeld s where
  worker i hi := absurd hi (hw i)
  call j task hj := absurd hj (hc j task)

/-- Steps that neither touch the lock nor the queue, and bring no thread to its wait. -/
theorem LockHeld.of_same (h : LockHeld s) (hlock : s'.lock = s.lock)
    (hsize : s'.pool.queueSize = s.pool.queueSize)
    (hw : ∀ i : Nat, s'.workers[i]? = some Worker.toWait → s.workers[i]? = some Worker.toWait)
    (hc : ∀ (j : Nat) (task : ThreadpoolTask F A), s'.calls[j]? = some ⟨task, .toWait⟩ →
      s.calls[j]? = some ⟨task, .toWait⟩) : LockHeld s' where
  worker i hi := by
    rw [hlock, hsize]
    exact h.worker i (hw i hi)
  call j task hj := by
    rw [hlock]
    exact h.call j task (hc j task hj)

theorem toWait_of_set {i k : Nat} {w : Worker F A} (hw : w ≠ .toWait)
    (h : (s.workers.set i w)[k]? = some Worker.toWait) : s.workers[k]? = some Worker.toWait := by
  rcases getElem?_set_cases h with ⟨-, heq⟩ | ⟨-, hk⟩
  · exact absurd heq.symm hw
  · exact hk

theorem callToWait_of_set {j k : Nat} {c : Call F A} {task : ThreadpoolTask F A}
    (hc : c.pc ≠ .toWait) (h : (s.calls.set j c)[k]? = some ⟨task, .toWait⟩) :
    s.calls[k]? = some ⟨task, .toWait⟩ := by
  rcases getElem?_set_cases h with ⟨-, heq⟩ | ⟨-, hk⟩
  · exact absurd (by rw [← heq]) hc
  · exact hk

theorem toWait_of_wake {ws : List (Worker F A)} {k : Nat}
    (hk : (ws.map Worker.wake)[k]? = some Worker.toWait) : ws[k]? = some Worker.toWait := by
  rw [List.getElem?_map] at hk
  obtain ⟨w, hw, heq⟩ := Option.map_eq_some_iff.mp hk
  cases w <;> cases heq
  exact hw

theorem callToWait_of_wake {k : Nat} {task : ThreadpoolTask F A}
    (h : (s.calls.map Call.wake)[k]? = some ⟨task, .toWait⟩) :
    s.calls[k]? = some ⟨task, .toWait⟩ := by
  rw [List.getElem?_map] at h
  obtain ⟨⟨task', pc⟩, hk, heq⟩ := Option.map_eq_some_iff.mp h
  cases pc <;> cases heq
  exact hk

theorem LockHeld.worker_step {i : Nat} (h : LockHeld s) (hstep : WorkerStep s i s') :
    LockHeld s' := by
  cases hstep with
  | sleeps w ht hempty =>
      obtain ⟨hw, hc⟩ := h.free ht.lock
      refine ⟨fun k hk => ?_, fun j task hj => absurd hj (hc j task)⟩
      -- the worker that has just found the queue empty holds the lock
      rcases getElem?_set_cases hk with ⟨rfl, -⟩ | ⟨-, hk⟩
      · exact ⟨rfl, hempty⟩
      · exact absurd hk (hw k)
  | quits w ht =>
      obtain ⟨hw, hc⟩ := h.free ht.lock
      exact .of_none (fun k hk => hw k (toWait_of_set (by simp) hk)) hc
  | takes w ht =>
      obtain ⟨hw, hc⟩ := h.free ht.lock
      exact .of_none (fun k hk => hw k (toWait_of_set (by simp) hk))
        fun j task hj => hc j task (callToWait_of_wake hj)
  | surplus hlock =>
      obtain ⟨hw, hc⟩ := h.free hlock
      exact .of_none (fun k hk => hw k (toWait_of_set (by simp) hk)) hc
  | waits hpc =>
      -- the holder was this worker, so nobody else is between test and wait
      have hheld := (h.worker i hpc).1
      refine .of_none (fun k hk => ?_) fun j task hj => ?_
      · rcases getElem?_set_cases hk with ⟨-, heq⟩ | ⟨hki, hk⟩
        · cases heq
        · have hother := (h.worker k hk).1
          rw [hheld] at hother
          cases hother
          exact hki rfl
      · have hother := h.call j task hj
        rw [hheld] at hother
        cases hother
  | begins => exact h.of_same rfl rfl (fun k hk => toWait_of_set (by simp) hk) fun _ _ hj => hj
  | finishes => exact h.of_same rfl rfl (fun k hk => toWait_of_set (by simp) hk) fun _ _ hj => hj
  | exits => exact h.of_same rfl rfl (fun k hk => toWait_of_set (by simp) hk) fun _ _ hj => hj

theorem LockHeld.caller_step {j : Nat} (h : LockHeld s) (hstep : CallerStep s j s') :
    LockHeld s' := by
  cases hstep with
  | blocks task he =>
      obtain ⟨hw, hc⟩ := h.free he.lock
      refine ⟨fun k hk => absurd hk (hw k), fun k task' hk => ?_⟩
      rcases getElem?_set_cases hk with ⟨rfl, -⟩ | ⟨-, hk⟩
      · rfl
      · exact absurd hk (hc k task')
  | rejects task he =>
      obtain ⟨hw, hc⟩ := h.free he.lock
      exact .of_none hw fun k task' hk => hc k task' (callToWait_of_set (by simp) hk)
  | enqueues task he =>
      obtain ⟨hw, hc⟩ := h.free he.lock
      exact .of_none hw fun k task' hk => hc k task' (callToWait_of_set (by simp) hk)
  | waits task hpc =>
      -- as for a worker: the holder was this call
      have hheld := h.call j task hpc
      refine .of_none (fun k hk => ?_) fun k task' hk => ?_
      · have hother := (h.worker k hk).1
        rw [hheld] at hother
        cases hother
      · rcases getElem?_set_cases hk with ⟨-, heq⟩ | ⟨hkj, hk⟩
        · cases heq
        · have hother := h.call k task' hk
          rw [hheld] at hother
          cases hother
          exact hkj rfl

theorem Signals.toWait {ws : List (Worker F A)} {k : Nat} (hs : Signals s ws)
    (h : ws[k]? = some Worker.toWait) : s.workers[k]? = some Worker.toWait := by
  cases hs with
  | wakes i hpc => exact toWait_of_set (by simp) h
  | lost => exact h

/-- A grow round brings nobody to a wait and does not touch the calls. -/
theorem growLoop_toWait (left i add : Nat) (hw : NoWorkerToWait s) (hc : NoCallToWait s) :
    NoWorkerToWait (growLoop left i add s) ∧ NoCallToWait (growLoop left i add s) := by
  refine growLoop_invariant (fun t => NoWorkerToWait t ∧ NoCallToWait t) ?_ left i add
    (le_refl (i + left)) ⟨hw, hc⟩
  -- a new thread is at the head of its loop
  intro t _ ht _ _ _
  refine ⟨fun k hk => ?_, ht.2⟩
  change (t.workers ++ [Worker.start])[k]? = some Worker.toWait at hk
  rw [List.getElem?_append] at hk
  split at hk
  · exact ht.1 k hk
  · have hmem := List.mem_singleton.mp (List.mem_of_getElem? hk)
    cases hmem

theorem LockHeld.admin_step (h : LockHeld s) (hstep : AdminStep s s') : LockHeld s' := by
  cases hstep with
  | grows q l b hpc hlock =>
      obtain ⟨hw, hc⟩ := h.free hlock
      obtain ⟨hw', hc'⟩ := growLoop_toWait s.pool.maxThrNum.toNat 0 0 hw hc
      exact .of_none hw' hc'
  | signals left ws hpc hs =>
      exact h.of_same rfl rfl (fun _ hk => hs.toWait hk) fun _ _ hj => hj
  | _ => exact h.of_same rfl rfl (fun _ hk => hk) fun _ _ hj => hj

theorem LockHeld.step (h : LockHeld s) (hstep : Step s a s') : LockHeld s' := by
  cases hstep with
  | worker i _ hw => exact h.worker_step hw
  | wakeWorker i hpc =>
      exact h.of_same rfl rfl (fun _ hk => toWait_of_set (by simp) hk) fun _ _ hj => hj
  | call function arg =>
      refine h.of_same rfl rfl (fun _ hk => hk) fun j task hj => ?_
      change (s.calls ++ [_])[j]? = _ at hj
      rw [List.getElem?_append] at hj
      split at hj
      · exact hj
      · have hmem := List.mem_singleton.mp (List.mem_of_getElem? hj)
        cases hmem
  | caller j _ hc => exact h.caller_step hc
  | callerSignal j pick task ws hpc hs =>
      exact h.of_same rfl rfl (fun _ hk => hs.toWait hk)
        fun _ _ hj => callToWait_of_set (by simp) hj
  | wakeCaller j task hpc =>
      exact h.of_same rfl rfl (fun _ hk => hk) fun _ _ hj => callToWait_of_set (by simp) hj
  | admin _ ha => exact h.admin_step ha
  | adminSignal pick _ ha => exact h.admin_step ha
  | destroy _ hd =>
      cases hd with
      | broadcasts =>
          exact h.of_same rfl rfl (fun _ hk => toWait_of_wake hk) fun _ _ hj => hj
      | _ => exact h.of_same rfl rfl (fun _ hk => hk) fun _ _ hj => hj

theorem threadpoolCreate_lockHeld (minThrNum maxThrNum queueMaxSize : Int)
    (heap : Int → ThreadpoolTask F A) :
    LockHeld (threadpoolCreate minThrNum maxThrNum queueMaxSize heap) := by
  refine .of_none (fun k hk => ?_) fun j task hj => by cases hj
  have hmem := List.eq_of_mem_replicate (List.mem_of_getElem? hk)
  cases hmem

end LockHeld

/-! ## The holder -/

/-- Who holds the lock is between test and wait. -/
structure LockOwner (s : System F A) : Prop where
  worker : ∀ i, s.lock = some (.worker i) → s.workers[i]? = some .toWait
  call : ∀ j, s.lock = some (.call j) → ∃ task, s.calls[j]? = some ⟨task, .toWait⟩

section LockOwner

variable {s s' : System F A} {a : Act F A}

theorem LockOwner.of_none (h : s.lock = none) : LockOwner s where
  worker i hi := by
    rw [h] at hi
    cases hi
  call j hj := by
    rw [h] at hj
    cases hj

/-- Steps that leave the lock and its holder alone. -/
theorem LockOwner.of_same (h : LockOwner s) (hlock : s'.lock = s.lock)
    (hw : ∀ i : Nat, s.workers[i]? = some Worker.toWait → s'.workers[i]? = some Worker.toWait)
    (hc : ∀ (j : Nat) (task : ThreadpoolTask F A), s.calls[j]? = some ⟨task, .toWait⟩ →
      s'.calls[j]? = some ⟨task, .toWait⟩) : LockOwner s' where
  worker i hi := hw i (h.worker i (hlock ▸ hi))
  call j hj := by
    obtain ⟨task, htask⟩ := h.call j (hlock ▸ hj)
    exact ⟨task, hc j task htask⟩

theorem Signals.toWait_kept {ws : List (Worker F A)} {k : Nat} (hs : Signals s ws)
    (h : s.workers[k]? = some Worker.toWait) : ws[k]? = some Worker.toWait := by
  cases hs with
  | wakes i hpc => exact getElem?_set_kept hpc (by simp) h
  | lost => exact h

theorem LockOwner.worker_step {i : Nat} (h : LockOwner s) (hstep : WorkerStep s i s') :
    LockOwner s' := by
  cases hstep with
  | sleeps w ht =>
      obtain ⟨b, hpc⟩ := ht.exists_worker
      refine ⟨fun k hk => ?_, fun j hj => by cases hj⟩
      cases hk
      exact getElem?_set_of_getElem? hpc
  | quits w ht => exact .of_none ht.lock
  | takes w ht => exact .of_none ht.lock
  | surplus hlock => exact .of_none hlock
  | waits => exact .of_none rfl
  | begins task hpc =>
      exact h.of_same rfl (fun _ hk => getElem?_set_kept hpc (by simp) hk) fun _ _ hj => hj
  | finishes task hpc =>
      exact h.of_same rfl (fun _ hk => getElem?_set_kept hpc (by simp) hk) fun _ _ hj => hj
  | exits b hpc =>
      exact h.of_same rfl (fun _ hk => getElem?_set_kept hpc (by simp) hk) fun _ _ hj => hj

/-- A call takes the lock, or leaves it free. -/
theorem CallerStep.lockOwner {j : Nat} (hstep : CallerStep s j s') : LockOwner s' := by
  cases hstep with
  | blocks task he =>
      obtain ⟨c, hpc⟩ := he.exists_call
      refine ⟨fun i hi => (by cases hi), fun k hk => ⟨task, ?_⟩⟩
      cases hk
      exact getElem?_set_of_getElem? hpc
  | rejects task he => exact .of_none he.lock
  | enqueues task he => exact .of_none he.lock
  | waits => exact .of_none rfl

/-- Only a grow round of the admin thread does more than wake a worker, and it needs the lock. -/
theorem AdminStep.lock (h : AdminStep s s') : s'.lock = s.lock := by
  cases h with
  | grows =>
      exact growLoop_invariant (fun t => t.lock = s.lock) (fun t i ht _ _ _ => ht) _ 0 0
        (le_refl (0 + s.pool.maxThrNum.toNat)) rfl
  | _ => rfl

theorem LockOwner.admin_step (h : LockOwner s) (hstep : AdminStep s s') : LockOwner s' := by
  have hsame := hstep.lock
  cases hstep with
  | grows q l b hpc hlock => exact .of_none (hsame.trans hlock)
  | signals left ws hpc hs =>
      exact h.of_same rfl (fun _ hk => hs.toWait_kept hk) fun _ _ hj => hj
  | _ => exact h.of_same rfl (fun _ hk => hk) fun _ _ hj => hj

theorem LockOwner.step (h : LockOwner s) (hstep : Step s a s') : LockOwner s' := by
  cases hstep with
  | worker i _ hw => exact h.worker_step hw
  | wakeWorker i hpc =>
      exact h.of_same rfl (fun _ hk => getElem?_set_kept hpc (by simp) hk) fun _ _ hj => hj
  | call function arg =>
      exact h.of_same rfl (fun _ hk => hk) fun j task hj =>
        (List.getElem?_append_left (List.getElem?_eq_some_iff.mp hj).1).trans hj
  | caller j _ hc => exact hc.lockOwner
  | callerSignal j pick task ws hpc hs =>
      exact h.of_same rfl (fun _ hk => hs.toWait_kept hk)
        fun _ _ hj => getElem?_set_kept hpc (by simp) hj
  | wakeCaller j task hpc =>
      exact h.of_same rfl (fun _ hk => hk) fun _ _ hj => getElem?_set_kept hpc (by simp) hj
  | admin _ ha => exact h.admin_step ha
  | adminSignal pick _ ha => exact h.admin_step ha
  | destroy _ hd =>
      cases hd with
      | broadcasts =>
          refine h.of_same rfl (fun k hk => ?_) fun _ _ hj => hj
          show (s.workers.map Worker.wake)[k]? = some Worker.toWait
          rw [List.getElem?_map, hk]
          rfl
      | _ => exact h.of_same rfl (fun _ hk => hk) fun _ _ hj => hj

end LockOwner

end SpeechStack
