import SpeechStack.Pool.Hand
import SpeechStack.Pool.Teardown

set_option autoImplicit false

/-! # The shutdown and the workers

`threadpool_destroy` sets `shutdown` and broadcasts on `queue_not_empty` without the lock. A
worker that has found `shutdown` unset and has not entered `pthread_cond_wait` yet misses the
broadcasts, and is joined for ever (`threadpool_destroy_loses_wakeup`). It has held the lock all
the time, so what counts is who does when the broadcasts begin (`threadpool_destroy_wakes`).
-/

namespace SpeechStack

variable {F A : Type}

/-! ## Behind the flag -/

section Behind

variable {s s' : System F A} {a : Act F A}

/-- Only `threadpool_destroy` moves `threadpool_destroy`. -/
theorem Step.destroy_eq (h : Step s a s') (ha : a ≠ .destroy) : s'.destroy = s.destroy := by
  cases h with
  | worker i _ hw => exact hw.others.1
  | caller j _ hc => cases hc <;> rfl
  | admin _ hadmin => exact hadmin.destroy
  | adminSignal pick _ hadmin => exact hadmin.destroy
  | destroy => exact absurd rfl ha
  | _ => rfl

theorem Step.shutdown (h : Step s a s') (hdown : s.pool.shutdown = true) :
    s'.pool.shutdown = true := by
  have hclosed : Closed s s' := Closed.step ⟨hdown, rfl, rfl⟩ h
  exact hclosed.down

/-- The flag is set from the first step of `threadpool_destroy` on. -/
theorem Step.down (h : Step s a s') (hdown : s.destroy ≠ .idle → s.pool.shutdown = true)
    (hd : s'.destroy ≠ .idle) : s'.pool.shutdown = true := by
  by_cases hidle : s.destroy = .idle
  · by_cases ha : a = .destroy
    · subst ha
      cases h with
      | destroy _ hdestroy =>
          cases hdestroy with
          | closes => rfl
          | _ => simp_all
    · exact absurd ((h.destroy_eq ha).trans hidle) hd
  · exact h.shutdown (hdown hidle)

/-- No worker goes back to its wait: one that waits has waited before, or was on its way. -/
structure Retreats (s s' : System F A) : Prop where
  toWait : ∀ k : Nat, s'.workers[k]? = some Worker.toWait → s.workers[k]? = some Worker.toWait
  waiting : ∀ k : Nat, s'.workers[k]? = some Worker.waiting →
    s.workers[k]? = some Worker.waiting ∨ s.workers[k]? = some Worker.toWait

theorem Retreats.of_same (h : s'.workers = s.workers) : Retreats s s' :=
  ⟨fun _ hk => h ▸ hk, fun _ hk => Or.inl (h ▸ hk)⟩

theorem Retreats.of_set {i : Nat} {w : Worker F A} (h : s'.workers = s.workers.set i w)
    (hto : w ≠ .toWait) (hwait : w = .waiting → s.workers[i]? = some Worker.toWait) :
    Retreats s s' where
  toWait k hk := by
    rw [h] at hk
    exact toWait_of_set hto hk
  waiting k hk := by
    rw [h] at hk
    rcases getElem?_set_cases hk with ⟨rfl, heq⟩ | ⟨-, hold⟩
    · exact Or.inr (hwait heq.symm)
    · exact Or.inl hold

theorem Retreats.of_signals {ws : List (Worker F A)} (hs : Signals s ws) (h : s'.workers = ws) :
    Retreats s s' := by
  cases hs with
  | wakes i hpc => exact .of_set h (by simp) (by simp)
  | lost => exact .of_same h

/-- A broadcast leaves nobody waiting. -/
theorem wake_ne_waiting (ws : List (Worker F A)) (k : Nat) :
    (ws.map Worker.wake)[k]? ≠ some Worker.waiting := by
  intro hk
  rw [List.getElem?_map] at hk
  obtain ⟨w, -, heq⟩ := Option.map_eq_some_iff.mp hk
  cases w <;> cases heq

theorem WorkerStep.retreats {i : Nat} (h : WorkerStep s i s') (hdown : s.pool.shutdown = true) :
    Retreats s s' := by
  cases h with
  | sleeps w ht hempty hopen =>
      rw [hdown] at hopen
      cases hopen
  | takes w ht hsize hopen =>
      rw [hdown] at hopen
      cases hopen
  | quits => exact .of_set rfl (by simp) (by simp)
  | surplus => exact .of_set rfl (by simp) (by simp)
  | waits hpc => exact .of_set rfl (by simp) fun _ => hpc
  | begins => exact .of_set rfl (by simp) (by simp)
  | finishes => exact .of_set rfl (by simp) (by simp)
  | exits => exact .of_set rfl (by simp) (by simp)

theorem DestroyStep.retreats (h : DestroyStep s s') : Retreats s s' := by
  cases h with
  | broadcasts i hpc =>
      exact ⟨fun k hk => toWait_of_wake hk, fun k hk => absurd hk (wake_ne_waiting _ k)⟩
  | _ => exact .of_same rfl

/-- After the shutdown, and with the admin thread gone. -/
theorem Step.retreats (h : Step s a s') (hdown : s.pool.shutdown = true)
    (hended : s.admin = .ended) : Retreats s s' := by
  cases h with
  | worker i _ hw => exact hw.retreats hdown
  | wakeWorker i hpc => exact .of_set rfl (by simp) (by simp)
  | caller j _ hc => cases hc <;> exact .of_same rfl
  | callerSignal j pick task ws hpc hs => exact .of_signals hs rfl
  | admin _ ha => exact absurd hended ha.ne_ended
  | adminSignal pick _ ha => exact absurd hended ha.ne_ended
  | destroy _ hd => exact hd.retreats
  | _ => exact .of_same rfl

/-- With the admin thread gone, no thread is created, and none is counted in. -/
theorem Step.slots_kept (h : Step s a s') (hended : s.admin = .ended) :
    s'.pool.threads = s.pool.threads ∧ s'.pool.liveThrNum ≤ s.pool.liveThrNum ∧
      s'.admin = .ended := by
  cases h with
  | worker i _ hw =>
      cases hw with
      | surplus =>
          refine ⟨rfl, ?_, hended⟩
          show s.pool.liveThrNum - 1 ≤ s.pool.liveThrNum
          omega
      | _ => exact ⟨rfl, le_rfl, hended⟩
  | caller j _ hc => cases hc <;> exact ⟨rfl, le_rfl, hended⟩
  | admin _ ha => exact absurd hended ha.ne_ended
  | adminSignal pick _ ha => exact absurd hended ha.ne_ended
  | destroy _ hd => cases hd <;> exact ⟨rfl, le_rfl, hended⟩
  | _ => exact ⟨rfl, le_rfl, hended⟩

end Behind

/-! ## Workers that miss the broadcasts -/

/-- No broadcast is left, and slot `k` is one that is still to be joined. -/
def System.AboutToJoin (s : System F A) (k : Nat) : Prop :=
  match s.destroy with
  | .testBroadcast i => s.pool.liveThrNum ≤ i ∧ (k : Int) < s.pool.liveThrNum
  | .testJoin i => i ≤ k ∧ (k : Int) < s.pool.liveThrNum
  | .join i => k = i ∨ i < k ∧ (k : Int) < s.pool.liveThrNum
  | _ => False

/-- `threadpool_destroy` is past its last broadcast and about to join a worker that waits. -/
def System.LostWakeup (s : System F A) : Prop :=
  s.pool.shutdown = true ∧ ∃ k tid, s.AboutToJoin k ∧ s.pool.threads k = some tid ∧
    s.workers[tid]? = some .waiting

/-- When `threadpool_destroy` has joined the admin thread and turns to its broadcasts, no worker
that it will join is between its test and its wait. -/
def Settles (s : System F A) : Act F A → Prop
  | .destroy => s.destroy = .joinAdmin → ∀ k, k < s.pool.liveThrNum.toNat →
      ∀ tid ∈ s.pool.threads k, s.workers[tid]? ≠ some .toWait
  | _ => True

instance [DecidableEq F] [DecidableEq A] (s : System F A) : ∀ a, Decidable (Settles s a)
  | .destroy => inferInstanceAs (Decidable (s.destroy = .joinAdmin →
      ∀ k, k < s.pool.liveThrNum.toNat →
        ∀ tid ∈ s.pool.threads k, s.workers[tid]? ≠ some .toWait))
  | .worker _ => isTrue trivial
  | .wakeWorker _ => isTrue trivial
  | .call _ _ => isTrue trivial
  | .caller _ => isTrue trivial
  | .callerSignal _ _ => isTrue trivial
  | .wakeCaller _ => isTrue trivial
  | .admin => isTrue trivial
  | .adminSignal _ => isTrue trivial

/-- A broadcast has been made, or none was due. -/
def Destroy.hasBroadcast : Destroy → Bool
  | .testBroadcast i => i ≠ 0
  | .broadcast i => i ≠ 0
  | .idle => false
  | .joinAdmin => false
  | _ => true

/-- The worker in slot `k` is joined next or may be joined later. -/
def System.MayJoin (s : System F A) (k : Nat) : Prop :=
  (k : Int) < s.pool.liveThrNum ∨ s.destroy = .join k

/-- Where the workers are that `threadpool_destroy` may join. -/
structure Roused (s : System F A) : Prop where
  down : s.destroy ≠ .idle → s.pool.shutdown = true
  ended : s.destroy.adminGone = true → s.admin = .ended
  settled : s.destroy.adminGone = true → ∀ k tid, s.MayJoin k → s.pool.threads k = some tid →
    s.workers[tid]? ≠ some .toWait
  roused : s.destroy.hasBroadcast = true → ∀ k tid, s.MayJoin k → s.pool.threads k = some tid →
    s.workers[tid]? ≠ some .waiting

section Roused

variable {s s' : System F A} {a : Act F A}

theorem Destroy.adminGone_of_hasBroadcast {d : Destroy} (h : d.hasBroadcast = true) :
    d.adminGone = true := by
  cases d <;> first | rfl | cases h

theorem Roused.not_lostWakeup (h : Roused s) : ¬ s.LostWakeup := by
  rintro ⟨-, k, tid, hjoin, htid, hwait⟩
  cases hd : s.destroy with
  | testBroadcast i =>
      simp only [System.AboutToJoin, hd] at hjoin
      -- at the first test there is nobody to join
      refine h.roused ?_ k tid (Or.inl hjoin.2) htid hwait
      rw [hd]
      show decide (i ≠ 0) = true
      rw [decide_eq_true_iff]
      omega
  | testJoin i =>
      simp only [System.AboutToJoin, hd] at hjoin
      exact h.roused (by rw [hd]; rfl) k tid (Or.inl hjoin.2) htid hwait
  | join i =>
      simp only [System.AboutToJoin, hd] at hjoin
      refine h.roused (by rw [hd]; rfl) k tid ?_ htid hwait
      rcases hjoin with rfl | ⟨-, hlt⟩
      · exact Or.inr hd
      · exact Or.inl hlt
  | _ => simp [System.AboutToJoin, hd] at hjoin

/-- Before the broadcasts. -/
theorem Roused.of_early (hdown : s.destroy ≠ .idle → s.pool.shutdown = true)
    (hd : s.destroy.adminGone = false) : Roused s where
  down := hdown
  ended hgone := absurd (hd.symm.trans hgone) Bool.false_ne_true
  settled hgone := absurd (hd.symm.trans hgone) Bool.false_ne_true
  roused hcast :=
    absurd (hd.symm.trans (Destroy.adminGone_of_hasBroadcast hcast)) Bool.false_ne_true

/-- Behind the join of the admin thread a step keeps what is known of the slots that it does not
add, and of those that have been broadcast to. -/
theorem Roused.of_step (h : Roused s) (hgone : s.destroy.adminGone = true) (hstep : Step s a s')
    (hjoin : ∀ k, s'.MayJoin k → s.MayJoin k)
    (hcast : s'.destroy.hasBroadcast = true → s.destroy.hasBroadcast = true ∨
      (∀ k, ¬ s'.MayJoin k) ∨ ∀ tid : Nat, s'.workers[tid]? ≠ some Worker.waiting) : Roused s' := by
  have hdown : s.pool.shutdown = true := h.down fun hidle => by rw [hidle] at hgone; cases hgone
  obtain ⟨hthreads, -, hended⟩ := hstep.slots_kept (h.ended hgone)
  have hretreats := hstep.retreats hdown (h.ended hgone)
  refine ⟨fun _ => hstep.shutdown hdown, fun _ => hended, ?_, ?_⟩
  · intro _ k tid hk htid hto
    rw [hthreads] at htid
    exact h.settled hgone k tid (hjoin k hk) htid (hretreats.toWait tid hto)
  · intro hb k tid hk htid hwait
    rw [hthreads] at htid
    rcases hcast hb with hold | hnobody | hawake
    · rcases hretreats.waiting tid hwait with hwaited | hto
      · exact h.roused hold k tid (hjoin k hk) htid hwaited
      · exact h.settled hgone k tid (hjoin k hk) htid hto
    · exact hnobody k hk
    · exact hawake tid hwait

/-- Nobody is joined that could not be joined before, unless a join is about to begin. -/
theorem mayJoin_of_not_join (hlive : s'.pool.liveThrNum ≤ s.pool.liveThrNum)
    (hno : ∀ k, s'.destroy ≠ .join k) (k : Nat) (hk : s'.MayJoin k) : s.MayJoin k := by
  rcases hk with hlt | heq
  · exact Or.inl (by omega)
  · exact absurd heq (hno k)

theorem Roused.destroy (h : Roused s) (hgone : s.destroy.adminGone = true)
    (hstep : DestroyStep s s') : Roused s' := by
  have hd : Step s .destroy s' := .destroy s' hstep
  cases hstep with
  | closes hpc => simp [hpc, Destroy.adminGone] at hgone
  | joinsAdmin hpc => simp [hpc, Destroy.adminGone] at hgone
  | broadcastNext i hpc =>
      exact h.of_step hgone hd (mayJoin_of_not_join le_rfl (by simp))
        fun hb => Or.inl (by rw [hpc]; exact hb)
  | broadcastEnd i hpc hge =>
      refine h.of_step hgone hd (mayJoin_of_not_join le_rfl (by simp)) fun _ => ?_
      by_cases hi : i = 0
      · -- no broadcast, and nobody to join
        refine Or.inr (Or.inl ?_)
        rintro k (hlt | heq)
        · change (k : Int) < s.pool.liveThrNum at hlt
          omega
        · cases heq
      · refine Or.inl ?_
        rw [hpc]
        exact decide_eq_true hi
  | broadcasts i hpc =>
      exact h.of_step hgone hd (mayJoin_of_not_join le_rfl (by simp))
        fun _ => Or.inr (Or.inr (wake_ne_waiting s.workers))
  | joinNext i hpc hlt =>
      -- the slot to be joined is one of those below `live_thr_num`
      refine h.of_step hgone hd ?_ fun _ => Or.inl (by rw [hpc]; rfl)
      rintro k (hk | heq)
      · exact Or.inl hk
      · cases heq
        exact Or.inl hlt
  | joinEnd i hpc =>
      exact h.of_step hgone hd (mayJoin_of_not_join le_rfl (by simp))
        fun _ => Or.inl (by rw [hpc]; rfl)
  | joins i hpc =>
      exact h.of_step hgone hd (mayJoin_of_not_join le_rfl (by simp))
        fun _ => Or.inl (by rw [hpc]; rfl)
  | frees hpc =>
      exact h.of_step hgone hd (mayJoin_of_not_join le_rfl (by simp))
        fun _ => Or.inl (by rw [hpc]; rfl)

theorem Roused.step (h : Roused s) (hsettles : Settles s a) (hstep : Step s a s') :
    Roused s' := by
  have hdown' := hstep.down h.down
  cases hgone : s.destroy.adminGone with
  | false =>
      by_cases ha : a = .destroy
      · subst ha
        cases hstep with
        | destroy _ hd =>
            cases hd with
            | closes => exact .of_early hdown' rfl
            | joinsAdmin hpc hended =>
                -- here the condition speaks of the workers on their way into the wait
                refine ⟨hdown', fun _ => hended, ?_, fun hb => ?_⟩
                · intro _ k tid hk htid
                  rcases hk with hlt | heq
                  · change (k : Int) < s.pool.liveThrNum at hlt
                    exact hsettles hpc k (by omega) tid htid
                  · cases heq
                · cases hb
            | _ => simp_all [Destroy.adminGone]
      · have heq := hstep.destroy_eq ha
        exact .of_early hdown' (heq.symm ▸ hgone)
  | true =>
      by_cases ha : a = .destroy
      · subst ha
        cases hstep with
        | destroy _ hd => exact h.destroy hgone hd
      · have heq := hstep.destroy_eq ha
        obtain ⟨-, hlive, -⟩ := hstep.slots_kept (h.ended hgone)
        refine h.of_step hgone hstep ?_ fun hb => Or.inl (heq ▸ hb)
        rintro k (hlt | hk)
        · exact Or.inl (by omega)
        · exact Or.inr (heq ▸ hk)

end Roused

/-! ### The broadcast loop -/

section Broadcasts

variable {u : System F A}

theorem Worker.wake_wake (w : Worker F A) : w.wake.wake = w.wake := by cases w <;> rfl

/-- The broadcast loop can run to its end before any other thread moves. -/
theorem reaches_testJoin (n : Nat) {i : Nat} (hd : u.destroy = .testBroadcast i)
    (hn : u.pool.liveThrNum ≤ i + n) :
    ∃ ws, (ws = u.workers ∨ ws = u.workers.map Worker.wake) ∧
      Machine.Reaches System.step u { u with workers := ws, destroy := .testJoin 0 } := by
  induction n generalizing i u with
  | zero =>
      have hge : ¬ (i : Int) < u.pool.liveThrNum := by omega
      refine ⟨u.workers, Or.inl rfl, (Machine.Reaches.refl _ u).step (a := .destroy) ?_⟩
      simp only [System.step, threadpoolDestroy, hd, if_neg hge]
  | succ n ih =>
      by_cases hlt : (i : Int) < u.pool.liveThrNum
      · -- one more broadcast, and the rest of the loop
        have htest : u.step .destroy = some { u with destroy := .broadcast i } := by
          simp only [System.step, threadpoolDestroy, hd, if_pos hlt]
        have hcast : System.step { u with destroy := .broadcast i } .destroy = some { u with
            workers := u.workers.map Worker.wake, destroy := .testBroadcast (i + 1) } := rfl
        obtain ⟨ws, hws, hreach⟩ := ih (u := { u with
          workers := u.workers.map Worker.wake, destroy := .testBroadcast (i + 1) }) rfl
          (by push_cast; push_cast at hn; omega)
        refine ⟨ws, Or.inr ?_,
          (((Machine.Reaches.refl _ u).step htest).step hcast).trans hreach⟩
        rcases hws with rfl | rfl
        · rfl
        · rw [List.map_map]
          congr 1
          funext w
          exact w.wake_wake
      · refine ⟨u.workers, Or.inl rfl, (Machine.Reaches.refl _ u).step (a := .destroy) ?_⟩
        simp only [System.step, threadpoolDestroy, hd, if_neg hlt]

/-- A worker on its way into the wait sleeps through the broadcasts. -/
theorem lostWakeup_of_toWait {k tid : Nat} (hd : u.destroy = .testBroadcast 0)
    (hdown : u.pool.shutdown = true) (hk : (k : Int) < u.pool.liveThrNum)
    (htid : u.pool.threads k = some tid) (hto : u.workers[tid]? = some .toWait) :
    ∃ t, Machine.Reaches System.step u t ∧ t.LostWakeup := by
  obtain ⟨ws, hws, hreach⟩ := reaches_testJoin u.pool.liveThrNum.toNat hd (by omega)
  -- it is where it was
  have hto' : ws[tid]? = some .toWait := by
    rcases hws with rfl | rfl
    · exact hto
    · rw [List.getElem?_map, hto]
      rfl
  have hwaits : System.step { u with workers := ws, destroy := .testJoin 0 } (.worker tid)
      = some { u with lock := none, workers := ws.set tid .waiting, destroy := .testJoin 0 } := by
    simp only [System.step, threadpoolThread, hto']
  refine ⟨_, hreach.step hwaits, hdown, k, tid, ⟨Nat.zero_le k, hk⟩, htid, ?_⟩
  exact getElem?_set_of_getElem? hto'

end Broadcasts

theorem threadpool_shutdown_of_destroy {minThrNum maxThrNum queueMaxSize : Int}
    {heap : Int → ThreadpoolTask F A} {s : System F A}
    (hs : Machine.Reaches System.step (threadpoolCreate minThrNum maxThrNum queueMaxSize heap) s)
    (hd : s.destroy ≠ .idle) : s.pool.shutdown = true := by
  exact hs.invariant (fun s => s.destroy ≠ .idle → s.pool.shutdown = true)
    (fun s a s' h hstep => (System.step_cases hstep).down h) (fun hne => absurd rfl hne) hd

/-- **Shutdown and the workers.** In a run in which no worker is between its test and its wait
when `threadpool_destroy` turns to its broadcasts, no wakeup is lost. Where one is, and it will be
joined, the run can go on to where it waits for ever. -/
theorem threadpool_destroy_wakes (minThrNum maxThrNum queueMaxSize : Int)
    (heap : Int → ThreadpoolTask F A) :
    (∀ as s, Machine.run System.step
        (threadpoolCreate minThrNum maxThrNum queueMaxSize heap) as = some s →
      Machine.Meets System.step Settles
        (threadpoolCreate minThrNum maxThrNum queueMaxSize heap) as → ¬ s.LostWakeup) ∧
    (∀ s a s', Machine.Reaches System.step
        (threadpoolCreate minThrNum maxThrNum queueMaxSize heap) s → s.step a = some s' →
      ¬ Settles s a → ∃ t, Machine.Reaches System.step s' t ∧ t.LostWakeup) := by
  constructor
  · intro as s hrun hsettles
    have h : Roused s := Machine.run_invariant_of_meets Roused
      (fun s a s' h hC hstep => h.step hC (System.step_cases hstep))
      (.of_early (fun hne => absurd rfl hne) rfl) hsettles hrun
    exact h.not_lostWakeup
  · intro s a s' hs hstep hnot
    cases a with
    | destroy =>
        simp only [Settles, not_forall, not_not] at hnot
        obtain ⟨hpc, k, hk, tid, htid, hto⟩ := hnot
        have hdown := threadpool_shutdown_of_destroy hs (by rw [hpc]; simp)
        cases System.step_cases hstep with
        | destroy _ hd =>
            cases hd with
            | joinsAdmin =>
                have hlt : (k : Int) < s.pool.liveThrNum := by omega
                exact lostWakeup_of_toWait rfl hdown hlt htid hto
            | _ => simp_all
    | _ => exact absurd trivial hnot

/-- The worker of a pool of one is on its way into the wait while `threadpool_destroy` sets
`shutdown`, joins the admin thread and broadcasts. It waits, and is joined. -/
def missRun : List (Act Unit Unit) :=
  [Act.worker 0, .destroy, .admin] ++ List.replicate 4 Act.destroy ++ [Act.worker 0, .destroy]

theorem threadpool_destroy_loses_wakeup :
    ∃ s, Machine.Reaches System.step (threadpoolCreate 1 1 16 fun _ => ⟨(), none⟩) s ∧
      s.destroy = .join 0 ∧ s.workers = [Worker.waiting (F := Unit) (A := Unit)] ∧
      s.calls = [] ∧ s.LostWakeup := by
  have hrun : (Machine.run System.step (threadpoolCreate 1 1 16 fun _ => ⟨(), none⟩)
      missRun).map (fun s => (s.destroy, s.workers, s.calls.isEmpty, s.pool.shutdown,
        s.pool.threads 0)) = some (.join 0, [.waiting], true, true, some 0) := by decide
  obtain ⟨s, hs, heq⟩ := Option.map_eq_some_iff.mp hrun
  simp only [Prod.mk.injEq] at heq
  obtain ⟨hd, hworkers, hcalls, hdown, hthreads⟩ := heq
  refine ⟨s, ⟨missRun, hs⟩, hd, hworkers, List.isEmpty_iff.mp hcalls, hdown, 0, 0, ?_, hthreads,
    ?_⟩
  · simp only [System.AboutToJoin, hd, true_or]
  · rw [hworkers]
    rfl

/-- The teardown of the pool of `growRound` meets the condition. -/
theorem threadpool_destroy_wakes_closeRun :
    ∃ s, Machine.run System.step (threadpoolCreate 1 2 16 fun _ => ⟨(), none⟩) closeRun = some s ∧
      ¬ s.LostWakeup := by
  obtain ⟨s, hs⟩ : ∃ s, Machine.run System.step (threadpoolCreate 1 2 16 fun _ => ⟨(), none⟩)
      closeRun = some s := Option.isSome_iff_exists.mp (by decide)
  exact ⟨s, hs, (threadpool_destroy_wakes 1 2 16 _).1 closeRun s hs (by decide)⟩

end SpeechStack
