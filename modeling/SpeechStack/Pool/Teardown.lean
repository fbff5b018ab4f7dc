import SpeechStack.Pool.Wakeup

set_option autoImplicit false

/-! # Teardown

`threadpool_destroy` joins the threads in the slots `0`, …, `live_thr_num - 1`. After a shrink
the threads that are left need not be in these slots, and `live_thr_num` may go down while the
loop runs: then the pool is freed under a worker (`threadpool_destroy_frees_early`). When all
threads are in these slots and none leaves as surplus any more, every thread is joined
(`threadpool_destroy_safe`).
-/

namespace SpeechStack

variable {F A : Type}

/-- The slots below this one have been joined. -/
def Destroy.joined : Destroy → Option Nat
  | .testJoin i => some i
  | .join i => some i
  | _ => none

/-- The admin thread has been joined. -/
def Destroy.adminGone : Destroy → Bool
  | .idle => false
  | .joinAdmin => false
  | _ => true

/-- Every thread that is still there is in a slot below `live_thr_num`. -/
def System.Covered (s : System F A) : Prop :=
  ∀ k, k < s.pool.maxThrNum.toNat → slotFree s k = false → (k : Int) < s.pool.liveThrNum

instance (s : System F A) : Decidable s.Covered :=
  inferInstanceAs (Decidable (∀ k, k < s.pool.maxThrNum.toNat →
    slotFree s k = false → (k : Int) < s.pool.liveThrNum))

/-- The next step of `threadpool_destroy` goes from the broadcasts to the join loop. -/
def System.entersJoin (s : System F A) : Bool :=
  match s.destroy with
  | .testBroadcast i => decide (s.pool.liveThrNum ≤ i)
  | _ => false

/-- In this step the join loop does not start with a thread in a slot behind its end, and no
worker leaves as surplus while it runs. -/
def Covers (s : System F A) : Act F A → Prop
  | .destroy => s.entersJoin = true → s.Covered
  | .worker i => s.destroy.joined ≠ none → s.workers[i]? = some .woken →
      0 < s.pool.waitExitThrNum → s.pool.liveThrNum ≤ s.pool.minThrNum
  | _ => True

instance [DecidableEq F] [DecidableEq A] (s : System F A) : ∀ a, Decidable (Covers s a)
  | .destroy => inferInstanceAs (Decidable (s.entersJoin = true → s.Covered))
  | .worker i => inferInstanceAs (Decidable (s.destroy.joined ≠ none →
      s.workers[i]? = some .woken → 0 < s.pool.waitExitThrNum →
        s.pool.liveThrNum ≤ s.pool.minThrNum))
  | .wakeWorker _ => isTrue trivial
  | .call _ _ => isTrue trivial
  | .caller _ => isTrue trivial
  | .callerSignal _ _ => isTrue trivial
  | .wakeCaller _ => isTrue trivial
  | .admin => isTrue trivial
  | .adminSignal _ => isTrue trivial

/-- How far the teardown has come. -/
structure TearsDown (s : System F A) : Prop where
  ended : s.destroy.adminGone = true → s.admin = .ended
  covered : s.destroy.joined ≠ none → s.Covered
  joined : ∀ i, s.destroy.joined = some i → ∀ k, k < i → slotFree s k = true
  finished : s.destroy = .free ∨ s.destroy = .freed → ∀ w ∈ s.workers, w.isAlive = false

section TearsDown

variable {s s' : System F A} {a : Act F A}

theorem slotFree_iff {k : Nat} (hslots : Slots s) :
    slotFree s k = true ↔ ∀ tid w, s.pool.threads k = some tid → s.workers[tid]? = some w →
      w.isAlive = false := by
  constructor
  · exact fun h tid w hk hw => slotFree_dead h hk hw
  · intro h
    rw [slotFree]
    split
    · rename_i tid hk
      obtain ⟨w, hw⟩ : ∃ w, s.workers[tid]? = some w :=
        ⟨_, List.getElem?_eq_getElem (hslots.bound k tid hk).2⟩
      rw [isThreadAlive_eq hw, h tid w hk hw]
      rfl
    · rfl

/-- Steps that bring no thread back, create none and count none off. -/
theorem TearsDown.of_alive (h : TearsDown s) (hslots : Slots s) (hslots' : Slots s')
    (hthreads : s'.pool.threads = s.pool.threads) (hmax : s'.pool.maxThrNum = s.pool.maxThrNum)
    (hlive : s.destroy.joined ≠ none → s'.pool.liveThrNum = s.pool.liveThrNum)
    (hdestroy : s'.destroy = s.destroy) (hadmin : s.admin = .ended → s'.admin = .ended)
    (halive : ∀ (tid : Nat) (w' : Worker F A), s'.workers[tid]? = some w' → w'.isAlive = true →
      ∃ w, s.workers[tid]? = some w ∧ w.isAlive = true) : TearsDown s' := by
  -- a slot whose thread is gone stays so
  have hfree : ∀ k, slotFree s k = true → slotFree s' k = true := by
    intro k hk
    rw [slotFree_iff hslots'] at ⊢
    intro tid w' htid hw'
    by_contra hlive'
    obtain ⟨w, hw, hwlive⟩ := halive tid w' hw' (by simpa using hlive')
    rw [(slotFree_iff hslots).mp hk tid w (hthreads ▸ htid) hw] at hwlive
    cases hwlive
  refine ⟨fun hgone => hadmin (h.ended (hdestroy ▸ hgone)), fun hj k hk hheld => ?_,
    fun i hi k hk => hfree k (h.joined i (hdestroy ▸ hi) k hk), fun hdone w' hw' => ?_⟩
  · rw [hdestroy] at hj
    rw [hlive hj]
    refine h.covered hj k (hmax ▸ hk) ?_
    by_contra hno
    rw [hfree k (by simpa using hno)] at hheld
    cases hheld
  · obtain ⟨tid, htid⟩ := List.mem_iff_getElem?.mp hw'
    by_contra hlive'
    obtain ⟨w, hw, hwlive⟩ := halive tid w' htid (by simpa using hlive')
    rw [h.finished (hdestroy ▸ hdone) w (List.mem_of_getElem? hw)] at hwlive
    cases hwlive

theorem TearsDown.of_same (h : TearsDown s) (hslots : Slots s) (hslots' : Slots s')
    (hpool : s'.pool.threads = s.pool.threads ∧ s'.pool.maxThrNum = s.pool.maxThrNum ∧
      s'.pool.liveThrNum = s.pool.liveThrNum)
    (hworkers : s'.workers = s.workers) (hdestroy : s'.destroy = s.destroy)
    (hadmin : s'.admin = s.admin) : TearsDown s' :=
  h.of_alive hslots hslots' hpool.1 hpool.2.1 (fun _ => hpool.2.2) hdestroy
    (fun hended => hadmin.trans hended) fun _ w hw hlive => ⟨w, hworkers ▸ hw, hlive⟩

/-- What a step does to one worker: at most, it is no longer there. -/
theorem TearsDown.moves {i : Nat} {b w : Worker F A} (h : TearsDown s) (hslots : Slots s)
    (hm : Moves s s' i b w) (hlive : s.destroy.joined ≠ none →
      s'.pool.liveThrNum = s.pool.liveThrNum)
    (hdestroy : s'.destroy = s.destroy) (hadmin : s'.admin = s.admin) : TearsDown s' := by
  refine h.of_alive hslots (hslots.moves hm) hm.threads hm.maxThrNum hlive hdestroy
    (fun hended => hadmin.trans hended) fun tid w' hw' hlive' => ?_
  rw [hm.after] at hw'
  rcases getElem?_set_cases hw' with ⟨rfl, -⟩ | ⟨-, hk⟩
  · exact ⟨b, hm.before, hm.alive⟩
  · exact ⟨w', hk, hlive'⟩

/-- Only a surplus worker changes `live_thr_num`. -/
theorem WorkerStep.live {i : Nat} (hstep : WorkerStep s i s') :
    s'.pool.liveThrNum = s.pool.liveThrNum ∨
      s.workers[i]? = some .woken ∧ 0 < s.pool.waitExitThrNum ∧
        s.pool.minThrNum < s.pool.liveThrNum := by
  cases hstep with
  | surplus hlock hpc hpos hmin => exact Or.inr ⟨hpc, hpos, hmin⟩
  | _ => exact Or.inl rfl

theorem WorkerStep.others {i : Nat} (hstep : WorkerStep s i s') :
    s'.destroy = s.destroy ∧ s'.admin = s.admin := by
  cases hstep <;> exact ⟨rfl, rfl⟩

theorem TearsDown.worker {i : Nat} (h : TearsDown s) (hslots : Slots s)
    (hcovers : Covers s (.worker i)) (hstep : WorkerStep s i s') : TearsDown s' := by
  obtain ⟨b, w, hm⟩ := hstep.moves
  refine h.moves hslots hm (fun hj => ?_) hstep.others.1 hstep.others.2
  rcases hstep.live with heq | ⟨hpc, hpos, hmin⟩
  · exact heq
  · -- no surplus worker while the join loop runs
    have := hcovers hj hpc hpos
    omega

/-- Before the join loop there is only the admin thread to speak of. -/
theorem TearsDown.of_early (hended : s.destroy.adminGone = true → s.admin = .ended)
    (hj : s.destroy.joined = none) (hfree : s.destroy ≠ .free) (hfreed : s.destroy ≠ .freed) :
    TearsDown s where
  ended := hended
  covered hne := absurd hj hne
  joined i hi := by
    rw [hj] at hi
    cases hi
  finished hdone := absurd hdone (by rw [not_or]; exact ⟨hfree, hfreed⟩)

theorem TearsDown.of_open (h : s.destroy.adminGone = false) : TearsDown s := by
  refine .of_early (fun hgone => absurd (h.symm.trans hgone) Bool.false_ne_true) ?_ ?_ ?_
  · cases hd : s.destroy <;> first | rfl | (rw [hd] at h; cases h)
  · rintro hd
    rw [hd] at h
    cases h
  · rintro hd
    rw [hd] at h
    cases h

theorem AdminStep.ne_ended (hstep : AdminStep s s') : s.admin ≠ .ended := by
  intro hended
  cases hstep <;> simp [hended] at *

theorem AdminStep.destroy (hstep : AdminStep s s') : s'.destroy = s.destroy := by
  cases hstep with
  | grows =>
      exact growLoop_invariant (fun t => t.destroy = s.destroy) (fun t i ht _ _ _ => ht)
        _ 0 0 (le_refl (0 + s.pool.maxThrNum.toNat)) rfl
  | _ => rfl

/-- Once it has been joined, the admin thread takes no step. -/
theorem TearsDown.admin (h : TearsDown s) (hstep : AdminStep s s') : TearsDown s' := by
  -- so `threadpool_destroy` has not joined it yet
  refine .of_open ?_
  rw [hstep.destroy]
  by_contra hgone
  exact hstep.ne_ended (h.ended (by simpa using hgone))

theorem TearsDown.destroy (h : TearsDown s) (hslots : Slots s) (hcovers : Covers s .destroy)
    (hstep : DestroyStep s s') : TearsDown s' := by
  have hslots' : Slots s' := hslots.step (.destroy s' hstep)
  cases hstep with
  | closes => exact .of_open rfl
  | joinsAdmin hpc hended => exact .of_early (fun _ => hended) rfl (by simp) (by simp)
  | broadcastNext i hpc =>
      exact .of_early (fun _ => h.ended (by rw [hpc]; rfl)) rfl (by simp) (by simp)
  | broadcasts i hpc =>
      exact .of_early (fun _ => h.ended (by rw [hpc]; rfl)) rfl (by simp) (by simp)
  | broadcastEnd i hpc hge =>
      -- the join loop starts: here the condition says that the slots are covered
      have henters : s.entersJoin = true := by
        rw [System.entersJoin, hpc]
        exact decide_eq_true hge
      refine ⟨fun _ => h.ended (by rw [hpc]; rfl), fun _ => hcovers henters, fun j hj k hk => ?_,
        fun hdone => absurd hdone (by simp)⟩
      cases hj
      exact absurd hk (Nat.not_lt_zero k)
  | joinNext i hpc =>
      exact ⟨fun _ => h.ended (by rw [hpc]; rfl),
        fun _ => h.covered (by rw [hpc]; exact Option.some_ne_none i),
        fun j hj => h.joined j (by rw [hpc]; exact hj), fun hdone => absurd hdone (by simp)⟩
  | joins i hpc hgone =>
      refine ⟨fun _ => h.ended (by rw [hpc]; rfl),
        fun _ => h.covered (by rw [hpc]; exact Option.some_ne_none i), fun j hj k hk => ?_,
        fun hdone => absurd hdone (by simp)⟩
      cases hj
      show slotFree s k = true
      -- the slot that has just been joined, or one before
      by_cases hki : k = i
      · rw [hki, slotFree_iff hslots]
        intro tid w htid hw
        rw [← isThreadAlive_eq hw]
        exact hgone tid htid
      · exact h.joined i (by rw [hpc]; rfl) k (by omega)
  | joinEnd i hpc hge =>
      refine ⟨fun _ => h.ended (by rw [hpc]; rfl), fun hj => absurd rfl hj,
        fun j hj => (by cases hj), fun _ w hw => ?_⟩
      -- a thread that is still there would be in a slot that has been joined
      obtain ⟨tid, htid⟩ := List.mem_iff_getElem?.mp hw
      by_contra hlive
      obtain ⟨k, hk⟩ := hslots.owned tid w htid (by simpa using hlive)
      have hheld : slotFree s k = false := by
        by_contra hfree
        exact hlive ((slotFree_iff hslots).mp (by simpa using hfree) tid w hk htid)
      have hmax := (hslots.bound k tid hk).1
      have hlt := h.covered (by rw [hpc]; exact Option.some_ne_none i) k (by omega) hheld
      rw [h.joined i (by rw [hpc]; rfl) k (by omega)] at hheld
      cases hheld
  | frees hpc =>
      exact ⟨fun _ => h.ended (by rw [hpc]; rfl), fun hj => absurd rfl hj,
        fun j hj => (by cases hj), fun _ => h.finished (Or.inl hpc)⟩

theorem TearsDown.step (h : TearsDown s) (hslots : Slots s) (hcovers : Covers s a)
    (hstep : Step s a s') : TearsDown s' := by
  have hslots' : Slots s' := hslots.step hstep
  cases hstep with
  | worker i _ hw => exact h.worker hslots hcovers hw
  | wakeWorker i hpc =>
      exact h.moves hslots (Moves.of_wake hpc rfl rfl) (fun _ => rfl) rfl rfl
  | caller j _ hc =>
      cases hc <;> exact h.of_same hslots hslots' ⟨rfl, rfl, rfl⟩ rfl rfl rfl
  | callerSignal j pick task ws hpc hs =>
      cases hs with
      | wakes i hpc => exact h.moves hslots (Moves.of_wake hpc rfl rfl) (fun _ => rfl) rfl rfl
      | lost => exact h.of_same hslots hslots' ⟨rfl, rfl, rfl⟩ rfl rfl rfl
  | admin _ ha => exact h.admin ha
  | adminSignal pick _ ha => exact h.admin ha
  | destroy _ hd => exact h.destroy hslots hcovers hd
  | _ => exact h.of_same hslots hslots' ⟨rfl, rfl, rfl⟩ rfl rfl rfl

end TearsDown

/-- **Teardown.** When the join loop of `threadpool_destroy` starts with every thread that is
still there in a slot below `live_thr_num`, and no worker leaves as surplus while it runs,
every worker has exited when `threadpool_free` is called, and afterwards. -/
theorem threadpool_destroy_safe (minThrNum maxThrNum queueMaxSize : Int)
    (heap : Int → ThreadpoolTask F A) (hmax : minThrNum ≤ maxThrNum) (as : List (Act F A))
    (s : System F A)
    (hcovers : Machine.Meets System.step Covers
      (threadpoolCreate minThrNum maxThrNum queueMaxSize heap) as)
    (hrun : Machine.run System.step
      (threadpoolCreate minThrNum maxThrNum queueMaxSize heap) as = some s)
    (hfree : s.destroy = .free ∨ s.destroy = .freed) :
    ∀ w ∈ s.workers, ∃ surplus, w = .exited surplus := by
  obtain ⟨h, -⟩ := Machine.run_invariant_of_meets (fun s => TearsDown s ∧ Slots s)
    (fun s a s' h hC hstep =>
      ⟨h.1.step h.2 hC (System.step_cases hstep), h.2.step (System.step_cases hstep)⟩)
    ⟨.of_open rfl, threadpoolCreate_slots queueMaxSize heap hmax⟩ hcovers hrun
  intro w hw
  have hdead := h.finished hfree w hw
  cases w with
  | exited surplus => exact ⟨surplus, rfl⟩
  | _ => cases hdead

/-- Once `shutdown` is set, nothing is taken and nothing is accepted. -/
structure Closed (first s : System F A) : Prop where
  down : s.pool.shutdown = true
  taken : s.taken = first.taken
  accepted : s.accepted = first.accepted

theorem AdminStep.shutdown {s s' : System F A} (h : AdminStep s s') :
    s'.pool.shutdown = s.pool.shutdown := by
  cases h with
  | grows =>
      exact growLoop_invariant (fun t => t.pool.shutdown = s.pool.shutdown)
        (fun t i ht _ _ _ => ht) _ 0 0 (le_refl (0 + s.pool.maxThrNum.toNat)) rfl
  | _ => rfl

theorem Closed.step {first s s' : System F A} {a : Act F A} (h : Closed first s)
    (hstep : Step s a s') : Closed first s' := by
  have hdown := h.down
  -- steps that leave both lists alone
  have hsame : s'.pool.shutdown = s.pool.shutdown → s'.taken = s.taken →
      s'.accepted = s.accepted → Closed first s' := by
    intro h₁ h₂ h₃
    exact ⟨h₁.trans hdown, h₂.trans h.taken, h₃.trans h.accepted⟩
  cases hstep with
  | worker i _ hw =>
      cases hw with
      | takes w ht hsize hopen =>
          rw [hdown] at hopen
          cases hopen
      | _ => exact hsame rfl rfl rfl
  | caller j _ hc =>
      cases hc with
      | enqueues task he hroom hopen =>
          rw [hdown] at hopen
          cases hopen
      | _ => exact hsame rfl rfl rfl
  | admin _ ha => exact hsame ha.shutdown ha.sameQueue.1.taken ha.sameQueue.1.accepted
  | adminSignal pick _ ha => exact hsame ha.shutdown ha.sameQueue.1.taken ha.sameQueue.1.accepted
  | destroy _ hd =>
      refine hsame ?_ hd.sameQueue.1.taken hd.sameQueue.1.accepted
      cases hd with
      | closes => exact hdown.symm
      | _ => rfl
  | _ => exact hsame rfl rfl rfl

/-- `threadpool_destroy` sets the flag first. -/
theorem closed_of_destroy {s s' : System F A} (hidle : s.destroy = .idle)
    (hstep : s.step .destroy = some s') : Closed s s' := by
  cases System.step_cases hstep with
  | destroy _ hd =>
      cases hd with
      | closes => exact ⟨rfl, rfl, rfl⟩
      | _ => simp_all

/-- After a shrink the only worker left is in slot 1. The join loop ends at slot 0, and
worker 1 is about to take the lock of the pool that is freed. -/
theorem threadpool_destroy_frees_early :
    ∃ s, Machine.Reaches System.step (threadpoolCreate 1 2 16 fun _ => ⟨(), none⟩) s ∧
      s.destroy = .free ∧ s.workers = [Worker.exited (F := Unit) (A := Unit) true, .woken] := by
  have hrun : (Machine.run System.step (threadpoolCreate 1 2 16 fun _ => ⟨(), none⟩)
      (strandRun ++ [.destroy, .admin] ++ List.replicate 7 .destroy)).map
        (fun s => (s.destroy, s.workers)) = some (.free, [.exited true, .woken]) := by decide
  obtain ⟨s, hs, heq⟩ := Option.map_eq_some_iff.mp hrun
  rw [Prod.mk.injEq] at heq
  exact ⟨s, ⟨_, hs⟩, heq.1, heq.2⟩

/-- The pool of `growRound` grows to two workers, and both are joined. -/
def closeRun : List (Act Unit Unit) :=
  growRound ++ [.destroy, .admin] ++ List.replicate 7 .destroy ++
    [.worker 0, .worker 0, .worker 1, .worker 1] ++ List.replicate 4 .destroy

theorem threadpool_destroy_safe_closeRun :
    ∃ s, Machine.run System.step (threadpoolCreate 1 2 16 fun _ => ⟨(), none⟩) closeRun = some s ∧
      s.destroy = .free ∧ ∀ w ∈ s.workers, ∃ surplus, w = .exited surplus := by
  have hrun : (Machine.run System.step (threadpoolCreate 1 2 16 fun _ => ⟨(), none⟩)
      closeRun).map (fun s => s.destroy) = some .free := by decide
  obtain ⟨s, hs, hfree⟩ := Option.map_eq_some_iff.mp hrun
  exact ⟨s, hs, hfree, threadpool_destroy_safe 1 2 16 _ (by decide) closeRun s (by decide) hs
    (Or.inl hfree)⟩

end SpeechStack
