import SpeechStack.Pool.Step

set_option autoImplicit false

/-! # Counting the workers

`live_thr_num` and `busy_thr_num` are counts of the workers by where they are (`Counted`), and
every worker that has not terminated has a slot of `threads` to itself (`Slots`). Neither
depends on the snapshots that the admin thread decides on: the grow loop tests
`live_thr_num` again under the lock, and a surplus worker tests it before it leaves.
-/

namespace SpeechStack

variable {F A : Type}

/-- The worker runs a task. -/
def Worker.isBusy : Worker F A → Bool
  | .busy _ => true
  | _ => false

/-- The worker has taken an exit branch. -/
def Worker.hasLeft : Worker F A → Bool
  | .leaving _ => true
  | .exited _ => true
  | _ => false

/-- The worker has not left as one too many: it is in `live_thr_num`. -/
def Worker.isLive : Worker F A → Bool
  | .leaving true => false
  | .exited true => false
  | _ => true

/-- The worker's thread is still there. -/
def Worker.isAlive : Worker F A → Bool
  | .exited _ => false
  | _ => true

/-- Replacing an element moves a count by the difference of the two. -/
theorem countP_set_add {α : Type} (p : α → Bool) {l : List α} {i : Nat} {b : α} (a : α)
    (h : l[i]? = some b) :
    (l.set i a).countP p + (p b).toNat = l.countP p + (p a).toNat := by
  obtain ⟨hi, hb⟩ := List.getElem?_eq_some_iff.mp h
  rw [List.countP_set hi, hb]
  have hpos : p b = true → 0 < l.countP p := fun hp =>
    List.countP_pos_iff.mpr ⟨b, hb ▸ List.getElem_mem hi, hp⟩
  cases hpb : p b with
  | false => cases p a <;> simp
  | true =>
      have hpos' := hpos hpb
      cases p a <;> simp <;> omega

theorem isThreadAlive_eq {s : System F A} {tid : Nat} {w : Worker F A}
    (h : s.workers[tid]? = some w) : isThreadAlive s tid = w.isAlive := by
  rw [isThreadAlive, h]
  cases w <;> rfl

/-- What a step does to one worker: it goes from `b` to `w`, and the two counts follow. -/
structure Moves (s s' : System F A) (i : Nat) (b w : Worker F A) : Prop where
  before : s.workers[i]? = some b
  after : s'.workers = s.workers.set i w
  alive : b.isAlive = true
  threads : s'.pool.threads = s.pool.threads
  minThrNum : s'.pool.minThrNum = s.pool.minThrNum
  maxThrNum : s'.pool.maxThrNum = s.pool.maxThrNum
  shutdown : s'.pool.shutdown = s.pool.shutdown
  busy : s'.pool.busyThrNum + b.isBusy.toNat = s.pool.busyThrNum + w.isBusy.toNat
  live : s'.pool.liveThrNum + b.isLive.toNat = s.pool.liveThrNum + w.isLive.toNat
  /-- only a surplus worker is taken off the count -/
  surplus : w.isLive = b.isLive ∨ b.isLive = true ∧ s.pool.minThrNum < s.pool.liveThrNum
  /-- only the shutdown makes other workers leave -/
  left : w.hasLeft = true →
    w.isLive = false ∨ s.pool.shutdown = true ∨ b.hasLeft = true ∧ w.isLive = b.isLive

section Moves

variable {s s' : System F A} {i : Nat}

theorem WorkerStep.moves (h : WorkerStep s i s') : ∃ b w, Moves s s' i b w := by
  cases h with
  | sleeps w ht =>
      rcases ht.pc with hpc | hpc <;>
        exact ⟨_, _, hpc, rfl, rfl, rfl, rfl, rfl, rfl, rfl, rfl, Or.inl rfl, fun h => by cases h⟩
  | quits w ht hdown =>
      rcases ht.pc with hpc | hpc <;>
        exact ⟨_, _, hpc, rfl, rfl, rfl, rfl, rfl, rfl, rfl, rfl, Or.inl rfl,
          fun _ => Or.inr (Or.inl hdown)⟩
  | takes w ht =>
      rcases ht.pc with hpc | hpc <;>
        exact ⟨_, _, hpc, rfl, rfl, rfl, rfl, rfl, rfl, rfl, rfl, Or.inl rfl, fun h => by cases h⟩
  | surplus hlock hpc hpos hmin =>
      refine ⟨_, _, hpc, rfl, rfl, rfl, rfl, rfl, rfl, rfl, ?_, Or.inr ⟨rfl, hmin⟩,
        fun _ => Or.inl rfl⟩
      show s.pool.liveThrNum - 1 + 1 = s.pool.liveThrNum + 0
      omega
  | waits hpc =>
      exact ⟨_, _, hpc, rfl, rfl, rfl, rfl, rfl, rfl, rfl, rfl, Or.inl rfl, fun h => by cases h⟩
  | begins task hpc =>
      refine ⟨_, _, hpc, rfl, rfl, rfl, rfl, rfl, rfl, ?_, rfl, Or.inl rfl, fun h => by cases h⟩
      show s.pool.busyThrNum + 1 + 0 = s.pool.busyThrNum + 1
      omega
  | finishes task hpc =>
      refine ⟨_, _, hpc, rfl, rfl, rfl, rfl, rfl, rfl, ?_, rfl, Or.inl rfl, fun h => by cases h⟩
      show s.pool.busyThrNum - 1 + 1 = s.pool.busyThrNum + 0
      omega
  | exits b hpc =>
      have hsame : (Worker.exited b : Worker F A).isLive
          = (Worker.leaving b : Worker F A).isLive := by
        cases b <;> rfl
      refine ⟨_, _, hpc, rfl, rfl, rfl, rfl, rfl, rfl, rfl, ?_, Or.inl hsame,
        fun _ => Or.inr (Or.inr ⟨rfl, hsame⟩)⟩
      rw [hsame]

/-- A wake-up moves a worker without any count. -/
theorem Moves.of_wake (hpc : s.workers[i]? = some .waiting)
    (hworkers : s'.workers = s.workers.set i .woken) (hpool : s'.pool = s.pool) :
    Moves s s' i .waiting .woken where
  before := hpc
  after := hworkers
  alive := rfl
  threads := by rw [hpool]
  minThrNum := by rw [hpool]
  maxThrNum := by rw [hpool]
  shutdown := by rw [hpool]
  busy := by rw [hpool]; rfl
  live := by rw [hpool]; rfl
  surplus := Or.inl rfl
  left h := by cases h

end Moves

/-! ## The counts -/

/-- The counters of the pool, by the positions of its workers. -/
structure Counted (minThrNum maxThrNum : Int) (s : System F A) : Prop where
  min_eq : s.pool.minThrNum = minThrNum
  max_eq : s.pool.maxThrNum = maxThrNum
  min_le : minThrNum ≤ s.pool.liveThrNum
  le_max : s.pool.liveThrNum ≤ maxThrNum
  busy : s.pool.busyThrNum = s.workers.countP Worker.isBusy
  live : s.pool.liveThrNum = s.workers.countP Worker.isLive
  /-- before the shutdown, workers leave only as surplus -/
  surplus : s.pool.shutdown = false → ∀ w ∈ s.workers, w.hasLeft = true → w.isLive = false

section Counted

variable {minThrNum maxThrNum : Int} {s s' : System F A} {a : Act F A}

theorem Counted.moves {i : Nat} {b w : Worker F A} (h : Counted minThrNum maxThrNum s)
    (hm : Moves s s' i b w) : Counted minThrNum maxThrNum s' := by
  have hmin := h.min_eq
  have hle := h.min_le
  have hle' := h.le_max
  have hbusy := countP_set_add Worker.isBusy w hm.before
  have hlive := countP_set_add Worker.isLive w hm.before
  have hb := hm.busy
  have hl := hm.live
  have hb' := h.busy
  have hl' := h.live
  -- a surplus worker is counted off only where `live_thr_num` is above the minimum
  have hbound : minThrNum ≤ s'.pool.liveThrNum ∧ s'.pool.liveThrNum ≤ s.pool.liveThrNum := by
    rcases hm.surplus with heq | ⟨hblive, hlt⟩
    · rw [heq] at hl
      omega
    · rw [hblive, Bool.toNat_true] at hl
      have hone := Bool.toNat_le w.isLive
      omega
  refine ⟨hm.minThrNum.trans h.min_eq, hm.maxThrNum.trans h.max_eq, hbound.1, by omega,
    ?_, ?_, ?_⟩
  · rw [hm.after]
    omega
  · rw [hm.after]
    omega
  · intro hopen w' hw' hleft
    rw [hm.shutdown] at hopen
    rw [hm.after] at hw'
    -- the worker that moved, or another one
    rcases List.mem_or_eq_of_mem_set hw' with hmem | rfl
    · exact h.surplus hopen w' hmem hleft
    · rcases hm.left hleft with hno | hdown | ⟨hb, heq⟩
      · exact hno
      · rw [hopen] at hdown
        cases hdown
      · rw [heq]
        exact h.surplus hopen b (List.mem_of_getElem? hm.before) hb

/-- A new thread is counted, and there is room for it. -/
theorem Counted.createThread {i : Nat} (h : Counted minThrNum maxThrNum s)
    (hroom : s.pool.liveThrNum < s.pool.maxThrNum) :
    Counted minThrNum maxThrNum (createThread s i) := by
  have hmax := h.max_eq
  have hle := h.min_le
  have hb := h.busy
  have hl := h.live
  have hbusy : (s.workers ++ [Worker.start]).countP Worker.isBusy
      = s.workers.countP Worker.isBusy := by
    rw [List.countP_append]
    rfl
  have hlive : (s.workers ++ [Worker.start]).countP Worker.isLive
      = s.workers.countP Worker.isLive + 1 := by
    rw [List.countP_append]
    rfl
  refine ⟨h.min_eq, h.max_eq, ?_, ?_, ?_, ?_, ?_⟩
  · show minThrNum ≤ s.pool.liveThrNum + 1
    omega
  · show s.pool.liveThrNum + 1 ≤ maxThrNum
    omega
  · show s.pool.busyThrNum = (s.workers ++ [Worker.start]).countP Worker.isBusy
    omega
  · show s.pool.liveThrNum + 1 = (s.workers ++ [Worker.start]).countP Worker.isLive
    omega
  · intro hopen w hw hleft
    rcases List.mem_append.mp hw with hmem | hnew
    · exact h.surplus hopen w hmem hleft
    · obtain rfl := List.mem_singleton.mp hnew
      cases hleft

/-- Steps that move no worker and set no counter. -/
theorem Counted.of_same (h : Counted minThrNum maxThrNum s) (hworkers : s'.workers = s.workers)
    (hmin : s'.pool.minThrNum = s.pool.minThrNum) (hmax : s'.pool.maxThrNum = s.pool.maxThrNum)
    (hlive : s'.pool.liveThrNum = s.pool.liveThrNum)
    (hbusy : s'.pool.busyThrNum = s.pool.busyThrNum)
    (hdown : s'.pool.shutdown = false → s.pool.shutdown = false) :
    Counted minThrNum maxThrNum s' where
  min_eq := hmin.trans h.min_eq
  max_eq := hmax.trans h.max_eq
  min_le := hlive ▸ h.min_le
  le_max := hlive ▸ h.le_max
  busy := by rw [hbusy, hworkers, h.busy]
  live := by rw [hlive, hworkers, h.live]
  surplus hopen w hw := h.surplus (hdown hopen) w (hworkers ▸ hw)

theorem Worker.wake_isBusy (w : Worker F A) : w.wake.isBusy = w.isBusy := by cases w <;> rfl

theorem Worker.wake_isLive (w : Worker F A) : w.wake.isLive = w.isLive := by cases w <;> rfl

theorem Worker.wake_isAlive (w : Worker F A) : w.wake.isAlive = w.isAlive := by cases w <;> rfl

theorem Worker.wake_hasLeft (w : Worker F A) : w.wake.hasLeft = w.hasLeft := by cases w <;> rfl

/-- A broadcast moves workers without any count. -/
theorem Counted.wakeAll (h : Counted minThrNum maxThrNum s) (hpool : s'.pool = s.pool)
    (hworkers : s'.workers = s.workers.map Worker.wake) : Counted minThrNum maxThrNum s' where
  min_eq := hpool ▸ h.min_eq
  max_eq := hpool ▸ h.max_eq
  min_le := hpool ▸ h.min_le
  le_max := hpool ▸ h.le_max
  busy := by
    rw [hpool, hworkers, List.countP_map, h.busy]
    exact congrArg _ (List.countP_congr fun w _ => by
      rw [Function.comp_apply, Worker.wake_isBusy])
  live := by
    rw [hpool, hworkers, List.countP_map, h.live]
    exact congrArg _ (List.countP_congr fun w _ => by
      rw [Function.comp_apply, Worker.wake_isLive])
  surplus hopen w hw hleft := by
    rw [hworkers] at hw
    obtain ⟨v, hv, rfl⟩ := List.mem_map.mp hw
    rw [Worker.wake_hasLeft] at hleft
    rw [Worker.wake_isLive]
    exact h.surplus (hpool ▸ hopen) v hv hleft

theorem Counted.signals {ws : List (Worker F A)} (h : Counted minThrNum maxThrNum s)
    (hs : Signals s ws) (hpool : s'.pool = s.pool) (hworkers : s'.workers = ws) :
    Counted minThrNum maxThrNum s' := by
  cases hs with
  | wakes i hpc => exact h.moves (Moves.of_wake hpc hworkers hpool)
  | lost =>
      exact h.of_same hworkers (by rw [hpool]) (by rw [hpool]) (by rw [hpool]) (by rw [hpool])
        fun hopen => hpool ▸ hopen

theorem Counted.admin (h : Counted minThrNum maxThrNum s) (hstep : AdminStep s s') :
    Counted minThrNum maxThrNum s' := by
  cases hstep with
  | grows =>
      have hgrow : Counted minThrNum maxThrNum (growLoop s.pool.maxThrNum.toNat 0 0 s) :=
        growLoop_invariant (Counted minThrNum maxThrNum)
          (fun t i ht _ hroom _ => ht.createThread hroom) _ 0 0 le_rfl h
      exact hgrow.of_same rfl rfl rfl rfl rfl id
  | signals left ws hpc hs => exact h.signals hs rfl rfl
  | _ => exact h.of_same rfl rfl rfl rfl rfl id

theorem Counted.destroy (h : Counted minThrNum maxThrNum s) (hstep : DestroyStep s s') :
    Counted minThrNum maxThrNum s' := by
  cases hstep with
  | closes => exact h.of_same rfl rfl rfl rfl rfl fun hopen => by cases hopen
  | broadcasts i hpc => exact h.wakeAll rfl rfl
  | _ => exact h.of_same rfl rfl rfl rfl rfl id

theorem Counted.step (h : Counted minThrNum maxThrNum s) (hstep : Step s a s') :
    Counted minThrNum maxThrNum s' := by
  cases hstep with
  | worker i _ hw =>
      obtain ⟨b, w, hm⟩ := hw.moves
      exact h.moves hm
  | wakeWorker i hpc => exact h.moves (Moves.of_wake hpc rfl rfl)
  | caller j _ hc => cases hc <;> exact h.of_same rfl rfl rfl rfl rfl id
  | callerSignal j pick task ws hpc hs => exact h.signals hs rfl rfl
  | admin _ ha => exact h.admin ha
  | adminSignal pick _ ha => exact h.admin ha
  | destroy _ hd => exact h.destroy hd
  | _ => exact h.of_same rfl rfl rfl rfl rfl id

theorem threadpoolCreate_counted (queueMaxSize : Int) (heap : Int → ThreadpoolTask F A)
    (hmin : 0 ≤ minThrNum) (hmax : minThrNum ≤ maxThrNum) :
    Counted minThrNum maxThrNum (threadpoolCreate minThrNum maxThrNum queueMaxSize heap) where
  min_eq := rfl
  max_eq := rfl
  min_le := le_rfl
  le_max := hmax
  busy := by
    show 0 = ((List.replicate minThrNum.toNat Worker.start).countP Worker.isBusy : Int)
    rw [List.countP_replicate]
    rfl
  live := by
    show minThrNum = ((List.replicate minThrNum.toNat Worker.start).countP Worker.isLive : Int)
    have hlive : (Worker.start : Worker F A).isLive = true := rfl
    rw [List.countP_replicate, if_pos hlive]
    omega
  surplus _ w hw hleft := by
    obtain rfl := List.eq_of_mem_replicate hw
    cases hleft

theorem Counted.busy_le (h : Counted minThrNum maxThrNum s) :
    s.pool.busyThrNum ≤ s.pool.liveThrNum := by
  have hle : s.workers.countP Worker.isBusy ≤ s.workers.countP Worker.isLive := by
    refine List.countP_mono_left fun w _ hbusy => ?_
    cases w with
    | busy => rfl
    | _ => cases hbusy
  calc s.pool.busyThrNum = s.workers.countP Worker.isBusy := h.busy
    _ ≤ s.workers.countP Worker.isLive := by exact_mod_cast hle
    _ = s.pool.liveThrNum := h.live.symm

/-- While the pool is open, the live workers are those that have not left. -/
theorem Counted.live_eq (h : Counted minThrNum maxThrNum s) (hopen : s.pool.shutdown = false) :
    s.pool.liveThrNum = s.workers.countP fun w => !w.hasLeft := by
  rw [h.live]
  refine congrArg _ (List.countP_congr fun w hw => ?_)
  have hleft := h.surplus hopen w hw
  cases w with
  | leaving b => rw [hleft rfl]; rfl
  | exited b => rw [hleft rfl]; rfl
  | _ => exact Iff.rfl

end Counted

/-! ## The slots -/

/-- Every worker that has not terminated has a slot of `threads` to itself. -/
structure Slots (s : System F A) : Prop where
  bound : ∀ k tid, s.pool.threads k = some tid →
    (k : Int) < s.pool.maxThrNum ∧ tid < s.workers.length
  owned : ∀ tid w, s.workers[tid]? = some w → w.isAlive = true → ∃ k, s.pool.threads k = some tid
  unshared : ∀ k k' tid, s.pool.threads k = some tid → s.pool.threads k' = some tid → k = k'

section Slots

variable {s s' : System F A} {a : Act F A}

/-- Steps that create no thread and bring none back. -/
theorem Slots.of_alive (h : Slots s) (hthreads : s'.pool.threads = s.pool.threads)
    (hmax : s'.pool.maxThrNum = s.pool.maxThrNum)
    (hlength : s'.workers.length = s.workers.length)
    (halive : ∀ (tid : Nat) (w' : Worker F A), s'.workers[tid]? = some w' → w'.isAlive = true →
      ∃ w, s.workers[tid]? = some w ∧ w.isAlive = true) : Slots s' where
  bound k tid hk := by
    rw [hmax, hlength]
    exact h.bound k tid (hthreads ▸ hk)
  owned tid w' hw' hlive := by
    obtain ⟨w, hw, hlive⟩ := halive tid w' hw' hlive
    rw [hthreads]
    exact h.owned tid w hw hlive
  unshared k k' tid hk hk' := h.unshared k k' tid (hthreads ▸ hk) (hthreads ▸ hk')

theorem Slots.of_same (h : Slots s) (hthreads : s'.pool.threads = s.pool.threads)
    (hmax : s'.pool.maxThrNum = s.pool.maxThrNum) (hworkers : s'.workers = s.workers) :
    Slots s' :=
  h.of_alive hthreads hmax (by rw [hworkers]) fun tid w hw hlive => ⟨w, hworkers ▸ hw, hlive⟩

theorem Slots.moves {i : Nat} {b w : Worker F A} (h : Slots s) (hm : Moves s s' i b w) :
    Slots s' := by
  refine h.of_alive hm.threads hm.maxThrNum (by rw [hm.after, List.length_set]) ?_
  intro tid w' hw' hlive
  -- the worker that moved was alive before
  by_cases htid : i = tid
  · exact ⟨b, htid ▸ hm.before, hm.alive⟩
  · rw [hm.after, List.getElem?_set_ne htid] at hw'
    exact ⟨w', hw', hlive⟩

theorem Slots.signals {ws : List (Worker F A)} (h : Slots s) (hs : Signals s ws)
    (hpool : s'.pool = s.pool) (hworkers : s'.workers = ws) : Slots s' := by
  cases hs with
  | wakes i hpc => exact h.moves (Moves.of_wake hpc hworkers hpool)
  | lost => exact h.of_same (by rw [hpool]) (by rw [hpool]) hworkers

theorem Slots.wakeAll (h : Slots s) (hpool : s'.pool = s.pool)
    (hworkers : s'.workers = s.workers.map Worker.wake) : Slots s' := by
  refine h.of_alive (by rw [hpool]) (by rw [hpool]) (by rw [hworkers, List.length_map]) ?_
  intro tid w' hw' hlive
  rw [hworkers, List.getElem?_map] at hw'
  obtain ⟨w, hw, rfl⟩ := Option.map_eq_some_iff.mp hw'
  exact ⟨w, hw, Worker.wake_isAlive w ▸ hlive⟩

/-- A slot that can take a new thread holds none that is alive. -/
theorem slotFree_dead {i tid : Nat} {w : Worker F A} (hfree : slotFree s i = true)
    (hi : s.pool.threads i = some tid) (hw : s.workers[tid]? = some w) : w.isAlive = false := by
  rw [slotFree, hi] at hfree
  rw [← isThreadAlive_eq hw]
  simpa using hfree

/-- A thread created into a free slot takes it from nobody. -/
theorem Slots.createThread {i : Nat} (h : Slots s) (hi : (i : Int) < s.pool.maxThrNum)
    (hfree : slotFree s i = true) : Slots (createThread s i) where
  bound k tid hk := by
    show (k : Int) < s.pool.maxThrNum ∧ tid < (s.workers ++ [Worker.start]).length
    rw [List.length_append, List.length_singleton]
    change (if k = i then some s.workers.length else s.pool.threads k) = some tid at hk
    split at hk
    · rename_i hki
      cases hk
      exact ⟨hki ▸ hi, by omega⟩
    · obtain ⟨hmax, hlt⟩ := h.bound k tid hk
      exact ⟨hmax, by omega⟩
  owned tid w hw hlive := by
    show ∃ k, (if k = i then some s.workers.length else s.pool.threads k) = some tid
    change (s.workers ++ [Worker.start])[tid]? = some w at hw
    by_cases hlt : tid < s.workers.length
    · rw [List.getElem?_append_left hlt] at hw
      obtain ⟨k, hk⟩ := h.owned tid w hw hlive
      -- the free slot is not the one of a thread that is alive
      have hki : k ≠ i := by
        rintro rfl
        rw [slotFree_dead hfree hk hw] at hlive
        cases hlive
      exact ⟨k, by rw [if_neg hki, hk]⟩
    · have hbound := (List.getElem?_eq_some_iff.mp hw).1
      rw [List.length_append, List.length_singleton] at hbound
      exact ⟨i, by rw [if_pos rfl]; congr 1; omega⟩
  unshared k k' tid hk hk' := by
    change (if k = i then some s.workers.length else s.pool.threads k) = some tid at hk
    change (if k' = i then some s.workers.length else s.pool.threads k') = some tid at hk'
    -- the number of the new thread is not in a slot yet
    have hold : ∀ k, s.pool.threads k ≠ some s.workers.length := fun k hk =>
      absurd (h.bound k _ hk).2 (lt_irrefl _)
    split at hk <;> split at hk'
    · rename_i h₁ h₂
      exact h₁.trans h₂.symm
    · cases hk
      exact absurd hk' (hold k')
    · cases hk'
      exact absurd hk (hold k)
    · exact h.unshared k k' tid hk hk'

theorem Slots.admin (h : Slots s) (hstep : AdminStep s s') : Slots s' := by
  cases hstep with
  | grows =>
      have hgrow : Slots (growLoop s.pool.maxThrNum.toNat 0 0 s) ∧
          (growLoop s.pool.maxThrNum.toNat 0 0 s).pool.maxThrNum = s.pool.maxThrNum := by
        refine growLoop_invariant (fun t => Slots t ∧ t.pool.maxThrNum = s.pool.maxThrNum) ?_
          _ 0 0 (le_refl (0 + s.pool.maxThrNum.toNat)) ⟨h, rfl⟩
        intro t i ht hi hroom hfree
        exact ⟨ht.1.createThread (by omega) hfree, ht.2⟩
      exact hgrow.1.of_same rfl rfl rfl
  | signals left ws hpc hs => exact h.signals hs rfl rfl
  | _ => exact h.of_same rfl rfl rfl

theorem Slots.step (h : Slots s) (hstep : Step s a s') : Slots s' := by
  cases hstep with
  | worker i _ hw =>
      obtain ⟨b, w, hm⟩ := hw.moves
      exact h.moves hm
  | wakeWorker i hpc => exact h.moves (Moves.of_wake hpc rfl rfl)
  | caller j _ hc => cases hc <;> exact h.of_same rfl rfl rfl
  | callerSignal j pick task ws hpc hs => exact h.signals hs rfl rfl
  | admin _ ha => exact h.admin ha
  | adminSignal pick _ ha => exact h.admin ha
  | destroy _ hd =>
      cases hd with
      | broadcasts => exact h.wakeAll rfl rfl
      | _ => exact h.of_same rfl rfl rfl
  | _ => exact h.of_same rfl rfl rfl

theorem threadpoolCreate_slots {minThrNum maxThrNum : Int} (queueMaxSize : Int)
    (heap : Int → ThreadpoolTask F A) (hmax : minThrNum ≤ maxThrNum) :
    Slots (threadpoolCreate minThrNum maxThrNum queueMaxSize heap) where
  bound k tid hk := by
    change (if (k : Int) < minThrNum then some k else none) = some tid at hk
    show (k : Int) < maxThrNum ∧ tid < (List.replicate minThrNum.toNat Worker.start).length
    rw [List.length_replicate]
    split at hk
    · cases hk
      omega
    · cases hk
  owned tid w hw _ := by
    show ∃ k : Nat, (if (k : Int) < minThrNum then some k else none) = some tid
    have hlt := (List.getElem?_eq_some_iff.mp hw).1
    change tid < (List.replicate minThrNum.toNat Worker.start).length at hlt
    rw [List.length_replicate] at hlt
    exact ⟨tid, if_pos (by omega)⟩
  unshared k k' tid hk hk' := by
    change (if (k : Int) < minThrNum then some k else none) = some tid at hk
    change (if (k' : Int) < minThrNum then some k' else none) = some tid at hk'
    split at hk
    · split at hk'
      · cases hk
        cases hk'
        rfl
      · cases hk'
    · cases hk

/-- A grow round, like every other step, leaves the slot of an alive thread alone. -/
theorem growLoop_keeps {k tid : Nat} {w : Worker F A} (hk : s.pool.threads k = some tid)
    (hw : s.workers[tid]? = some w) (hlive : w.isAlive = true) (left i add : Nat) :
    (growLoop left i add s).pool.threads k = some tid := by
  refine (growLoop_invariant (fun t => t.pool.threads k = some tid ∧ t.workers[tid]? = some w) ?_
    left i add (le_refl (i + left)) ⟨hk, hw⟩).1
  intro t j ht _ _ hfree
  -- a slot that is written was free
  have hkj : k ≠ j := by
    rintro rfl
    rw [slotFree_dead hfree ht.1 ht.2] at hlive
    cases hlive
  refine ⟨?_, ?_⟩
  · show (if k = j then _ else t.pool.threads k) = some tid
    rw [if_neg hkj, ht.1]
  · show (t.workers ++ [Worker.start])[tid]? = some w
    rw [List.getElem?_append_left (List.getElem?_eq_some_iff.mp ht.2).1, ht.2]

end Slots

/-! ## The workers of every reachable state -/

/-- What the counters and the slots are, in a state of a pool with the given bounds. -/
structure WorkersCorrect (minThrNum maxThrNum : Int) (s : System F A) : Prop where
  min_le : minThrNum ≤ s.pool.liveThrNum
  le_max : s.pool.liveThrNum ≤ maxThrNum
  busy_nonneg : 0 ≤ s.pool.busyThrNum
  busy_le : s.pool.busyThrNum ≤ s.pool.liveThrNum
  live : s.pool.shutdown = false → s.pool.liveThrNum = s.workers.countP fun w => !w.hasLeft
  /-- every worker that has not terminated has one slot, and the slot has no other -/
  slot : ∀ tid w, s.workers[tid]? = some w → w.isAlive = true →
    ∃! k, s.pool.threads k = some tid
  /-- all slots in use are below `max_thr_num` -/
  bound : ∀ k tid, s.pool.threads k = some tid → (k : Int) < maxThrNum
  /-- a grow round overwrites no slot of a worker that has not terminated -/
  grow : ∀ s' k tid w, s.step .admin = some s' → s.pool.threads k = some tid →
    s.workers[tid]? = some w → w.isAlive = true → s'.pool.threads k = some tid

/-- **The workers.** In every state that a pool reaches, before and after the shutdown. -/
theorem threadpool_workersCorrect (minThrNum maxThrNum queueMaxSize : Int)
    (heap : Int → ThreadpoolTask F A) (hmin : 0 ≤ minThrNum) (hmax : minThrNum ≤ maxThrNum)
    (s : System F A)
    (hs : Machine.Reaches System.step
      (threadpoolCreate minThrNum maxThrNum queueMaxSize heap) s) :
    WorkersCorrect minThrNum maxThrNum s := by
  have hc := hs.invariant (Counted minThrNum maxThrNum)
    (fun s a s' h hstep => h.step (System.step_cases hstep))
    (threadpoolCreate_counted queueMaxSize heap hmin hmax)
  have hslots := hs.invariant Slots (fun s a s' h hstep => h.step (System.step_cases hstep))
    (threadpoolCreate_slots queueMaxSize heap hmax)
  refine ⟨hc.min_le, hc.le_max, ?_, hc.busy_le, hc.live_eq, ?_, ?_, ?_⟩
  · rw [hc.busy]
    omega
  · intro tid w hw hlive
    obtain ⟨k, hk⟩ := hslots.owned tid w hw hlive
    exact ⟨k, hk, fun k' hk' => hslots.unshared k' k tid hk' hk⟩
  · intro k tid hk
    rw [← hc.max_eq]
    exact (hslots.bound k tid hk).1
  · intro s' k tid w hstep hk hw hlive
    cases adminThread_cases hstep with
    | grows => exact growLoop_keeps hk hw hlive _ 0 0
    | _ => exact hk

/-- Ten calls whose signals are lost, since no worker waits, and a first admin round. -/
def growRound : List (Act Unit Unit) :=
  ((List.range 10).flatMap fun j => [.call () none, .caller j, .callerSignal j none]) ++
    [.admin, .admin, .admin, .admin, .admin]

theorem threadpool_workersCorrect_growRound :
    ∃ s, Machine.run System.step (threadpoolCreate 1 2 16 fun _ => ⟨(), none⟩) growRound = some s ∧
      s.pool.liveThrNum = 2 ∧ WorkersCorrect 1 2 s := by
  have hlive : (Machine.run System.step (threadpoolCreate 1 2 16 fun _ => ⟨(), none⟩)
      growRound).map (fun s => s.pool.liveThrNum) = some 2 := by decide
  obtain ⟨s, hs, hlive⟩ := Option.map_eq_some_iff.mp hlive
  exact ⟨s, hs, hlive,
    threadpool_workersCorrect 1 2 16 _ (by decide) (by decide) s ⟨growRound, hs⟩⟩

end SpeechStack
