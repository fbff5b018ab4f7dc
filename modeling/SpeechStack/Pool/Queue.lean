import SpeechStack.Lib.Ring
import SpeechStack.Pool.Step

set_option autoImplicit false

/-! # The task queue is a queue

`task_queue` is a ring (`Fifo`): what has been accepted, in the order of the enqueue sections,
is what workers have taken followed by what the ring holds. A call of `threadpool_add_task`
is accepted once when it returns 0 and not at all when it returns -1 (`Answers`).
-/

namespace SpeechStack

variable {F A : Type}

/-- The queue of capacity `cap` holds `rest`, which is what has been accepted and not taken. -/
structure Fifo (cap : Int) (s : System F A) (rest : List (ThreadpoolTask F A)) : Prop where
  capacity : s.pool.queueMaxSize = cap
  ring : Ring.Holds s.pool.taskQueue cap s.pool.queueFront rest
  size : s.pool.queueSize = rest.length
  rear : s.pool.queueRear = Ring.index cap s.pool.queueFront rest.length
  order : s.accepted.map Prod.snd = s.taken ++ rest

/-- Nothing that the queue consists of has changed. -/
structure SameQueue (s s' : System F A) : Prop where
  capacity : s'.pool.queueMaxSize = s.pool.queueMaxSize
  cells : s'.pool.taskQueue = s.pool.taskQueue
  front : s'.pool.queueFront = s.pool.queueFront
  size : s'.pool.queueSize = s.pool.queueSize
  rear : s'.pool.queueRear = s.pool.queueRear
  accepted : s'.accepted = s.accepted
  taken : s'.taken = s.taken

section Queue

variable {cap : Int} {s s' : System F A} {a : Act F A} {rest : List (ThreadpoolTask F A)}

theorem Fifo.of_same (h : Fifo cap s rest) (hs : SameQueue s s') : Fifo cap s' rest where
  capacity := hs.capacity.trans h.capacity
  ring := by
    rw [hs.cells, hs.front]
    exact h.ring
  size := hs.size.trans h.size
  rear := by
    rw [hs.rear, hs.front]
    exact h.rear
  order := by
    rw [hs.accepted, hs.taken]
    exact h.order

/-- A grow round leaves the queue and the calls alone. -/
theorem growLoop_sameQueue (left i add : Nat) (s : System F A) :
    SameQueue s (growLoop left i add s) ∧ (growLoop left i add s).calls = s.calls := by
  refine growLoop_invariant (fun t => SameQueue s t ∧ t.calls = s.calls) ?_ left i add
    (le_refl (i + left)) ⟨⟨rfl, rfl, rfl, rfl, rfl, rfl, rfl⟩, rfl⟩
  intro t k ht _ _ _
  exact ⟨⟨ht.1.capacity, ht.1.cells, ht.1.front, ht.1.size, ht.1.rear, ht.1.accepted, ht.1.taken⟩,
    ht.2⟩

theorem AdminStep.sameQueue (h : AdminStep s s') : SameQueue s s' ∧ s'.calls = s.calls := by
  cases h with
  | grows =>
      obtain ⟨hq, hc⟩ := growLoop_sameQueue s.pool.maxThrNum.toNat 0 0 s
      exact ⟨⟨hq.capacity, hq.cells, hq.front, hq.size, hq.rear, hq.accepted, hq.taken⟩, hc⟩
  | _ => exact ⟨⟨rfl, rfl, rfl, rfl, rfl, rfl, rfl⟩, rfl⟩

theorem DestroyStep.sameQueue (h : DestroyStep s s') : SameQueue s s' ∧ s'.calls = s.calls := by
  cases h <;> exact ⟨⟨rfl, rfl, rfl, rfl, rfl, rfl, rfl⟩, rfl⟩

/-- A worker that takes a task takes the first one of the queue. -/
theorem Fifo.worker {i : Nat} (h : Fifo cap s rest) (hstep : WorkerStep s i s') :
    ∃ rest', Fifo cap s' rest' := by
  cases hstep with
  | takes w ht hsize hopen =>
      cases rest with
      -- the worker takes nothing from an empty queue
      | nil => exact absurd h.size hsize
      | cons task rest =>
          obtain ⟨hfirst, hring⟩ := h.ring.pop
          have hsize' := h.size
          rw [List.length_cons] at hsize'
          push_cast at hsize'
          refine ⟨rest, h.capacity, ?_, ?_, ?_, ?_⟩
          · show Ring.Holds s.pool.taskQueue cap
              ((s.pool.queueFront + 1) % s.pool.queueMaxSize) rest
            rw [h.capacity]
            exact hring
          · show s.pool.queueSize - 1 = _
            omega
          · show s.pool.queueRear = Ring.index cap
              ((s.pool.queueFront + 1) % s.pool.queueMaxSize) rest.length
            rw [h.capacity, Ring.index_advance]
            exact h.rear
          · show s.accepted.map Prod.snd = s.taken ++ [s.pool.taskQueue s.pool.queueFront] ++ rest
            rw [hfirst, List.append_assoc, List.singleton_append]
            exact h.order
  | _ => exact ⟨rest, h.of_same ⟨rfl, rfl, rfl, rfl, rfl, rfl, rfl⟩⟩

/-- A call that adds its task appends it. -/
theorem Fifo.caller {j : Nat} (h : Fifo cap s rest) (hstep : CallerStep s j s') :
    ∃ rest', Fifo cap s' rest' := by
  cases hstep with
  | enqueues task he hroom hopen =>
      have hcap := h.capacity
      have hsize := h.size
      have hle := h.ring.length_le
      have hrear := h.rear
      -- the call does not add to a full queue, so there is a free cell
      have hlt : (rest.length : Int) < cap := by omega
      refine ⟨rest ++ [task], h.capacity, h.ring.push hlt ?_ ?_, ?_, ?_, ?_⟩
      · show (if Ring.index cap s.pool.queueFront rest.length = s.pool.queueRear then task
          else _) = task
        rw [if_pos h.rear.symm]
      · intro k hk
        show (if k = s.pool.queueRear then task else s.pool.taskQueue k) = _
        rw [if_neg (fun heq => hk (heq.trans h.rear))]
      · show s.pool.queueSize + 1 = _
        rw [List.length_append, List.length_singleton]
        push_cast
        omega
      · show (s.pool.queueRear + 1) % s.pool.queueMaxSize = _
        rw [h.rear, h.capacity, Ring.index_succ, List.length_append, List.length_singleton]
      · show (s.accepted ++ [(j, task)]).map Prod.snd = s.taken ++ (rest ++ [task])
        rw [List.map_append, h.order, List.append_assoc]
        rfl
  | _ => exact ⟨rest, h.of_same ⟨rfl, rfl, rfl, rfl, rfl, rfl, rfl⟩⟩

theorem Fifo.step (h : Fifo cap s rest) (hstep : Step s a s') : ∃ rest', Fifo cap s' rest' := by
  cases hstep with
  | worker i _ hw => exact h.worker hw
  | caller j _ hc => exact h.caller hc
  | admin _ ha => exact ⟨rest, h.of_same ha.sameQueue.1⟩
  | adminSignal pick _ ha => exact ⟨rest, h.of_same ha.sameQueue.1⟩
  | destroy _ hd => exact ⟨rest, h.of_same hd.sameQueue.1⟩
  | _ => exact ⟨rest, h.of_same ⟨rfl, rfl, rfl, rfl, rfl, rfl, rfl⟩⟩

theorem threadpoolCreate_fifo (minThrNum maxThrNum : Int) (heap : Int → ThreadpoolTask F A)
    (hcap : 1 ≤ cap) : Fifo cap (threadpoolCreate minThrNum maxThrNum cap heap) [] where
  capacity := rfl
  ring := Ring.holds_nil heap le_rfl (show 0 < cap by omega)
  size := rfl
  rear := (Ring.index_zero le_rfl (by omega)).symm
  order := rfl

end Queue

/-! ## What the calls answer -/

/-- What a call answers, as far as it is decided: with the end of its section. -/
def CallPc.answer : CallPc → Option Int
  | .signal => some 0
  | .returned ret => some ret
  | _ => none

/-- The task of call `j`, and what the call answers. -/
def System.answer (s : System F A) (j : Nat) : Option (ThreadpoolTask F A × Option Int) :=
  (s.calls[j]?).map fun c => (c.task, c.pc.answer)

/-- The calls that have been accepted are those that answer 0; any other answer is -1. -/
structure Answers (s : System F A) : Prop where
  nodup : (s.accepted.map Prod.fst).Nodup
  accepted : ∀ j task, (j, task) ∈ s.accepted ↔ s.answer j = some (task, some 0)
  rejected : ∀ j task ret, s.answer j = some (task, some ret) → ret = 0 ∨ ret = -1

section Answers

variable {s s' : System F A} {a : Act F A} {j : Nat} {c c' : Call F A}

theorem answer_of_calls (h : s'.calls = s.calls) (k : Nat) : s'.answer k = s.answer k := by
  rw [System.answer, System.answer, h]

theorem answer_of_set (hcalls : s'.calls = s.calls.set j c') (hpc : s.calls[j]? = some c)
    (k : Nat) : s'.answer k = if k = j then some (c'.task, c'.pc.answer) else s.answer k := by
  rw [System.answer, System.answer, hcalls]
  split
  · rename_i hk
    subst hk
    rw [List.getElem?_set_self (List.getElem?_eq_some_iff.mp hpc).1]
    rfl
  · rename_i hk
    rw [List.getElem?_set_ne (Ne.symm hk)]

/-- Moving a call on without deciding its answer changes no answer. -/
theorem answer_of_set_same (hcalls : s'.calls = s.calls.set j c') (hpc : s.calls[j]? = some c)
    (htask : c'.task = c.task) (hans : c'.pc.answer = c.pc.answer) (k : Nat) :
    s'.answer k = s.answer k := by
  rw [answer_of_set hcalls hpc]
  split
  · rename_i hk
    rw [hk, System.answer, hpc, htask, hans]
    rfl
  · rfl

theorem answer_of_wake (hcalls : s'.calls = s.calls.map Call.wake) (k : Nat) :
    s'.answer k = s.answer k := by
  have hwake : ∀ c : Call F A, (c.wake.task, c.wake.pc.answer) = (c.task, c.pc.answer) := by
    rintro ⟨task, pc⟩
    cases pc <;> rfl
  rw [System.answer, System.answer, hcalls, List.getElem?_map, Option.map_map]
  congr 1
  funext c
  exact hwake c

theorem Answers.of_same (h : Answers s) (hacc : s'.accepted = s.accepted)
    (hans : ∀ k, s'.answer k = s.answer k) : Answers s' where
  nodup := hacc ▸ h.nodup
  accepted k task := by rw [hacc, hans, h.accepted]
  rejected k task ret hret := h.rejected k task ret (by rwa [← hans])

/-- A call that had no answer and now has another one than 0. -/
theorem Answers.of_unaccepted (h : Answers s) (hacc : s'.accepted = s.accepted) (hj : ∀ task ret,
    s'.answer j = some (task, some ret) → ret = -1)
    (hnone : ∀ task, s.answer j ≠ some (task, some 0))
    (hans : ∀ k, k ≠ j → s'.answer k = s.answer k) : Answers s' where
  nodup := hacc ▸ h.nodup
  accepted k task := by
    rw [hacc, h.accepted]
    -- only call `j` is asked for something new
    by_cases hk : k = j
    · subst hk
      refine ⟨fun h₀ => absurd h₀ (hnone task), fun h₀ => ?_⟩
      exact absurd (hj task 0 h₀) (by decide)
    · rw [hans k hk]
  rejected k task ret hret := by
    by_cases hk : k = j
    · subst hk
      exact Or.inr (hj task ret hret)
    · exact h.rejected k task ret (by rwa [← hans k hk])

theorem Answers.worker {i : Nat} (h : Answers s) (hstep : WorkerStep s i s') : Answers s' := by
  cases hstep with
  | takes => exact h.of_same rfl (answer_of_wake rfl)
  | _ => exact h.of_same rfl (answer_of_calls rfl)

/-- A call in its section has no answer yet. -/
theorem Enters.answer {task : ThreadpoolTask F A} (he : Enters s j task) :
    s.answer j = some (task, none) := by
  rw [System.answer]
  rcases he.pc with hpc | hpc <;> rw [hpc] <;> rfl

theorem Enters.getElem? {task : ThreadpoolTask F A} (he : Enters s j task) :
    ∃ pc, s.calls[j]? = some ⟨task, pc⟩ ∧ pc.answer = none := by
  rcases he.pc with hpc | hpc <;> exact ⟨_, hpc, rfl⟩

theorem Answers.caller (h : Answers s) (hstep : CallerStep s j s') : Answers s' := by
  cases hstep with
  | blocks task he =>
      obtain ⟨pc, hpc, hnone⟩ := he.getElem?
      exact h.of_same rfl (answer_of_set_same rfl hpc rfl hnone.symm)
  | waits task hpc => exact h.of_same rfl (answer_of_set_same rfl hpc rfl rfl)
  | rejects task he hdown =>
      obtain ⟨pc, hpc, -⟩ := he.getElem?
      refine h.of_unaccepted (j := j) rfl ?_ ?_ fun k hk => ?_
      · intro task' ret hret
        rw [answer_of_set rfl hpc, if_pos rfl] at hret
        cases hret
        rfl
      · intro task' h₀
        rw [he.answer] at h₀
        cases h₀
      · rw [answer_of_set rfl hpc, if_neg hk]
  | enqueues task he hroom hopen =>
      obtain ⟨pc, hpc, -⟩ := he.getElem?
      -- a call in its section has no answer, so it has not been accepted before
      have hfresh : ∀ task', (j, task') ∉ s.accepted := by
        intro task' hmem
        have h₀ := (h.accepted j task').mp hmem
        rw [he.answer] at h₀
        cases h₀
      refine ⟨?_, fun k task' => ?_, fun k task' ret hret => ?_⟩
      · show ((s.accepted ++ [(j, task)]).map Prod.fst).Nodup
        rw [List.map_append, List.map_singleton]
        refine List.Nodup.append h.nodup (List.nodup_singleton j) ?_
        rw [List.disjoint_singleton]
        intro hmem
        obtain ⟨⟨k, task'⟩, hmem', rfl⟩ := List.mem_map.mp hmem
        exact hfresh task' hmem'
      · show (k, task') ∈ s.accepted ++ [(j, task)] ↔ _
        rw [List.mem_append, List.mem_singleton, answer_of_set rfl hpc]
        split
        · rename_i hk
          subst hk
          refine ⟨fun hor => ?_, fun h₀ => ?_⟩
          · rcases hor with hmem | heq
            · exact absurd hmem (hfresh task')
            · cases heq
              rfl
          · cases h₀
            exact Or.inr rfl
        · rename_i hk
          rw [← h.accepted k task']
          refine ⟨fun hor => hor.resolve_right fun heq => hk ?_, Or.inl⟩
          cases heq
          rfl
      · rw [answer_of_set rfl hpc] at hret
        split at hret
        · cases hret
          exact Or.inl rfl
        · exact h.rejected k task' ret hret

theorem CallerStep.pool (hstep : CallerStep s j s') :
    (∃ task, s'.answer j = some (task, some 0)) ∨ s'.pool = s.pool := by
  cases hstep with
  | enqueues task he hroom hopen =>
      obtain ⟨pc, hpc, -⟩ := he.getElem?
      refine Or.inl ⟨task, ?_⟩
      rw [answer_of_set rfl hpc, if_pos rfl]
      rfl
  | _ => exact Or.inr rfl

theorem Answers.step (h : Answers s) (hstep : Step s a s') : Answers s' := by
  cases hstep with
  | worker i _ hw => exact h.worker hw
  | caller j _ hc => exact h.caller hc
  | callerSignal j pick task ws hpc => exact h.of_same rfl (answer_of_set_same rfl hpc rfl rfl)
  | wakeCaller j task hpc => exact h.of_same rfl (answer_of_set_same rfl hpc rfl rfl)
  | wakeWorker => exact h.of_same rfl (answer_of_calls rfl)
  | admin _ ha => exact h.of_same ha.sameQueue.1.accepted (answer_of_calls ha.sameQueue.2)
  | adminSignal pick _ ha =>
      exact h.of_same ha.sameQueue.1.accepted (answer_of_calls ha.sameQueue.2)
  | destroy _ hd =>
      exact h.of_same hd.sameQueue.1.accepted (answer_of_calls hd.sameQueue.2)
  | call function arg =>
      -- a new call gets the next number
      have hlast : s.answer s.calls.length = none := by
        rw [System.answer, List.getElem?_eq_none le_rfl]
        rfl
      refine h.of_unaccepted (j := s.calls.length) rfl ?_ ?_ fun k hk => ?_
      · intro task ret hret
        rw [System.answer] at hret
        simp [CallPc.answer] at hret
      · intro task h₀
        rw [hlast] at h₀
        cases h₀
      · rw [System.answer, System.answer]
        congr 1
        show (s.calls ++ [_])[k]? = _
        by_cases hlt : k < s.calls.length
        · rw [List.getElem?_append_left hlt]
        · rw [List.getElem?_eq_none (by simp; omega), List.getElem?_eq_none (by omega)]

theorem threadpoolCreate_answers (minThrNum maxThrNum queueMaxSize : Int)
    (heap : Int → ThreadpoolTask F A) :
    Answers (threadpoolCreate minThrNum maxThrNum queueMaxSize heap) where
  nodup := List.nodup_nil
  accepted j task := by
    constructor
    · exact fun h => absurd h List.not_mem_nil
    · exact fun h => by cases h
  rejected j task ret h := by cases h

end Answers

end SpeechStack
