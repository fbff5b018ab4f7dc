import SpeechStack.Pool.Lock
import SpeechStack.Pool.Queue
import SpeechStack.Pool.Workers

set_option autoImplicit false

/-! # Tasks in hand

What users of the pool need to know of a step: what it does to the tasks that workers have
taken and not finished (`System.step_hand`), and to the answers of the calls
(`System.step_answers`). With this the queue of every reachable state is described
(`threadpool_queueCorrect`). A pool whose two bounds are equal never creates a thread
(`Counted.workers_length`); with one worker it runs its tasks one after the other.
-/

namespace SpeechStack

variable {F A : Type}

/-- The task that a worker has taken and not finished. -/
inductive Hand (F A : Type) where
  | idle
  | took (task : ThreadpoolTask F A)
  | busy (task : ThreadpoolTask F A)
deriving DecidableEq

def Worker.hand : Worker F A → Hand F A
  | .took task => .took task
  | .busy task => .busy task
  | _ => .idle

def System.hand (s : System F A) (i : Nat) : Hand F A :=
  match s.workers[i]? with
  | some w => w.hand
  | none => .idle

section Hand

variable {s s' : System F A} {a : Act F A}

theorem hand_of_pc {i : Nat} {w : Worker F A} (hpc : s.workers[i]? = some w) :
    s.hand i = w.hand := by
  unfold System.hand
  rw [hpc]

theorem hand_eq_took {i : Nat} {task : ThreadpoolTask F A} :
    s.hand i = .took task ↔ s.workers[i]? = some (.took task) := by
  unfold System.hand
  cases s.workers[i]? with
  | none => simp
  | some w => cases w <;> simp [Worker.hand]

theorem hand_eq_busy {i : Nat} {task : ThreadpoolTask F A} :
    s.hand i = .busy task ↔ s.workers[i]? = some (.busy task) := by
  unfold System.hand
  cases s.workers[i]? with
  | none => simp
  | some w => cases w <;> simp [Worker.hand]

/-- Only workers that there are have a task. -/
theorem lt_of_hand {i : Nat} (h : s.hand i ≠ .idle) : i < s.workers.length := by
  by_contra hge
  apply h
  unfold System.hand
  rw [List.getElem?_eq_none (not_lt.mp hge)]

theorem hand_idle (h : ∀ w ∈ s.workers, w.hand = .idle) (i : Nat) : s.hand i = .idle := by
  unfold System.hand
  cases hpc : s.workers[i]? with
  | none => rfl
  | some w => exact h w (List.mem_of_getElem? hpc)

theorem hand_of_workers (h : s'.workers = s.workers) (k : Nat) : s'.hand k = s.hand k := by
  unfold System.hand
  rw [h]

theorem hand_of_set {i : Nat} {b w : Worker F A} {x : Hand F A}
    (hworkers : s'.workers = s.workers.set i w) (hpc : s.workers[i]? = some b)
    (hhand : w.hand = x) (k : Nat) : s'.hand k = if k = i then x else s.hand k := by
  unfold System.hand
  rw [hworkers]
  by_cases hk : k = i
  · rw [if_pos hk, hk, getElem?_set_of_getElem? hpc, ← hhand]
  · rw [if_neg hk, List.getElem?_set_ne (Ne.symm hk)]

theorem hand_of_set_same {i : Nat} {b w : Worker F A} (hworkers : s'.workers = s.workers.set i w)
    (hpc : s.workers[i]? = some b) (hhand : w.hand = b.hand) (k : Nat) :
    s'.hand k = s.hand k := by
  rw [hand_of_set hworkers hpc hhand]
  split
  · rename_i hk
    rw [hk, hand_of_pc hpc]
  · rfl

theorem hand_of_wake (hworkers : s'.workers = s.workers.map Worker.wake) (k : Nat) :
    s'.hand k = s.hand k := by
  unfold System.hand
  rw [hworkers, List.getElem?_map]
  cases s.workers[k]? with
  | none => rfl
  | some w => cases w <;> rfl

theorem Signals.hand {ws : List (Worker F A)} (hs : Signals s ws) (hworkers : s'.workers = ws)
    (k : Nat) : s'.hand k = s.hand k := by
  cases hs with
  | wakes i hpc => exact hand_of_set_same hworkers hpc rfl k
  | lost => exact hand_of_workers hworkers k

/-- A new thread has nothing in hand. -/
theorem createThread_hand (s : System F A) (i k : Nat) :
    (createThread s i).hand k = s.hand k := by
  unfold System.hand
  change (match (s.workers ++ [Worker.start])[k]? with | some w => w.hand | none => .idle) = _
  by_cases hlt : k < s.workers.length
  · rw [List.getElem?_append_left hlt]
  · rw [List.getElem?_append_right (not_lt.mp hlt), List.getElem?_eq_none (not_lt.mp hlt)]
    cases hk : k - s.workers.length with
    | zero => rfl
    | succ n => rfl

/-- What a step does to the tasks in hand. -/
inductive HandStep (s s' : System F A) : Act F A → Prop where
  | same (a : Act F A) (hidle : ∀ i, a = .worker i → s.hand i = .idle)
      (htaken : s'.taken = s.taken) (hhand : ∀ k, s'.hand k = s.hand k) : HandStep s s' a
  | takes (i : Nat) (task : ThreadpoolTask F A) (hidle : s.hand i = .idle)
      (hin : i < s.workers.length) (htaken : s'.taken = s.taken ++ [task])
      (hhand : ∀ k, s'.hand k = if k = i then .took task else s.hand k) :
      HandStep s s' (.worker i)
  | begins (i : Nat) (task : ThreadpoolTask F A) (htook : s.hand i = .took task)
      (htaken : s'.taken = s.taken)
      (hhand : ∀ k, s'.hand k = if k = i then .busy task else s.hand k) :
      HandStep s s' (.worker i)
  | finishes (i : Nat) (task : ThreadpoolTask F A) (hbusy : s.hand i = .busy task)
      (htaken : s'.taken = s.taken)
      (hhand : ∀ k, s'.hand k = if k = i then .idle else s.hand k) :
      HandStep s s' (.worker i)

/-- A worker without a task stays without one. -/
theorem HandStep.idle {i : Nat} {b w : Worker F A} (hworkers : s'.workers = s.workers.set i w)
    (hpc : s.workers[i]? = some b) (hb : b.hand = .idle) (hw : w.hand = .idle)
    (htaken : s'.taken = s.taken) : HandStep s s' (.worker i) := by
  refine .same _ ?_ htaken (hand_of_set_same hworkers hpc (hw.trans hb.symm))
  intro k hk
  cases hk
  exact (hand_of_pc hpc).trans hb

theorem WorkerStep.hand {i : Nat} (h : WorkerStep s i s') : HandStep s s' (.worker i) := by
  cases h with
  | sleeps w ht => rcases ht.pc with hpc | hpc <;> exact .idle rfl hpc rfl rfl rfl
  | quits w ht => rcases ht.pc with hpc | hpc <;> exact .idle rfl hpc rfl rfl rfl
  | takes w ht =>
      rcases ht.pc with hpc | hpc <;>
        exact .takes i _ (hand_of_pc hpc) (List.getElem?_eq_some_iff.mp hpc).1 rfl
          (hand_of_set rfl hpc rfl)
  | surplus hlock hpc => exact .idle rfl hpc rfl rfl rfl
  | waits hpc => exact .idle rfl hpc rfl rfl rfl
  | begins task hpc => exact .begins i task (hand_of_pc hpc) rfl (hand_of_set rfl hpc rfl)
  | finishes task hpc => exact .finishes i task (hand_of_pc hpc) rfl (hand_of_set rfl hpc rfl)
  | exits b hpc => exact .idle rfl hpc rfl rfl rfl

theorem AdminStep.hand (h : AdminStep s s') (k : Nat) : s'.hand k = s.hand k := by
  cases h with
  | grows =>
      exact growLoop_invariant (fun t => t.hand k = s.hand k)
        (fun t i ht _ _ _ => (createThread_hand t i k).trans ht) _ 0 0
        (le_refl (0 + s.pool.maxThrNum.toNat)) rfl
  | signals left ws hpc hs => exact hs.hand rfl k
  | _ => exact hand_of_workers rfl k

/-- **Tasks in hand.** -/
theorem System.step_hand (hstep : s.step a = some s') : HandStep s s' a := by
  cases System.step_cases hstep with
  | worker i _ hw => exact hw.hand
  | wakeWorker i hpc =>
      exact .same _ (fun _ h => nomatch h) rfl (hand_of_set_same rfl hpc rfl)
  | caller j _ hc =>
      cases hc <;> exact .same _ (fun _ h => nomatch h) rfl (hand_of_workers rfl)
  | callerSignal j pick task ws hpc hs => exact .same _ (fun _ h => nomatch h) rfl (hs.hand rfl)
  | admin _ ha => exact .same _ (fun _ h => nomatch h) ha.sameQueue.1.taken ha.hand
  | adminSignal pick _ ha => exact .same _ (fun _ h => nomatch h) ha.sameQueue.1.taken ha.hand
  | destroy _ hd =>
      refine .same _ (fun _ h => nomatch h) hd.sameQueue.1.taken fun k => ?_
      cases hd with
      | broadcasts => exact hand_of_wake rfl k
      | _ => exact hand_of_workers rfl k
  | _ => exact .same _ (fun _ h => nomatch h) rfl (hand_of_workers rfl)

/-- A worker that has taken a task calls its function next, -/
theorem System.step_begins {i : Nat} {task : ThreadpoolTask F A}
    (hpc : s.workers[i]? = some (.took task)) (hstep : s.step (.worker i) = some s') :
    s'.taken = s.taken ∧ ∀ k, s'.hand k = if k = i then .busy task else s.hand k := by
  have htook := hand_eq_took.mpr hpc
  cases System.step_hand hstep with
  | same _ hidle => simp [htook] at hidle
  | takes _ _ hidle => simp [htook] at hidle
  | begins _ task' htook' htaken hhand =>
      rw [htook] at htook'
      cases htook'
      exact ⟨htaken, hhand⟩
  | finishes _ _ hbusy => simp [htook] at hbusy

/-- and has none when the function has returned. -/
theorem System.step_finishes {i : Nat} {task : ThreadpoolTask F A}
    (hpc : s.workers[i]? = some (.busy task)) (hstep : s.step (.worker i) = some s') :
    s'.taken = s.taken ∧ ∀ k, s'.hand k = if k = i then .idle else s.hand k := by
  have hbusy := hand_eq_busy.mpr hpc
  cases System.step_hand hstep with
  | same _ hidle => simp [hbusy] at hidle
  | takes _ _ hidle => simp [hbusy] at hidle
  | begins _ _ htook => simp [hbusy] at htook
  | finishes _ _ _ htaken hhand => exact ⟨htaken, hhand⟩

end Hand

/-! ## The answers -/

section Answers

variable {s s' : System F A} {a : Act F A}

/-- What a step other than a new call does to the answers: it leaves them as they are, or a
call gets one, and with 0 it is accepted. -/
inductive AnswerStep (s s' : System F A) : Prop where
  | same (hacc : s'.accepted = s.accepted) (hans : ∀ k, s'.answer k = s.answer k) :
      AnswerStep s s'
  | accepts (j : Nat) (task : ThreadpoolTask F A) (hj : s.answer j = some (task, none))
      (hacc : s'.accepted = s.accepted ++ [(j, task)])
      (hans : ∀ k, s'.answer k = if k = j then some (task, some 0) else s.answer k) :
      AnswerStep s s'
  | rejects (j : Nat) (task : ThreadpoolTask F A) (hj : s.answer j = some (task, none))
      (hacc : s'.accepted = s.accepted)
      (hans : ∀ k, s'.answer k = if k = j then some (task, some (-1)) else s.answer k) :
      AnswerStep s s'

theorem answer_of_set_pc {j : Nat} {c c' : Call F A} {task : ThreadpoolTask F A}
    {ret : Option Int} (hcalls : s'.calls = s.calls.set j c') (hpc : s.calls[j]? = some c)
    (hans : (c'.task, c'.pc.answer) = (task, ret)) (k : Nat) :
    s'.answer k = if k = j then some (task, ret) else s.answer k := by
  rw [answer_of_set hcalls hpc, ← hans]

theorem CallerStep.answers {j : Nat} (h : CallerStep s j s') : AnswerStep s s' := by
  cases h with
  | blocks task he =>
      obtain ⟨pc, hpc, hnone⟩ := he.getElem?
      exact .same rfl (answer_of_set_same rfl hpc rfl hnone.symm)
  | rejects task he =>
      obtain ⟨pc, hpc, -⟩ := he.getElem?
      exact .rejects j task he.answer rfl (answer_of_set_pc rfl hpc rfl)
  | enqueues task he =>
      obtain ⟨pc, hpc, -⟩ := he.getElem?
      exact .accepts j task he.answer rfl (answer_of_set_pc rfl hpc rfl)
  | waits task hpc => exact .same rfl (answer_of_set_same rfl hpc rfl rfl)

theorem System.step_answers (hstep : s.step a = some s')
    (hcall : ∀ function arg, a ≠ .call function arg) : AnswerStep s s' := by
  cases System.step_cases hstep with
  | worker i _ hw =>
      cases hw with
      | takes => exact .same rfl (answer_of_wake rfl)
      | _ => exact .same rfl (answer_of_calls rfl)
  | call function arg => exact absurd rfl (hcall function arg)
  | caller j _ hc => exact hc.answers
  | callerSignal j pick task ws hpc => exact .same rfl (answer_of_set_same rfl hpc rfl rfl)
  | wakeCaller j task hpc => exact .same rfl (answer_of_set_same rfl hpc rfl rfl)
  | wakeWorker => exact .same rfl (answer_of_calls rfl)
  | admin _ ha => exact .same ha.sameQueue.1.accepted (answer_of_calls ha.sameQueue.2)
  | adminSignal pick _ ha =>
      exact .same ha.sameQueue.1.accepted (answer_of_calls ha.sameQueue.2)
  | destroy _ hd => exact .same hd.sameQueue.1.accepted (answer_of_calls hd.sameQueue.2)

/-- A new call has no answer. -/
theorem System.call_answer {function : F} {arg : Option A}
    (hstep : s.step (.call function arg) = some s') :
    s'.accepted = s.accepted ∧ s'.calls.length = s.calls.length + 1 ∧
      ∀ k, s'.answer k = if k = s.calls.length then some (⟨function, arg⟩, none)
        else s.answer k := by
  cases hstep
  refine ⟨rfl, by simp, fun k => ?_⟩
  unfold System.answer
  -- the calls before keep their numbers
  by_cases hlt : k < s.calls.length
  · rw [if_neg (by omega), List.getElem?_append_left hlt]
  · rw [List.getElem?_append_right (not_lt.mp hlt)]
    split
    · rename_i hk
      subst hk
      rw [Nat.sub_self]
      rfl
    · rename_i hk
      obtain ⟨n, hn⟩ : ∃ n, k - s.calls.length = n + 1 := ⟨k - s.calls.length - 1, by omega⟩
      rw [hn, List.getElem?_eq_none (not_lt.mp hlt)]
      rfl

end Answers

/-! ## The queue of every reachable state -/

/-- What the task queue is, in a state of a pool with `cap` cells. -/
structure QueueCorrect (cap : Int) (s : System F A) : Prop where
  size_nonneg : 0 ≤ s.pool.queueSize
  size_le : s.pool.queueSize ≤ cap
  front_nonneg : 0 ≤ s.pool.queueFront
  front_lt : s.pool.queueFront < cap
  rear_nonneg : 0 ≤ s.pool.queueRear
  rear_lt : s.pool.queueRear < cap
  rear : s.pool.queueRear = (s.pool.queueFront + s.pool.queueSize) % cap
  /-- the tasks taken come first among those accepted, and the ring holds the others -/
  fifo : ∃ rest, s.accepted.map Prod.snd = s.taken ++ rest ∧
    (rest.length : Int) = s.pool.queueSize ∧
    Ring.Holds s.pool.taskQueue cap s.pool.queueFront rest
  /-- a task is taken when it comes into the hand of a worker, which then runs it -/
  hands : ∀ a s', s.step a = some s' → HandStep s s' a
  /-- the accepted calls are those that answer 0, each once, and the others answer -1 -/
  answers : Answers s
  /-- a step of a call after which it does not answer 0 leaves the pool alone -/
  rejected : ∀ j s', s.step (.caller j) = some s' →
    (∃ task, s'.answer j = some (task, some 0)) ∨ s'.pool = s.pool

/-- **The task queue.** In every state that a pool of any capacity reaches, whatever its
threads do in whatever order. -/
theorem threadpool_queueCorrect (minThrNum maxThrNum cap : Int)
    (heap : Int → ThreadpoolTask F A) (hcap : 1 ≤ cap) (s : System F A)
    (hs : Machine.Reaches System.step (threadpoolCreate minThrNum maxThrNum cap heap) s) :
    QueueCorrect cap s := by
  obtain ⟨rest, h⟩ := hs.invariant (fun s => ∃ rest, Fifo cap s rest)
    (fun s a s' ⟨rest, h⟩ hstep => h.step (System.step_cases hstep))
    ⟨[], threadpoolCreate_fifo minThrNum maxThrNum heap hcap⟩
  have hanswers := hs.invariant Answers (fun s a s' h hstep => h.step (System.step_cases hstep))
    (threadpoolCreate_answers minThrNum maxThrNum cap heap)
  have hrear := h.rear
  refine ⟨?_, ?_, h.ring.front_nonneg, h.ring.front_lt, ?_, ?_, ?_,
    ⟨rest, h.order, h.size.symm, h.ring⟩, fun a s' => System.step_hand, hanswers, ?_⟩
  · rw [h.size]
    omega
  · rw [h.size]
    exact h.ring.length_le
  · rw [hrear]
    exact Ring.index_nonneg (by omega)
  · rw [hrear]
    exact Ring.index_lt (by omega)
  · rw [hrear, h.size]
    rfl
  · intro j s' hstep
    exact (threadpoolAddTask_cases hstep).pool

/-- One cell, two calls: the second one waits until the worker has taken the first task, and
adds its own in the same cell. -/
def fillTwice : List (Act Unit Nat) :=
  [.call () (some 7), .call () none, .caller 0, .caller 1, .caller 1, .callerSignal 0 none,
    .worker 0, .caller 1]

theorem threadpool_queueCorrect_fillTwice :
    ∃ s, Machine.run System.step (threadpoolCreate 1 1 1 fun _ => ⟨(), none⟩) fillTwice = some s ∧
      QueueCorrect 1 s := by
  obtain ⟨s, hs⟩ : ∃ s, Machine.run System.step
      (threadpoolCreate 1 1 1 fun _ => (⟨(), none⟩ : ThreadpoolTask Unit Nat)) fillTwice
        = some s := Option.isSome_iff_exists.mp (by decide)
  exact ⟨s, hs, threadpool_queueCorrect 1 1 1 _ le_rfl s ⟨fillTwice, hs⟩⟩

/-! ## Pools of constant size -/

section Constant

variable {n : Int} {s s' : System F A} {a : Act F A}

/-- With equal bounds there is never room for one more thread. -/
theorem Counted.growLoop_eq (h : Counted n n s) (left i add : Nat) :
    growLoop left i add s = s := by
  cases left with
  | zero => rfl
  | succ left =>
      have := h.min_le
      have := h.max_eq
      unfold growLoop
      rw [if_neg (by omega)]

theorem Counted.workers_length (h : Counted n n s) (hstep : s.step a = some s') :
    s'.workers.length = s.workers.length := by
  -- the admin thread creates none, and wakes at most one
  have hadmin : ∀ t : System F A, AdminStep s t → t.workers.length = s.workers.length := by
    intro t ht
    cases ht with
    | grows =>
        show (growLoop _ 0 0 s).workers.length = _
        rw [h.growLoop_eq]
    | signals left ws hpc hs =>
        cases hs with
        | wakes i hpc => exact List.length_set
        | lost => rfl
    | _ => rfl
  cases System.step_cases hstep with
  | worker i _ hw =>
      obtain ⟨b, w, hm⟩ := hw.moves
      rw [hm.after, List.length_set]
  | wakeWorker i hpc => exact List.length_set
  | caller j _ hc => cases hc <;> rfl
  | callerSignal j pick task ws hpc hs =>
      cases hs with
      | wakes i hpc => exact List.length_set
      | lost => rfl
  | admin _ ha => exact hadmin _ ha
  | adminSignal pick _ ha => exact hadmin _ ha
  | destroy _ hd =>
      cases hd with
      | broadcasts => exact List.length_map _
      | _ => rfl
  | call => rfl
  | wakeCaller => rfl

/-- **One worker.** A pool with both bounds at `n` has the `n` threads that it started with. -/
theorem threadpool_constant (n queueMaxSize : Int) (heap : Int → ThreadpoolTask F A)
    (hn : 0 ≤ n) (s : System F A)
    (hs : Machine.Reaches System.step (threadpoolCreate n n queueMaxSize heap) s) :
    s.workers.length = n.toNat := by
  have h := hs.invariant (fun s => Counted n n s ∧ s.workers.length = n.toNat)
    (fun s a s' h hstep =>
      ⟨h.1.step (System.step_cases hstep), (h.1.workers_length hstep).trans h.2⟩)
    ⟨threadpoolCreate_counted queueMaxSize heap hn le_rfl, List.length_replicate⟩
  exact h.2

end Constant

end SpeechStack
