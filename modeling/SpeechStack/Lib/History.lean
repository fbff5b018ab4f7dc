import Mathlib.Tactic

set_option autoImplicit false

/-! # Queues that remember

A queue together with what has left it, in order, each element with the way it left (`ε`). What
has left and what is waiting, one behind the other, are what has been put in (`stream`): a queue
neither loses nor reorders.
-/

/-- The elements that wait, and those that have left. -/
structure QueueHistory (α ε : Type) where
  waiting : List α
  gone : List (ε × α)

namespace QueueHistory

variable {α ε : Type}

def empty : QueueHistory α ε where
  waiting := []
  gone := []

/-- Put `xs` in, at the end. -/
def push (q : QueueHistory α ε) (xs : List α) : QueueHistory α ε where
  waiting := q.waiting ++ xs
  gone := q.gone

/-- Take `n` elements out, from the front, by `e`. -/
def pop (q : QueueHistory α ε) (e : ε) (n : Nat) : QueueHistory α ε where
  waiting := q.waiting.drop n
  gone := q.gone ++ (q.waiting.take n).map (e, ·)

/-- All that has been put in, in order. -/
def stream (q : QueueHistory α ε) : List α := q.gone.map Prod.snd ++ q.waiting

/-- What has left by `e`, in order. -/
def left [DecidableEq ε] (q : QueueHistory α ε) (e : ε) : List α :=
  (q.gone.filter (·.1 = e)).map Prod.snd

theorem stream_push (q : QueueHistory α ε) (xs : List α) :
    (q.push xs).stream = q.stream ++ xs := by
  simp [stream, push]

theorem stream_pop (q : QueueHistory α ε) (e : ε) (n : Nat) : (q.pop e n).stream = q.stream := by
  simp [stream, pop, List.map_map, Function.comp_def]

section Left

variable [DecidableEq ε]

theorem left_pop_self (q : QueueHistory α ε) (e : ε) (n : Nat) :
    (q.pop e n).left e = q.left e ++ q.waiting.take n := by
  have hall : ((q.waiting.take n).map (e, ·)).filter (·.1 = e) = (q.waiting.take n).map (e, ·) := by
    apply List.filter_eq_self.mpr
    intro p hp
    obtain ⟨x, -, rfl⟩ := List.mem_map.mp hp
    exact decide_eq_true rfl
  rw [left, pop, List.filter_append, hall, List.map_append, List.map_map]
  exact congrArg (q.left e ++ ·) (List.map_id _)

theorem left_pop_of_ne (q : QueueHistory α ε) {e e' : ε} (h : e' ≠ e) (n : Nat) :
    (q.pop e' n).left e = q.left e := by
  have hnone : ((q.waiting.take n).map (e', ·)).filter (·.1 = e) = [] := by
    apply List.filter_eq_nil_iff.mpr
    intro p hp
    obtain ⟨x, -, rfl⟩ := List.mem_map.mp hp
    simpa using h
  rw [left, pop, List.filter_append, hnone, List.append_nil]
  rfl

end Left

end QueueHistory
