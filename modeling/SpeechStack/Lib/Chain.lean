import Mathlib.Tactic

set_option autoImplicit false

/-! # Linked chains

A singly linked chain in memory: `next` gives the successor of a node, and `none` is NULL. A
pointer is the start of at most one chain, and a chain is left alone by stores into other nodes.
-/

namespace Chain

variable {ν : Type}

/-- From `p` on the nodes are `xs`, and the last one has no successor. -/
def IsChain (next : ν → Option ν) : Option ν → List ν → Prop
  | p, [] => p = none
  | p, x :: xs => p = some x ∧ IsChain next (next x) xs

variable {next next' : ν → Option ν} {p : Option ν} {xs ys : List ν}

/-- The pointer to a chain is the pointer to its first node. -/
theorem IsChain.eq_head? (h : IsChain next p xs) : p = xs.head? := by
  cases xs with
  | nil => exact h
  | cons x xs => exact h.1

theorem IsChain.unique (h : IsChain next p xs) (h' : IsChain next p ys) : xs = ys := by
  induction xs generalizing p ys with
  | nil =>
      cases ys with
      | nil => rfl
      | cons y ys => exact absurd (h'.1.symm.trans h) (Option.some_ne_none y)
  | cons x xs ih =>
      cases ys with
      | nil => exact absurd (h.1.symm.trans h') (Option.some_ne_none x)
      | cons y ys =>
          obtain rfl : x = y := Option.some.inj (h.1.symm.trans h'.1)
          rw [ih h.2 h'.2]

/-- A chain depends on the successors of its own nodes only. -/
theorem IsChain.congr (h : IsChain next p xs) (heq : ∀ x ∈ xs, next' x = next x) :
    IsChain next' p xs := by
  induction xs generalizing p with
  | nil => exact h
  | cons x xs ih =>
      refine ⟨h.1, ?_⟩
      rw [heq x List.mem_cons_self]
      exact ih h.2 fun y hy => heq y (List.mem_cons_of_mem x hy)

variable [DecidableEq ν]

/-- Make each node of a list the successor of the one before; the last one is left as it is. -/
def link : List ν → (ν → Option ν) → ν → Option ν
  | x :: y :: xs, next => link (y :: xs) (Function.update next x (some y))
  | [_], next => next
  | [], next => next

theorem link_of_not_mem {n : ν} (xs : List ν) (next : ν → Option ν) (h : n ∉ xs) :
    link xs next n = next n := by
  induction xs generalizing next with
  | nil => rfl
  | cons x xs ih =>
      obtain ⟨hx, hxs⟩ := not_or.mp (mt List.mem_cons.mpr h)
      cases xs with
      | nil => rfl
      | cons y ys => rw [link, ih _ hxs, Function.update_of_ne hx]

end Chain
