import Mathlib.Tactic

set_option autoImplicit false

/-! # Ring buffers

A ring buffer keeps a queue in an array of `cap` cells: the `k`-th element of the queue is in
the cell `(front + k) % cap`. `Holds cells cap front xs` says that the array holds the queue
`xs`; `Holds.append` and `Holds.drop` are the two operations on it, `Holds.push` and `Holds.pop`
those on one element.
-/

namespace Ring

variable {α : Type}

/-- The cell of the `k`-th element. -/
def index (cap front : Int) (k : Nat) : Int := (front + k) % cap

section Index

variable {cap front : Int} {i k : Nat}

theorem index_zero (h₀ : 0 ≤ front) (h : front < cap) : index cap front 0 = front := by
  rw [index, Nat.cast_zero, add_zero, Int.emod_eq_of_lt h₀ h]

theorem index_nonneg (h : 0 < cap) : 0 ≤ index cap front k := Int.emod_nonneg _ (by omega)

theorem index_lt (h : 0 < cap) : index cap front k < cap := Int.emod_lt_of_pos _ h

/-- Moving the front on by `i` drops the first `i` elements. -/
theorem index_advance_by : index cap ((front + i) % cap) k = index cap front (i + k) := by
  rw [index, index, Int.emod_add_emod]
  congr 1
  push_cast
  ring

/-- The index `i` cells on. -/
theorem index_add : (index cap front k + i) % cap = index cap front (k + i) := by
  rw [index, index, Int.emod_add_emod]
  congr 1
  push_cast
  ring

/-- Before the end of the array the cells are next to each other. -/
theorem index_add_of_lt (h : 0 < cap) (hend : index cap front k + i < cap) :
    index cap front (k + i) = index cap front k + i := by
  have hnonneg : 0 ≤ index cap front k := index_nonneg h
  rw [← index_add, Int.emod_eq_of_lt (by omega) hend]

/-- An index that has passed the end at most once is brought back by one subtraction. -/
theorem wrap_eq_emod {a : Int} (h₀ : 0 ≤ a) (h : a < 2 * cap) :
    (if cap ≤ a then a - cap else a) = a % cap := by
  by_cases hwrap : cap ≤ a
  · rw [if_pos hwrap, ← Int.sub_emod_right, Int.emod_eq_of_lt (by omega) (by omega)]
  · rw [if_neg hwrap, Int.emod_eq_of_lt h₀ (by omega)]

theorem index_advance : index cap ((front + 1) % cap) k = index cap front (k + 1) := by
  rw [Nat.add_comm k 1, ← index_advance_by, Nat.cast_one]

/-- The tail index, moved on by one. -/
theorem index_succ : (index cap front k + 1) % cap = index cap front (k + 1) := by
  rw [← index_add, Nat.cast_one]

/-- Elements less than `cap` apart are in different cells. -/
theorem index_ne (hik : i < k) (hcap : (k : Int) < i + cap) :
    index cap front i ≠ index cap front k := by
  intro heq
  have hdvd : cap ∣ (k : Int) - i := by
    apply Int.dvd_of_emod_eq_zero
    calc ((k : Int) - i) % cap = (front + k - (front + i)) % cap := by congr 1; ring
      _ = 0 := Int.emod_eq_emod_iff_emod_sub_eq_zero.mp heq.symm
  have hle := Int.le_of_dvd (by omega) hdvd
  omega

end Index

/-- The ring of `cap` cells holds the queue `xs` from `front` on. -/
structure Holds (cells : Int → α) (cap front : Int) (xs : List α) : Prop where
  front_nonneg : 0 ≤ front
  front_lt : front < cap
  length_le : (xs.length : Int) ≤ cap
  cell : ∀ k, k < xs.length → xs[k]? = some (cells (index cap front k))

section Operations

variable {cells cells' : Int → α} {cap front : Int} {x : α} {xs ys : List α}

theorem holds_nil (cells : Int → α) (h₀ : 0 ≤ front) (h : front < cap) :
    Holds cells cap front [] where
  front_nonneg := h₀
  front_lt := h
  length_le := by
    show (0 : Int) ≤ cap
    omega
  cell k hk := absurd hk (Nat.not_lt_zero k)

/-- Writes to the cells behind the last element append. -/
theorem Holds.append (h : Holds cells cap front xs)
    (hroom : (xs.length : Int) + ys.length ≤ cap)
    (hnew : ∀ k, k < ys.length → ys[k]? = some (cells' (index cap front (xs.length + k))))
    (hold : ∀ k, k < xs.length → cells' (index cap front k) = cells (index cap front k)) :
    Holds cells' cap front (xs ++ ys) where
  front_nonneg := h.front_nonneg
  front_lt := h.front_lt
  length_le := by
    rw [List.length_append]
    push_cast
    exact hroom
  cell k hk := by
    rw [List.length_append] at hk
    by_cases hlt : k < xs.length
    · rw [List.getElem?_append_left hlt, hold k hlt, h.cell k hlt]
    · have hge : xs.length ≤ k := Nat.le_of_not_lt hlt
      rw [List.getElem?_append_right hge, hnew _ (by omega), Nat.add_sub_cancel' hge]

/-- Moving the front on by `n` removes the first `n` elements. -/
theorem Holds.drop (h : Holds cells cap front xs) {n : Nat} (hn : n ≤ xs.length) :
    Holds cells cap ((front + n) % cap) (xs.drop n) where
  front_nonneg := Int.emod_nonneg _ (by have := h.front_nonneg; have := h.front_lt; omega)
  front_lt := Int.emod_lt_of_pos _ (by have := h.front_nonneg; have := h.front_lt; omega)
  length_le := by
    have hlen := h.length_le
    rw [List.length_drop]
    omega
  cell k hk := by
    rw [List.length_drop] at hk
    rw [List.getElem?_drop, index_advance_by]
    exact h.cell (n + k) (by omega)

/-- A ring that holds more holds the front of it. -/
theorem Holds.left (h : Holds cells cap front (xs ++ ys)) : Holds cells cap front xs where
  front_nonneg := h.front_nonneg
  front_lt := h.front_lt
  length_le := by
    have hlen := h.length_le
    rw [List.length_append] at hlen
    push_cast at hlen
    omega
  cell k hk := by
    rw [← List.getElem?_append_left hk]
    exact h.cell k (by rw [List.length_append]; omega)

/-- A write to the cell behind the last element appends it. -/
theorem Holds.push (h : Holds cells cap front xs) (hroom : (xs.length : Int) < cap)
    (hnew : cells' (index cap front xs.length) = x)
    (hold : ∀ i, i ≠ index cap front xs.length → cells' i = cells i) :
    Holds cells' cap front (xs ++ [x]) := by
  apply h.append
  · rw [List.length_singleton]
    push_cast
    omega
  · intro k hk
    obtain rfl : k = 0 := by simpa using hk
    rw [Nat.add_zero, hnew]
    rfl
  · intro k hk
    exact hold _ (index_ne hk (by omega))

/-- Moving the front on removes the first element. -/
theorem Holds.pop (h : Holds cells cap front (x :: xs)) :
    cells front = x ∧ Holds cells cap ((front + 1) % cap) xs := by
  constructor
  · have hzero := h.cell 0 (by simp)
    rw [index_zero h.front_nonneg h.front_lt] at hzero
    exact (Option.some.inj hzero).symm
  · have hdrop := h.drop (show 1 ≤ (x :: xs).length by simp)
    rwa [Nat.cast_one] at hdrop

end Operations

end Ring
