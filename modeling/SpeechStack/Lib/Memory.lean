import Mathlib.Tactic

set_option autoImplicit false

/-! # Cells and ranges of a memory

A memory is a function from cell numbers to contents. `store` overwrites a range of cells
with a given image; `memmove` and `memset` are the two instances that programs use. A range
of a memory *holds* a stretch of a stream when it agrees with it cell by cell (`Holds`).
-/

namespace Memory

variable {α : Type}

/-- Overwrite the `n` cells from `off` on with `img 0, …, img (n - 1)`. -/
def store (m : Nat → α) (off n : Nat) (img : Nat → α) : Nat → α :=
  fun i => if off ≤ i ∧ i < off + n then img (i - off) else m i

/-- Copy `n` cells from `src` to `dst`; the image is read before anything is written. -/
def memmove (m : Nat → α) (dst src n : Nat) : Nat → α :=
  store m dst n fun k => m (src + k)

/-- Set the `n` cells from `off` on to `v`. -/
def memset (m : Nat → α) (off n : Nat) (v : α) : Nat → α :=
  store m off n fun _ => v

/-- The `n` cells from `off` on, as a list. -/
def load (m : Nat → α) (off n : Nat) : List α :=
  (List.range n).map fun k => m (off + k)

theorem store_inside (m : Nat → α) {off n i : Nat} (img : Nat → α) (h₁ : off ≤ i)
    (h₂ : i < off + n) : store m off n img i = img (i - off) := if_pos ⟨h₁, h₂⟩

theorem store_outside (m : Nat → α) {off n i : Nat} (img : Nat → α)
    (h : i < off ∨ off + n ≤ i) : store m off n img i = m i := if_neg (by omega)

@[simp] theorem load_length (m : Nat → α) (off n : Nat) : (load m off n).length = n := by
  simp [load]

/-! ## Ranges that hold a stretch of a stream -/

/-- The `n` cells from `off` on are the `n` elements of `w` from position `p` on. -/
def Holds (m : Nat → α) (off : Nat) (w : Nat → α) (p n : Nat) : Prop :=
  ∀ k, k < n → m (off + k) = w (p + k)

variable {m w : Nat → α} {off p n : Nat}

theorem holds_zero (m : Nat → α) (off : Nat) (w : Nat → α) (p : Nat) : Holds m off w p 0 :=
  fun _ hk => absurd hk (Nat.not_lt_zero _)

/-- Dropping the first `k` cells of a range that holds a stretch. -/
theorem Holds.drop (h : Holds m off w p n) (k : Nat) : Holds m (off + k) w (p + k) (n - k) := by
  intro i hi
  have := h (k + i) (by omega)
  rwa [← Nat.add_assoc, ← Nat.add_assoc] at this

/-- Storing the next elements of the stream behind a range extends the range. -/
theorem Holds.store_append (h : Holds m off w p n) (k : Nat) :
    Holds (store m (off + n) k fun i => w (p + n + i)) off w p (n + k) := by
  intro i hi
  by_cases hin : i < n
  · rw [store_outside _ _ (Or.inl (by omega))]
    exact h i hin
  · rw [store_inside _ _ (by omega) (by omega)]
    congr 1
    omega

theorem Holds.memmove {src k : Nat} (h : Holds m src w p n) (hk : n ≤ k) (dst : Nat) :
    Holds (memmove m dst src k) dst w p n := by
  intro i hi
  rw [Memory.memmove, store_inside _ _ (by omega) (by omega), Nat.add_sub_cancel_left]
  exact h i hi

theorem Holds.memset {off' k : Nat} {v : α} (h : Holds m off w p n)
    (hsep : off + n ≤ off' ∨ off' + k ≤ off) : Holds (memset m off' k v) off w p n := by
  intro i hi
  rw [Memory.memset, store_outside _ _ (by omega)]
  exact h i hi

end Memory
