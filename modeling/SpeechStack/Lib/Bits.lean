import Mathlib.Data.List.GetD
import SpeechStack.Lib.Memory

set_option autoImplicit false

/-! # Bit streams

A list of words of one width is a stream of bits, each word with its most significant bit
first (`bitsOf`); a stream splits into words of any width again (`wordsOf`). The cells of a
memory *spell* a stream when they are its bits followed by zeros (`Spells`): writers that
append to a cleared memory keep that form, whatever the width of what they write
(`Spells.append`).
-/

namespace Bits

open Memory

variable {v w : Nat}

/-- The bits of a word, most significant first. -/
def bits (x : BitVec w) : List Bool := (List.range w).map x.getMsbD

/-- The bits of a list of words. -/
def bitsOf (ws : List (BitVec w)) : List Bool := ws.flatMap bits

@[simp] theorem bits_length (x : BitVec w) : (bits x).length = w := by simp [bits]

theorem bits_getD (x : BitVec w) (k : Nat) : (bits x).getD k false = x.getMsbD k := by
  by_cases hk : k < w
  · simp [bits, hk]
  · simp [bits, hk, BitVec.getMsbD_of_ge x k (Nat.le_of_not_lt hk)]

theorem bits_cons (b : Bool) (x : BitVec w) : bits (BitVec.cons b x) = b :: bits x := by
  simp [bits, List.range_succ_eq_map, Function.comp_def]

theorem bits_injective : Function.Injective (bits (w := w)) := by
  intro x y h
  apply BitVec.eq_of_getMsbD_eq
  intro k _
  rw [← bits_getD x, ← bits_getD y, h]

@[simp] theorem bitsOf_nil : bitsOf ([] : List (BitVec w)) = [] := rfl

theorem bitsOf_cons (x : BitVec w) (xs : List (BitVec w)) :
    bitsOf (x :: xs) = bits x ++ bitsOf xs := List.flatMap_cons

theorem bitsOf_append (xs ys : List (BitVec w)) :
    bitsOf (xs ++ ys) = bitsOf xs ++ bitsOf ys := List.flatMap_append

theorem bitsOf_singleton (x : BitVec w) : bitsOf [x] = bits x := by simp [bitsOf]

@[simp] theorem bitsOf_length (xs : List (BitVec w)) : (bitsOf xs).length = w * xs.length := by
  induction xs with
  | nil => simp
  | cons x xs ih =>
      rw [bitsOf_cons, List.length_append, bits_length, ih, List.length_cons]
      ring

/-! ## Splitting a stream -/

/-- The word made of the first `w` bits of a stream. -/
def wordAt (w : Nat) (bs : List Bool) : BitVec w :=
  (BitVec.ofBoolListBE ((List.range w).map fun k => bs.getD k false)).cast (by simp)

/-- The whole words of a stream. -/
def wordsOf (w : Nat) (bs : List Bool) : List (BitVec w) :=
  (List.range (bs.length / w)).map fun i => wordAt w (bs.drop (w * i))

theorem wordAt_bits (x : BitVec w) (bs : List Bool) : wordAt w (bits x ++ bs) = x := by
  apply BitVec.eq_of_getMsbD_eq
  intro k hk
  unfold wordAt
  rw [BitVec.getMsbD_cast, BitVec.getMsbD_ofBoolListBE]
  have hfront : (bits x ++ bs).getD k false = x.getMsbD k := by
    rw [List.getD_append _ _ _ _ (by simpa using hk), bits_getD]
  simpa [hk] using hfront

/-- Splitting undoes spelling, and drops what is left of a word. -/
theorem wordsOf_bitsOf (ws : List (BitVec w)) (pad : List Bool) (hpad : pad.length < w) :
    wordsOf w (bitsOf ws ++ pad) = ws := by
  have hcount : (bitsOf ws ++ pad).length / w = ws.length := by
    rw [List.length_append, bitsOf_length, Nat.mul_add_div (by omega), Nat.div_eq_of_lt hpad,
      Nat.add_zero]
  apply List.ext_getElem
  · rw [wordsOf, List.length_map, List.length_range, hcount]
  · intro i h₁ h₂
    have hsplit : bitsOf ws = bitsOf (ws.take i) ++ (bits ws[i] ++ bitsOf (ws.drop (i + 1))) := by
      rw [← bitsOf_cons, List.getElem_cons_drop, ← bitsOf_append, List.take_append_drop]
    have hlen : (bitsOf (ws.take i)).length = w * i := by
      rw [bitsOf_length, List.length_take, Nat.min_eq_left h₂.le]
    have hdrop : (bitsOf ws ++ pad).drop (w * i)
        = bits ws[i] ++ (bitsOf (ws.drop (i + 1)) ++ pad) := by
      calc (bitsOf ws ++ pad).drop (w * i)
          = (bitsOf (ws.take i) ++ (bits ws[i] ++ bitsOf (ws.drop (i + 1)) ++ pad)).drop
              (bitsOf (ws.take i)).length := by rw [hsplit, List.append_assoc, hlen]
        _ = bits ws[i] ++ bitsOf (ws.drop (i + 1)) ++ pad := List.drop_left
        _ = bits ws[i] ++ (bitsOf (ws.drop (i + 1)) ++ pad) := List.append_assoc _ _ _
    simp only [wordsOf, List.getElem_map, List.getElem_range]
    rw [hdrop, wordAt_bits]

/-- Words of the same width are known from their bits. -/
theorem bitsOf_injective (hw : 0 < w) :
    Function.Injective (bitsOf : List (BitVec w) → List Bool) := by
  intro xs ys h
  rw [← wordsOf_bitsOf xs [] hw, ← wordsOf_bitsOf ys [] hw, h]

/-! ## Cells that spell a stream -/

/-- Bit `k` of a memory. -/
def bitAt (m : Nat → BitVec w) (k : Nat) : Bool := (m (k / w)).getMsbD (k % w)

/-- The first `n` cells of `m` are the bits of `bs` followed by zeros. -/
structure Spells (m : Nat → BitVec w) (n : Nat) (bs : List Bool) : Prop where
  fits : bs.length ≤ w * n
  bit : ∀ k, k < w * n → bitAt m k = bs.getD k false

variable {m m' : Nat → BitVec w} {n : Nat} {bs cs : List Bool}

theorem bitsOf_load (m : Nat → BitVec w) (n : Nat) :
    bitsOf (load m 0 n) = (List.range (w * n)).map (bitAt m) := by
  induction n with
  | zero => simp [load]
  | succ n ih =>
      have hlast : load m 0 (n + 1) = load m 0 n ++ [m n] := by
        simp [load, List.range_succ]
      have hbits : bits (m n) = (List.range w).map fun k => bitAt m (w * n + k) := by
        refine List.map_congr_left fun k hk => ?_
        have hk := List.mem_range.mp hk
        simp [bitAt, Nat.mul_add_div (show 0 < w by omega), Nat.div_eq_of_lt hk,
          Nat.mod_eq_of_lt hk]
      calc bitsOf (load m 0 (n + 1)) = bitsOf (load m 0 n) ++ bits (m n) := by
            rw [hlast, bitsOf_append, bitsOf_singleton]
        _ = (List.range (w * n)).map (bitAt m)
              ++ (List.range w).map (fun k => bitAt m (w * n + k)) := by rw [ih, hbits]
        _ = (List.range (w * (n + 1))).map (bitAt m) := by
            rw [Nat.mul_succ, List.range_add, List.map_append, List.map_map]
            rfl

theorem Spells.bitsOf_load (h : Spells m n bs) :
    bitsOf (load m 0 n) = bs ++ List.replicate (w * n - bs.length) false := by
  have hfits := h.fits
  rw [Bits.bitsOf_load]
  apply List.ext_getElem
  · simp
    omega
  · intro k h₁ h₂
    have hk : k < w * n := by simpa using h₁
    simp only [List.getElem_map, List.getElem_range, h.bit k hk]
    by_cases hb : k < bs.length
    · simp [hb, List.getElem_append_left]
    · simp [hb, List.getElem_append_right, Nat.le_of_not_lt hb]

theorem spells_memset (m : Nat → BitVec w) (n : Nat) : Spells (memset m 0 n 0) n [] where
  fits := by simp
  bit := by
    intro k hk
    have hcell : memset m 0 n 0 (k / w) = 0 :=
      store_inside _ _ (Nat.zero_le _) (by
        rw [Nat.zero_add]
        exact Nat.div_lt_of_lt_mul hk)
    rw [bitAt, hcell]
    simp

/-- A writer that puts `cs` behind what is spelled, and leaves the other bits alone. -/
theorem Spells.append (h : Spells m n bs) (hfits : bs.length + cs.length ≤ w * n)
    (hnew : ∀ k, k < cs.length → bitAt m' (bs.length + k) = cs.getD k false)
    (hold : ∀ k, k < w * n → k < bs.length ∨ bs.length + cs.length ≤ k →
      bitAt m' k = bitAt m k) : Spells m' n (bs ++ cs) where
  fits := by
    rw [List.length_append]
    exact hfits
  bit := by
    intro k hk
    by_cases h₁ : k < bs.length
    · rw [hold k hk (Or.inl h₁), h.bit k hk, List.getD_append _ _ _ _ h₁]
    · rw [List.getD_append_right _ _ _ _ (Nat.le_of_not_lt h₁)]
      by_cases h₂ : k < bs.length + cs.length
      · rw [← hnew (k - bs.length) (by omega), Nat.add_sub_cancel' (Nat.le_of_not_lt h₁)]
      · rw [hold k hk (Or.inr (by omega)), h.bit k hk,
          List.getD_eq_default _ _ (by omega), List.getD_eq_default _ _ (by omega)]

/-- A writer that overwrites the next cells as a whole. -/
theorem Spells.append_cells {d : Nat} (h : Spells m n bs) (cells : List (BitVec w))
    (hd : bs.length = w * d) (hfits : d + cells.length ≤ n)
    (hnew : ∀ j, j < cells.length → m' (d + j) = cells.getD j 0)
    (hold : ∀ i, i < d ∨ d + cells.length ≤ i → m' i = m i) :
    Spells m' n (bs ++ bitsOf cells) := by
  refine h.append ?_ ?_ ?_
  · rw [hd, bitsOf_length, ← Nat.mul_add]
    exact Nat.mul_le_mul_left w hfits
  · intro k hk
    rw [bitsOf_length] at hk
    have hw : 0 < w := Nat.pos_of_ne_zero fun hz => by simp [hz] at hk
    have hcell : k / w < cells.length := Nat.div_lt_of_lt_mul hk
    have hbits : (bitsOf cells).getD k false = (cells.getD (k / w) 0).getMsbD (k % w) := by
      have hload : cells = load (fun j => cells.getD j 0) 0 cells.length := by
        apply List.ext_getElem
        · simp
        · intro i h₁ h₂
          simp [load, h₁]
      conv_lhs => rw [hload, Bits.bitsOf_load]
      simp [hk, bitAt]
    rw [hbits, bitAt, hd, Nat.mul_add_div hw, Nat.mul_add_mod, hnew _ hcell]
  · intro k hk hout
    rw [bitsOf_length, hd, ← Nat.mul_add] at hout
    rw [bitAt, bitAt, hold (k / w)]
    rcases hout with hlt | hge
    · exact Or.inl (Nat.div_lt_of_lt_mul hlt)
    · have hw : 0 < w := Nat.pos_of_ne_zero fun hz => by simp [hz] at hk
      exact Or.inr ((Nat.le_div_iff_mul_le hw).mpr (by rwa [Nat.mul_comm]))

end Bits
