import Mathlib.Tactic

set_option autoImplicit false

/-! # Ledgers

A program that acquires and releases resources writes a *ledger*, the list of what it did.
`settle ops held` reads it: what is held behind `ops` by one who held `held` before, and nothing when
something is released that is not held, such as a block freed twice. So `settle ops held = some held`
says that no resource is released that was not acquired and that none is lost.
-/

namespace Ledger

variable {ρ : Type}

inductive Op (ρ : Type) where
  | acquire (r : ρ)
  | release (r : ρ)
  deriving DecidableEq

variable [DecidableEq ρ]

/-- What is held behind `ops`. -/
def settle : List (Op ρ) → Multiset ρ → Option (Multiset ρ)
  | [], held => some held
  | .acquire r :: ops, held => settle ops (r ::ₘ held)
  | .release r :: ops, held => if r ∈ held then settle ops (held.erase r) else none

theorem settle_append (ops ops' : List (Op ρ)) (held : Multiset ρ) :
    settle (ops ++ ops') held = (settle ops held).bind (settle ops') := by
  induction ops generalizing held with
  | nil => rfl
  | cons op ops ih =>
      cases op with
      | acquire r => exact ih _
      | release r =>
          rw [List.cons_append, settle, settle]
          split
          · exact ih _
          · rfl

theorem settle_append_of_eq {ops : List (Op ρ)} {held held' : Multiset ρ}
    (h : settle ops held = some held') (ops' : List (Op ρ)) :
    settle (ops ++ ops') held = settle ops' held' := by
  rw [settle_append, h, Option.bind_some]

theorem settle_acquire {ops : List (Op ρ)} {held held' : Multiset ρ}
    (h : settle ops held = some held') (r : ρ) :
    settle (ops ++ [.acquire r]) held = some (r ::ₘ held') := by
  rw [settle_append_of_eq h]
  rfl

theorem settle_release (r : ρ) (held : Multiset ρ) :
    settle [.release r] (r ::ₘ held) = some held := by
  rw [settle, if_pos (Multiset.mem_cons_self r held), Multiset.erase_cons_head]
  rfl

/-- What is held besides does not matter to a ledger that is in order. -/
theorem settle_frame {ops : List (Op ρ)} {held held' : Multiset ρ}
    (h : settle ops held = some held') (frame : Multiset ρ) :
    settle ops (held + frame) = some (held' + frame) := by
  induction ops generalizing held with
  | nil =>
      obtain rfl := Option.some.inj h
      rfl
  | cons op ops ih =>
      cases op with
      | acquire r =>
          rw [settle] at h ⊢
          rw [← Multiset.cons_add]
          exact ih h
      | release r =>
          rw [settle] at h ⊢
          split at h
          · next hr =>
              rw [if_pos (Multiset.mem_add.mpr (Or.inl hr)), Multiset.erase_add_left_pos frame hr]
              exact ih h
          · cases h

/-- The entry of a ledger, for one who has other names for the resources. -/
def Op.map {σ : Type} (f : ρ → σ) : Op ρ → Op σ
  | .acquire r => .acquire (f r)
  | .release r => .release (f r)

/-- A ledger in order is in order under other names. -/
theorem settle_map {σ : Type} [DecidableEq σ] (f : ρ → σ) {ops : List (Op ρ)}
    {held held' : Multiset ρ} (h : settle ops held = some held') :
    settle (ops.map (Op.map f)) (held.map f) = some (held'.map f) := by
  induction ops generalizing held with
  | nil =>
      obtain rfl := Option.some.inj h
      rfl
  | cons op ops ih =>
      cases op with
      | acquire r =>
          rw [settle] at h
          rw [List.map_cons, Op.map, settle, ← Multiset.map_cons]
          exact ih h
      | release r =>
          rw [settle] at h
          split at h
          · next hr =>
              have hmap : held.map f = f r ::ₘ (held.erase r).map f := by
                rw [← Multiset.map_cons, Multiset.cons_erase hr]
              rw [List.map_cons, Op.map, settle, if_pos (Multiset.mem_map_of_mem f hr), hmap,
                Multiset.erase_cons_head]
              exact ih h
          · cases h

/-- Who releases all that a list names, loses exactly that. -/
theorem settle_releases (rs : List ρ) (held : Multiset ρ) :
    settle (rs.map .release) ((rs : Multiset ρ) + held) = some held := by
  induction rs with
  | nil => simp [settle]
  | cons r rs ih =>
      rw [List.map_cons, settle, ← Multiset.cons_coe, Multiset.cons_add,
        if_pos (Multiset.mem_cons_self _ _), Multiset.erase_cons_head]
      exact ih

/-- Who releases all that a list names, can do so if and only if he holds it. -/
theorem settle_releases_iff (rs : List ρ) (held held' : Multiset ρ) :
    settle (rs.map .release) held = some held' ↔ held = rs + held' := by
  constructor
  · intro h
    induction rs generalizing held with
    | nil => simpa [settle] using h
    | cons r rs ih =>
        rw [List.map_cons, settle] at h
        split at h
        · next hr =>
            rw [← Multiset.cons_erase hr, ih _ h, ← Multiset.cons_coe, Multiset.cons_add]
        · cases h
  · rintro rfl
    exact settle_releases rs held'

/-- One more resource at the place `n` of a table. -/
theorem bind_range_cons {f g : Nat → Multiset ρ} {n count : Nat} {r : ρ} (hn : n < count)
    (hr : g n = r ::ₘ f n) (hother : ∀ k, k ≠ n → g k = f k) :
    (Multiset.range count).bind g = r ::ₘ (Multiset.range count).bind f := by
  induction count with
  | zero => omega
  | succ count ih =>
      rw [Multiset.range_succ, Multiset.cons_bind, Multiset.cons_bind]
      rcases Nat.lt_succ_iff_lt_or_eq.mp hn with hlt | rfl
      · rw [ih hlt, hother count (by omega), Multiset.add_cons]
      · have hsame : (Multiset.range n).bind g = (Multiset.range n).bind f :=
          Multiset.bind_congr fun k hk => hother k (Multiset.mem_range.mp hk).ne
        rw [hr, hsame, Multiset.cons_add]

end Ledger
