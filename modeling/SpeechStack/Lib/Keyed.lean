import Mathlib.Tactic

set_option autoImplicit false

/-! # Keyed streams

A list of items of which each may carry a key is an interleaving of one stream for each key.
Items that change only what their key stands for can be replayed stream by stream
(`foldl_step`), and what happens at most once in each stream happens at most as often as
there are keys (`countP_le`).
-/

namespace Keyed

variable {ι κ β : Type} [DecidableEq κ] (key : ι → Option κ)

/-- The items with the key `k`. -/
def stream (k : κ) (l : List ι) : List ι := l.filter fun x => key x = some k

section Stream

variable {key} {k : κ} {l : List ι} {x : ι}

@[simp] theorem mem_stream : x ∈ stream key k l ↔ x ∈ l ∧ key x = some k := by
  simp [stream]

theorem stream_append (l₁ l₂ : List ι) :
    stream key k (l₁ ++ l₂) = stream key k l₁ ++ stream key k l₂ := List.filter_append _ _

theorem stream_cons_self (h : key x = some k) (l : List ι) :
    stream key k (x :: l) = x :: stream key k l := by
  simp [stream, h]

theorem stream_cons_other (h : key x ≠ some k) (l : List ι) :
    stream key k (x :: l) = stream key k l := by
  simp [stream, h]

end Stream

/-! ## Replay -/

/-- An item changes the entry of its key. -/
def step (f : β → ι → β) (g : κ → β) (x : ι) : κ → β :=
  match key x with
  | some k => Function.update g k (f (g k) x)
  | none => g

theorem step_self {f : β → ι → β} {g : κ → β} {x : ι} {k : κ} (h : key x = some k) :
    step key f g x k = f (g k) x := by
  unfold step
  rw [h]
  exact Function.update_self k _ g

theorem step_other {f : β → ι → β} {g : κ → β} {x : ι} {k : κ} (h : key x ≠ some k) :
    step key f g x k = g k := by
  unfold step
  cases hx : key x with
  | none => rfl
  | some k' =>
      refine Function.update_of_ne ?_ _ g
      rintro rfl
      exact h hx

/-- **Replay.** The entry of a key is what the stream of the key makes of it. -/
theorem foldl_step (f : β → ι → β) (g : κ → β) (l : List ι) (k : κ) :
    l.foldl (step key f) g k = (stream key k l).foldl f (g k) := by
  induction l generalizing g with
  | nil => rfl
  | cons x l ih =>
      calc (x :: l).foldl (step key f) g k
          = (stream key k l).foldl f (step key f g x k) := by rw [List.foldl_cons, ih]
        _ = (stream key k (x :: l)).foldl f (g k) := by
            by_cases h : key x = some k
            · rw [step_self key h, stream_cons_self h, List.foldl_cons]
            · rw [step_other key h, stream_cons_other h]

/-! ## Counting -/

/-- What each stream has at most once, the list has at most once for every key. -/
theorem countP_le (p : ι → Bool) (l : List ι) (ks : List κ)
    (hkey : ∀ x ∈ l, p x → ∃ k ∈ ks, key x = some k)
    (hone : ∀ k, (stream key k l).countP p ≤ 1) : l.countP p ≤ ks.length := by
  have hnodup : ((l.filter p).map key).Nodup := by
    rw [List.nodup_iff_count_le_one]
    intro o
    rw [List.count, List.countP_map, List.countP_filter]
    cases o with
    | some k =>
        refine le_trans (le_of_eq ?_) (hone k)
        rw [stream, List.countP_filter]
        apply List.countP_congr
        intro x _
        simp [and_comm]
    | none =>
        rw [List.countP_eq_zero.mpr]
        · exact Nat.zero_le 1
        · intro x hx hp
          simp only [Function.comp_apply, Bool.and_eq_true, beq_iff_eq] at hp
          obtain ⟨k, -, hk⟩ := hkey x hx hp.2
          rw [hp.1] at hk
          cases hk
  have hsub : (l.filter p).map key ⊆ ks.map some := by
    intro o ho
    obtain ⟨x, hx, rfl⟩ := List.mem_map.mp ho
    obtain ⟨hx, hp⟩ := List.mem_filter.mp hx
    obtain ⟨k, hk, hxk⟩ := hkey x hx hp
    exact List.mem_map.mpr ⟨k, hk, hxk.symm⟩
  have hlen := (hnodup.subperm hsub).length_le
  rw [List.length_map, List.length_map, ← List.countP_eq_length_filter] at hlen
  exact hlen

end Keyed
