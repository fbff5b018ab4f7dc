import Mathlib.Tactic

set_option autoImplicit false

/-! # Labelled machines

A *machine* is a partial step function `step : σ → ι → Option σ`: in state `s` the action
`a` is either not enabled (`none`) or leads to one state. Nondeterminism (which thread
moves, which waiter a signal wakes) is part of the action, so that a run is a list of
actions and can be evaluated.

The file gives the rules that the developments over machines use: an invariant of every
step is an invariant of every run (`run_invariant`), also when the steps are only known to
keep it under a side condition (`run_invariant_of_meets`), and a step-by-step simulation
lifts to runs (`Reaches.simulates`), as a refinement by a function does (`run_refines_of_meets`).
-/

namespace Machine

variable {σ ι τ κ : Type}

/-- The state after a list of actions, when every one of them is enabled. -/
def run (step : σ → ι → Option σ) : σ → List ι → Option σ
  | s, [] => some s
  | s, a :: as => (step s a).bind fun s' => run step s' as

@[simp] theorem run_nil (step : σ → ι → Option σ) (s : σ) : run step s [] = some s := rfl

theorem run_cons (step : σ → ι → Option σ) (s : σ) (a : ι) (as : List ι) :
    run step s (a :: as) = (step s a).bind fun s' => run step s' as := rfl

/-- The first step of a run. -/
theorem run_cons_eq_some {step : σ → ι → Option σ} {s t : σ} {a : ι} {as : List ι} :
    run step s (a :: as) = some t ↔ ∃ s', step s a = some s' ∧ run step s' as = some t := by
  rw [run_cons, Option.bind_eq_some_iff]

theorem run_append {step : σ → ι → Option σ} {s t : σ} {as bs : List ι} :
    run step s (as ++ bs) = some t ↔ ∃ m, run step s as = some m ∧ run step m bs = some t := by
  induction as generalizing s with
  | nil => simp
  | cons a as ih =>
      rw [List.cons_append, run_cons_eq_some]
      constructor
      · rintro ⟨s', hs, ht⟩
        obtain ⟨m, hm, hb⟩ := ih.mp ht
        exact ⟨m, run_cons_eq_some.mpr ⟨s', hs, hm⟩, hb⟩
      · rintro ⟨m, hm, hb⟩
        obtain ⟨s', hs, hm'⟩ := run_cons_eq_some.mp hm
        exact ⟨s', hs, ih.mpr ⟨m, hm', hb⟩⟩

/-- `t` is reachable from `s`. -/
def Reaches (step : σ → ι → Option σ) (s t : σ) : Prop :=
  ∃ as, run step s as = some t

theorem Reaches.refl (step : σ → ι → Option σ) (s : σ) : Reaches step s s := ⟨[], rfl⟩

theorem Reaches.trans {step : σ → ι → Option σ} {s t u : σ}
    (h₁ : Reaches step s t) (h₂ : Reaches step t u) : Reaches step s u := by
  obtain ⟨as, ha⟩ := h₁
  obtain ⟨bs, hb⟩ := h₂
  exact ⟨as ++ bs, run_append.mpr ⟨t, ha, hb⟩⟩

theorem Reaches.step {step : σ → ι → Option σ} {s t u : σ} {a : ι}
    (h₁ : Reaches step s t) (h₂ : step t a = some u) : Reaches step s u :=
  h₁.trans ⟨[a], run_cons_eq_some.mpr ⟨u, h₂, rfl⟩⟩

/-! ## Invariants -/

/-- **The invariant rule.** What every step keeps, every run keeps. -/
theorem run_invariant {step : σ → ι → Option σ} (I : σ → Prop)
    (hstep : ∀ s a s', I s → step s a = some s' → I s')
    {s t : σ} {as : List ι} (hs : I s) (hrun : run step s as = some t) : I t := by
  induction as generalizing s with
  | nil =>
      rw [run_nil, Option.some.injEq] at hrun
      exact hrun ▸ hs
  | cons a as ih =>
      obtain ⟨s', hs', ht⟩ := run_cons_eq_some.mp hrun
      exact ih (hstep s a s' hs hs') ht

theorem Reaches.invariant {step : σ → ι → Option σ} (I : σ → Prop)
    (hstep : ∀ s a s', I s → step s a = some s' → I s')
    {s t : σ} (hs : I s) (h : Reaches step s t) : I t := by
  obtain ⟨as, hrun⟩ := h
  exact run_invariant I hstep hs hrun

/-- The same rule, when a step keeps the invariant in reachable states only. -/
theorem Reaches.invariant_within {step : σ → ι → Option σ} {s : σ} (I : σ → Prop) (hs : I s)
    (hstep : ∀ t a t', Reaches step s t → I t → step t a = some t' → I t') {u : σ}
    (h : Reaches step s u) : I u := by
  have hboth := h.invariant (fun t => Reaches step s t ∧ I t)
    (fun t a t' ht hta => ⟨ht.1.step hta, hstep t a t' ht.1 ht.2 hta⟩) ⟨Reaches.refl step s, hs⟩
  exact hboth.2

/-- **The ranking rule.** Where some step lowers a rank and keeps `I` as long as the goal is not
reached, the goal can be reached. -/
theorem Reaches.of_rank {step : σ → ι → Option σ} {I goal : σ → Prop} (rank : σ → Nat)
    (hstep : ∀ s, I s → ¬ goal s → ∃ a s', step s a = some s' ∧ I s' ∧ rank s' < rank s)
    {s : σ} (hs : I s) : ∃ t, Reaches step s t ∧ I t ∧ goal t := by
  induction hr : rank s using Nat.strong_induction_on generalizing s with
  | h r ih =>
      by_cases hgoal : goal s
      · exact ⟨s, Reaches.refl step s, hs, hgoal⟩
      · obtain ⟨a, s', ha, hs', hlt⟩ := hstep s hs hgoal
        obtain ⟨t, ht, hIt, hgoal'⟩ := ih (rank s') (by omega) hs' rfl
        exact ⟨t, ((Reaches.refl step s).step ha).trans ht, hIt, hgoal'⟩

/-- Every step that the run takes starts in a state that meets `C` for its action. -/
def Meets (step : σ → ι → Option σ) (C : σ → ι → Prop) : σ → List ι → Prop
  | _, [] => True
  | s, a :: as => C s a ∧ ∀ s', step s a = some s' → Meets step C s' as

/-- Whether a run meets a decidable condition can be tried out. -/
instance decidableMeets (step : σ → ι → Option σ) (C : σ → ι → Prop)
    [∀ s a, Decidable (C s a)] : ∀ s as, Decidable (Meets step C s as)
  | _, [] => isTrue trivial
  | s, a :: as =>
      match h : step s a with
      | none => decidable_of_iff (C s a)
          ⟨fun hC => ⟨hC, fun s' hs' => by rw [h] at hs'; cases hs'⟩, And.left⟩
      | some m =>
          have := decidableMeets step C m as
          decidable_of_iff (C s a ∧ Meets step C m as)
            ⟨fun hC => ⟨hC.1, fun s' hs' => Option.some.inj (h.symm.trans hs') ▸ hC.2⟩,
              fun hC => ⟨hC.1, hC.2 m h⟩⟩

theorem meets_append {step : σ → ι → Option σ} {C : σ → ι → Prop} {s t : σ}
    {as bs : List ι} (h : Meets step C s (as ++ bs)) (hrun : run step s as = some t) :
    Meets step C s as ∧ Meets step C t bs := by
  induction as generalizing s with
  | nil =>
      rw [run_nil, Option.some.injEq] at hrun
      exact ⟨trivial, hrun ▸ h⟩
  | cons a as ih =>
      obtain ⟨s', hs', ht⟩ := run_cons_eq_some.mp hrun
      have hrest := ih (h.2 s' hs') ht
      refine ⟨⟨h.1, fun s'' hs'' => ?_⟩, hrest.2⟩
      have heq : s' = s'' := Option.some.inj (hs'.symm.trans hs'')
      exact heq ▸ hrest.1

/-- Runs that meet `C` can be put behind one another. -/
theorem Meets.append {step : σ → ι → Option σ} {C : σ → ι → Prop} {s t : σ} {as bs : List ι}
    (h : Meets step C s as) (hrun : run step s as = some t) (h' : Meets step C t bs) :
    Meets step C s (as ++ bs) := by
  induction as generalizing s with
  | nil =>
      rw [run_nil, Option.some.injEq] at hrun
      exact hrun ▸ h'
  | cons a as ih =>
      obtain ⟨m, hm, hrest⟩ := run_cons_eq_some.mp hrun
      refine ⟨h.1, fun s' hs' => ?_⟩
      obtain rfl : m = s' := Option.some.inj (hm.symm.trans hs')
      exact ih (h.2 m hm) hrest

/-- **The invariant rule under a side condition.** What every step that meets `C` keeps,
every run whose steps all meet `C` keeps. -/
theorem run_invariant_of_meets {step : σ → ι → Option σ} {C : σ → ι → Prop} (I : σ → Prop)
    (hstep : ∀ s a s', I s → C s a → step s a = some s' → I s')
    {s t : σ} {as : List ι} (hs : I s) (hC : Meets step C s as)
    (hrun : run step s as = some t) : I t := by
  induction as generalizing s with
  | nil =>
      rw [run_nil, Option.some.injEq] at hrun
      exact hrun ▸ hs
  | cons a as ih =>
      obtain ⟨s', hs', ht⟩ := run_cons_eq_some.mp hrun
      exact ih (hstep s a s' hs hC.1 hs') (hC.2 s' hs') ht

/-- **The refinement rule.** When in a state that stands for `t` every action that meets `C` is
enabled, and leads to a state that stands for `f t a`, a run whose steps all meet `C` goes through,
and ends in a state that stands for what `f` has made of `t`. -/
theorem run_refines_of_meets {step : σ → ι → Option σ} {C : σ → ι → Prop} {R : τ → σ → Prop}
    {f : τ → ι → τ} (hstep : ∀ t s a, R t s → C s a → ∃ s', step s a = some s' ∧ R (f t a) s')
    {t : τ} {s : σ} {as : List ι} (hs : R t s) (hC : Meets step C s as) :
    ∃ s', run step s as = some s' ∧ R (as.foldl f t) s' := by
  induction as generalizing s t with
  | nil => exact ⟨s, run_nil step s, hs⟩
  | cons a as ih =>
      obtain ⟨m, hm, hR⟩ := hstep t s a hs hC.1
      obtain ⟨s', hs', hR'⟩ := ih hR (hC.2 m hm)
      exact ⟨s', run_cons_eq_some.mpr ⟨m, hm, hs'⟩, hR'⟩

/-- A condition that holds wherever an invariant does is met by every run. -/
theorem meets_of_invariant {step : σ → ι → Option σ} {C : σ → ι → Prop} (I : σ → Prop)
    (hstep : ∀ s a s', I s → step s a = some s' → I s') (hC : ∀ s a, I s → C s a)
    {s : σ} (hs : I s) (as : List ι) : Meets step C s as := by
  induction as generalizing s with
  | nil => trivial
  | cons a as ih => exact ⟨hC s a hs, fun s' hs' => ih (hstep s a s' hs hs')⟩

/-- A condition that each step leads to a good state for meets every run through good states
only. -/
theorem meets_of_forall_prefix {step : σ → ι → Option σ} {C : σ → ι → Prop} {P : σ → Prop}
    (hstep : ∀ s a s', step s a = some s' → P s' → C s a) {s t : σ} {as : List ι}
    (hrun : run step s as = some t)
    (hP : ∀ bs cs u, as = bs ++ cs → run step s bs = some u → P u) : Meets step C s as := by
  induction as generalizing s with
  | nil => trivial
  | cons a as ih =>
      obtain ⟨m, hm, hrest⟩ := run_cons_eq_some.mp hrun
      refine ⟨hstep s a m hm (hP [a] as m rfl (run_cons_eq_some.mpr ⟨m, hm, rfl⟩)), ?_⟩
      intro s' hs'
      obtain rfl : m = s' := Option.some.inj (hm.symm.trans hs')
      refine ih hrest fun bs cs u has hu => ?_
      exact hP (a :: bs) cs u (by rw [has]; rfl) (run_cons_eq_some.mpr ⟨m, hm, hu⟩)

/-! ## Simulation -/

/-- **The simulation rule.** When each step of the first machine is a step of the second one
under `f`, or changes nothing there, `f` maps what the first machine reaches to what the second
one reaches. -/
theorem Reaches.simulates {step : σ → ι → Option σ} {step' : τ → κ → Option τ} {f : σ → τ}
    (hstep : ∀ s a s', step s a = some s' → f s' = f s ∨ ∃ b, step' (f s) b = some (f s'))
    {s t : σ} (h : Reaches step s t) : Reaches step' (f s) (f t) := by
  refine h.invariant (fun t => Reaches step' (f s) (f t)) ?_ (Reaches.refl step' (f s))
  intro t a t' ht hta
  rcases hstep t a t' hta with heq | ⟨b, hb⟩
  · rw [heq]
    exact ht
  · exact ht.step hb

end Machine
