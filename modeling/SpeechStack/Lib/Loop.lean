import Mathlib.Tactic

set_option autoImplicit false

/-! # Loops

`doWhile round more` is the loop `do … while (…)` over a state, with a bound on the number of its
rounds: it has no result when a round has none, or when the bound is too small. The rule
`doWhile_of_variant` asks for an invariant at the head of the rounds, a variant that falls from one
round to the next, and the postcondition of the last round.

`whileDo test body` is the loop `while (…) …`, which tests first; `whileDo_of_variant` is its rule,
and `whileDo_eq_none` says when it never ends.

`forever body` is the loop `for (;;) …` that ends by a `return` in its body.
-/

variable {σ : Type}

/-- At most `fuel` rounds, as long as `more` holds behind them. -/
def doWhile (round : σ → Option σ) (more : σ → Bool) : Nat → σ → Option σ
  | 0, _ => none
  | fuel + 1, s => (round s).bind fun s => if more s then doWhile round more fuel s else some s

theorem doWhile_succ (round : σ → Option σ) (more : σ → Bool) (fuel : Nat) (s : σ) :
    doWhile round more (fuel + 1) s =
      (round s).bind fun s => if more s then doWhile round more fuel s else some s := rfl

/-- **The rule for loops.** -/
theorem doWhile_of_variant {round : σ → Option σ} {more : σ → Bool} {inv post : σ → Prop}
    (variant : σ → Nat)
    (hround : ∀ s, inv s → ∃ t, round s = some t ∧
      (more t = true → inv t ∧ variant t < variant s) ∧ (more t = false → post t))
    {fuel : Nat} {s : σ} (hs : inv s) (hfuel : variant s < fuel) :
    ∃ t, doWhile round more fuel s = some t ∧ post t := by
  induction fuel generalizing s with
  -- on the rounds that are left
  | zero => omega
  | succ fuel ih =>
      obtain ⟨t, ht, hmore, hlast⟩ := hround s hs
      rw [doWhile_succ, ht, Option.bind_some]
      cases hm : more t with
      | true =>
          obtain ⟨hinv, hlt⟩ := hmore hm
          obtain ⟨u, hu, hpost⟩ := ih hinv (by omega)
          exact ⟨u, by rw [if_pos rfl, hu], hpost⟩
      | false => exact ⟨t, by rw [if_neg Bool.false_ne_true], hlast hm⟩

/-! ## Loops that test first -/

/-- At most `fuel` rounds, as long as `test` holds before them. -/
def whileDo (test : σ → Bool) (body : σ → Option σ) : Nat → σ → Option σ
  | 0, s => if test s then none else some s
  | fuel + 1, s => if test s then (body s).bind fun s => whileDo test body fuel s else some s

theorem whileDo_of_not {test : σ → Bool} (body : σ → Option σ) (fuel : Nat) {s : σ}
    (h : test s = false) : whileDo test body fuel s = some s := by
  cases fuel <;> simp [whileDo, h]

theorem whileDo_of_test {test : σ → Bool} {body : σ → Option σ} {fuel : Nat} {s t : σ}
    (h : test s = true) (hbody : body s = some t) :
    whileDo test body (fuel + 1) s = whileDo test body fuel t := by
  rw [whileDo, if_pos h, hbody, Option.bind_some]

/-- **The rule for loops that test first.** -/
theorem whileDo_of_variant {test : σ → Bool} {body : σ → Option σ} {inv : σ → Prop}
    (variant : σ → Nat)
    (hbody : ∀ s, inv s → test s = true → ∃ t, body s = some t ∧ inv t ∧ variant t < variant s)
    {fuel : Nat} {s : σ} (hs : inv s) (hfuel : variant s ≤ fuel) :
    ∃ t, whileDo test body fuel s = some t ∧ inv t ∧ test t = false := by
  induction fuel generalizing s with
  -- on the rounds that are left
  | zero =>
      cases htest : test s with
      | true =>
          obtain ⟨t, -, -, hlt⟩ := hbody s hs htest
          omega
      | false => exact ⟨s, whileDo_of_not body 0 htest, hs, htest⟩
  | succ fuel ih =>
      cases htest : test s with
      | true =>
          obtain ⟨t, ht, hinv, hlt⟩ := hbody s hs htest
          obtain ⟨u, hu, hpost⟩ := ih hinv (by omega)
          exact ⟨u, (whileDo_of_test htest ht).trans hu, hpost⟩
      | false => exact ⟨s, whileDo_of_not body _ htest, hs, htest⟩

/-- What keeps the test true keeps the loop going. -/
theorem whileDo_eq_none {test : σ → Bool} {body : σ → Option σ} (inv : σ → Prop)
    (htest : ∀ s, inv s → test s = true) (hbody : ∀ s t, inv s → body s = some t → inv t)
    (fuel : Nat) {s : σ} (hs : inv s) : whileDo test body fuel s = none := by
  induction fuel generalizing s with
  | zero => rw [whileDo, if_pos (htest s hs)]
  | succ fuel ih =>
      rw [whileDo, if_pos (htest s hs), Option.bind_eq_none_iff]
      intro t ht
      exact ih (hbody s t hs ht)

/-! ## Loops that end by a return -/

variable {ρ : Type}

/-- At most `fuel` rounds, until one of them returns. -/
def forever (body : σ → σ ⊕ ρ) : Nat → σ → Option ρ
  | 0, _ => none
  | fuel + 1, s =>
      match body s with
      | .inl s => forever body fuel s
      | .inr r => some r

theorem forever_of_inl {body : σ → σ ⊕ ρ} {fuel : Nat} {s t : σ} (h : body s = .inl t) :
    forever body (fuel + 1) s = forever body fuel t := by
  rw [forever, h]

theorem forever_of_inr {body : σ → σ ⊕ ρ} {fuel : Nat} {s : σ} {r : ρ} (h : body s = .inr r) :
    forever body (fuel + 1) s = some r := by
  rw [forever, h]

theorem round_imp {P P' : σ → Prop} {Q Q' : ρ → Prop} {next : σ ⊕ ρ} (hnext : ∀ s, P s → P' s)
    (hreturn : ∀ r, Q r → Q' r) (h : Sum.elim P Q next) : Sum.elim P' Q' next := by
  cases next with
  | inl s => exact hnext s h
  | inr r => exact hreturn r h

/-- **The rule for loops that return.** -/
theorem forever_post {body : σ → σ ⊕ ρ} (inv : σ → Prop) (post : ρ → Prop)
    (hround : ∀ s, inv s → Sum.elim inv post (body s)) {fuel : Nat} {s : σ} {r : ρ} (hs : inv s)
    (h : forever body fuel s = some r) : post r := by
  induction fuel generalizing s with
  | zero => cases h
  | succ fuel ih =>
      have hnext := hround s hs
      cases hbody : body s with
      | inl t =>
          rw [forever_of_inl hbody] at h
          rw [hbody] at hnext
          exact ih hnext h
      | inr r' =>
          rw [forever_of_inr hbody] at h
          rw [hbody] at hnext
          obtain rfl := Option.some.inj h
          exact hnext

/-- With a variant, the loop returns. -/
theorem forever_of_variant {body : σ → σ ⊕ ρ} (inv : σ → Prop) {post : ρ → Prop}
    (variant : σ → Nat)
    (hround : ∀ s, inv s → Sum.elim (fun t => inv t ∧ variant t < variant s) post (body s))
    {fuel : Nat} {s : σ} (hs : inv s) (hfuel : variant s < fuel) :
    ∃ r, forever body fuel s = some r ∧ post r := by
  induction fuel generalizing s with
  | zero => omega
  | succ fuel ih =>
      have hnext := hround s hs
      cases hbody : body s with
      | inl t =>
          rw [hbody] at hnext
          obtain ⟨r, hr, hpost⟩ := ih hnext.1 (Nat.lt_of_lt_of_le hnext.2 (by omega))
          exact ⟨r, (forever_of_inl hbody).trans hr, hpost⟩
      | inr r =>
          rw [hbody] at hnext
          exact ⟨r, forever_of_inr hbody, hnext⟩
