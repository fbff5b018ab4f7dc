import SpeechStack.Lib.Loop

set_option autoImplicit false

/-! # Circles

A doubly linked list in memory is a circle through its head: `next` and `prev` are the two fields of
the nodes, and on the walk `head, x₁, …, xₙ, head` each step forward can be taken back. A circle read
backwards is a circle (`IsCircle.reverse`), so that what is proved of one end holds of the other.

A node goes in between two neighbours and out again by stores into the neighbours alone
(`IsCircle.insert`, `IsCircle.remove`); stores into other nodes do not matter (`IsCircle.congr`).
-/

namespace Circle

variable {ν : Type}

/-- One step of a walk. -/
def Linked (next prev : ν → ν) (a b : ν) : Prop := next a = b ∧ prev b = a

/-- The walk around a circle. -/
def walk (head : ν) (xs : List ν) : List ν := head :: (xs ++ [head])

structure IsCircle (next prev : ν → ν) (head : ν) (xs : List ν) : Prop where
  nodup : (head :: xs).Nodup
  linked : (walk head xs).IsChain (Linked next prev)

variable {next prev next' prev' : ν → ν} {head : ν} {xs : List ν}

theorem isChain_congr {l : List ν} (h : l.IsChain (Linked next prev))
    (hnext : ∀ a ∈ l.dropLast, next' a = next a) (hprev : ∀ b ∈ l.tail, prev' b = prev b) :
    l.IsChain (Linked next' prev') := by
  induction l with
  | nil => exact .nil
  | cons a l ih =>
      cases l with
      | nil => exact .singleton a
      | cons b l =>
          obtain ⟨hab, hrest⟩ := List.isChain_cons_cons.mp h
          refine List.isChain_cons_cons.mpr ⟨⟨?_, ?_⟩, ih hrest ?_ ?_⟩
          · rw [hnext a List.mem_cons_self, hab.1]
          · rw [hprev b List.mem_cons_self, hab.2]
          · exact fun c hc => hnext c (List.mem_cons_of_mem a hc)
          · exact fun c hc => hprev c (List.mem_of_mem_tail hc)

theorem IsCircle.congr (h : IsCircle next prev head xs)
    (hnext : ∀ a ∈ head :: xs, next' a = next a) (hprev : ∀ a ∈ head :: xs, prev' a = prev a) :
    IsCircle next' prev' head xs := by
  refine ⟨h.nodup, isChain_congr h.linked (fun a ha => hnext a ?_) fun b hb => hprev b ?_⟩
  · rwa [walk, ← List.cons_append, List.dropLast_concat] at ha
  · rw [walk, List.tail_cons, List.mem_append, List.mem_singleton] at hb
    exact List.mem_cons.mpr hb.symm

/-- A circle read backwards. -/
theorem IsCircle.reverse (h : IsCircle next prev head xs) : IsCircle prev next head xs.reverse := by
  constructor
  · exact (List.perm_cons head).mpr xs.reverse_perm |>.nodup_iff.mpr h.nodup
  · have hwalk : walk head xs.reverse = (walk head xs).reverse := by
      simp [walk]
    rw [hwalk, List.isChain_reverse]
    exact h.linked.imp fun a b hab => ⟨hab.2, hab.1⟩

theorem isCircle_nil : IsCircle next prev head [] ↔ next head = head ∧ prev head = head := by
  constructor
  · exact fun h => (List.isChain_cons_cons.mp h.linked).1
  · exact fun h => ⟨List.nodup_singleton head, List.isChain_pair.mpr h⟩

/-- The first node, or the head itself. -/
theorem IsCircle.next_head (h : IsCircle next prev head xs) : next head = xs.headD head := by
  cases xs with
  | nil => exact (isCircle_nil.mp h).1
  | cons x xs => exact (List.isChain_cons_cons.mp h.linked).1.1

/-- The neighbours of a node of the circle. -/
theorem IsCircle.neighbours {l₁ l₂ : List ν} {x : ν} (h : IsCircle next prev head (l₁ ++ x :: l₂)) :
    prev x = (head :: l₁).getLast (List.cons_ne_nil head l₁) ∧ next x = l₂.headD head := by
  have hwalk : walk head (l₁ ++ x :: l₂) = (head :: l₁) ++ x :: (l₂ ++ [head]) := by
    simp [walk]
  obtain ⟨hfront, hback⟩ := List.isChain_split.mp (hwalk ▸ h.linked)
  constructor
  · have hlast := List.dropLast_append_getLast (List.cons_ne_nil head l₁)
    rw [← hlast, List.append_assoc] at hfront
    exact (List.isChain_append_cons_cons.mp hfront).2.1.2
  · cases l₂ with
    | nil => exact (List.isChain_cons_cons.mp hback).1.1
    | cons y l₂ => exact (List.isChain_cons_cons.mp hback).1.1

theorem headD_mem (l : List ν) (x : ν) : l.headD x ∈ x :: l := by
  cases l with
  | nil => exact List.mem_cons_self
  | cons y l => exact List.mem_cons_of_mem x List.mem_cons_self

theorem IsCircle.next_mem (h : IsCircle next prev head xs) {x : ν} (hx : x ∈ head :: xs) :
    next x ∈ head :: xs := by
  rcases List.mem_cons.mp hx with rfl | hx
  · rw [h.next_head]
    exact headD_mem xs x
  · obtain ⟨l₁, l₂, rfl⟩ := List.append_of_mem hx
    rw [h.neighbours.2]
    rcases List.mem_cons.mp (headD_mem l₂ head) with heq | hmem
    · rw [heq]
      exact List.mem_cons_self
    · exact List.mem_cons_of_mem _ (List.mem_append_right l₁ (List.mem_cons_of_mem x hmem))

theorem IsCircle.prev_mem (h : IsCircle next prev head xs) {x : ν} (hx : x ∈ head :: xs) :
    prev x ∈ head :: xs := by
  have hmem : ∀ y, y ∈ head :: xs.reverse ↔ y ∈ head :: xs := fun y => by simp
  exact (hmem _).mp (h.reverse.next_mem ((hmem x).mpr hx))

/-! ## Insertion and removal -/

variable [DecidableEq ν]

/-- A node behind the head. -/
theorem IsCircle.insert {item : ν} (h : IsCircle next prev head xs) (hitem : item ∉ head :: xs) :
    IsCircle (Function.update (Function.update next item (next head)) head item)
      (Function.update (Function.update prev item head) (next head) item) head (item :: xs) := by
  obtain ⟨hhead, hxs⟩ := not_or.mp (mt List.mem_cons.mpr hitem)
  obtain ⟨hnot, hnodup⟩ := List.nodup_cons.mp h.nodup
  have hfirst : next head ∈ head :: xs := h.next_mem List.mem_cons_self
  have hne : item ≠ next head := fun heq => hitem (heq ▸ hfirst)
  constructor
  · refine List.nodup_cons.mpr ⟨?_, List.nodup_cons.mpr ⟨hxs, hnodup⟩⟩
    exact fun hmem => (List.mem_cons.mp hmem).elim (fun heq => hhead heq.symm) hnot
  · refine List.isChain_cons_cons.mpr ⟨⟨Function.update_self _ _ _, ?_⟩, ?_⟩
    · rw [Function.update_of_ne hne, Function.update_self]
    · -- the old walk from the first node on
      obtain ⟨y, l, hl⟩ : ∃ y l, xs ++ [head] = y :: l := by
        cases xs with
        | nil => exact ⟨head, [], rfl⟩
        | cons x xs => exact ⟨x, xs ++ [head], rfl⟩
      have hold := h.linked
      rw [walk, hl, List.isChain_cons_cons] at hold
      obtain ⟨⟨hy, -⟩, hrest⟩ := hold
      change List.IsChain _ (item :: (xs ++ [head]))
      rw [hl, List.isChain_cons_cons]
      refine ⟨⟨?_, ?_⟩, isChain_congr hrest (fun a ha => ?_) fun b hb => ?_⟩
      · rw [Function.update_of_ne hhead, Function.update_self, hy]
      · rw [← hy, Function.update_self]
      · have ha' : a ∈ xs := by
          rwa [← hl, List.dropLast_concat] at ha
        have hah : a ≠ head := fun heq => hnot (heq ▸ ha')
        have hai : a ≠ item := fun heq => hxs (heq ▸ ha')
        rw [Function.update_of_ne hah, Function.update_of_ne hai]
      · -- the first node is not met again
        have hdistinct : (y :: l).Nodup := by
          rw [← hl]
          exact List.nodup_append.mpr ⟨hnodup, List.nodup_singleton head, fun a ha b hb => by
            rw [List.mem_singleton.mp hb]
            exact fun heq => hnot (heq ▸ ha)⟩
        have hb' : b ∈ l := hb
        have hyb : b ≠ next head := by
          rw [hy]
          exact fun heq => (List.nodup_cons.mp hdistinct).1 (heq ▸ hb')
        have hib : b ≠ item := by
          rintro rfl
          have hmem : b ∈ xs ++ [head] := by
            rw [hl]
            exact List.mem_cons_of_mem _ hb'
          rw [List.mem_append, List.mem_singleton] at hmem
          exact hmem.elim hxs hhead
        rw [Function.update_of_ne hyb, Function.update_of_ne hib]

/-- A node out of the circle. -/
theorem IsCircle.remove {l₁ l₂ : List ν} {item : ν}
    (h : IsCircle next prev head (l₁ ++ item :: l₂)) :
    IsCircle (Function.update next (prev item) (next item))
      (Function.update prev (next item) (prev item)) head (l₁ ++ l₂) := by
  obtain ⟨hprev, hnext⟩ := h.neighbours
  have hnodup : ((head :: l₁) ++ (item :: l₂)).Nodup := h.nodup
  obtain ⟨hfront, hback, hdisj⟩ := List.nodup_append'.mp hnodup
  obtain ⟨init, p, hinit⟩ : ∃ init p, head :: l₁ = init ++ [p] :=
    ⟨_, _, (List.dropLast_append_getLast (List.cons_ne_nil head l₁)).symm⟩
  obtain ⟨q, rest, hrest⟩ : ∃ q rest, l₂ ++ [head] = q :: rest := by
    cases l₂ with
    | nil => exact ⟨head, [], rfl⟩
    | cons y l₂ => exact ⟨y, l₂ ++ [head], rfl⟩
  have hp : prev item = p := by
    rw [hprev]
    simp only [hinit, List.getLast_append_singleton]
  have hq : next item = q := by
    rw [hnext]
    cases l₂ with
    | nil => exact (List.cons.inj hrest).1
    | cons y l₂ => exact (List.cons.inj hrest).1
  have hold : walk head (l₁ ++ item :: l₂) = init ++ p :: item :: q :: rest := by
    rw [walk, List.append_assoc, List.cons_append, hrest, ← List.cons_append, hinit,
      List.append_assoc]
    rfl
  have hnew : walk head (l₁ ++ l₂) = init ++ p :: q :: rest := by
    rw [walk, List.append_assoc, hrest, ← List.cons_append, hinit, List.append_assoc]
    rfl
  obtain ⟨hchain, -, hchain'⟩ := List.isChain_append_cons_cons.mp (hold ▸ h.linked)
  have hpfront : p ∈ head :: l₁ := by
    rw [hinit]
    exact List.mem_append_right _ (List.mem_singleton_self p)
  have hl₂ : (l₂ ++ [head]).dropLast = l₂ := List.dropLast_concat
  -- where the node `q` is met
  have hqmem : q = head ∨ q ∈ l₂ := by
    have : q ∈ l₂ ++ [head] := by
      rw [hrest]
      exact List.mem_cons_self
    rw [List.mem_append, List.mem_singleton] at this
    exact this.symm
  constructor
  · exact hnodup.sublist ((List.sublist_cons_self item l₂).append_left (head :: l₁))
  · rw [hnew, hp, hq, List.isChain_append_cons_cons]
    refine ⟨isChain_congr hchain (fun a ha => ?_) (fun b hb => ?_),
      ⟨Function.update_self _ _ _, Function.update_self _ _ _⟩,
      isChain_congr (List.isChain_cons_cons.mp hchain').2 (fun a ha => ?_) (fun b hb => ?_)⟩
    · rw [List.dropLast_concat] at ha
      have hnot : (init ++ [p]).Nodup := hinit ▸ hfront
      have hap : a ≠ p := fun heq =>
        (List.nodup_append'.mp hnot).2.2 ha (heq ▸ List.mem_singleton_self p)
      exact Function.update_of_ne hap _ _
    · rw [← hinit, List.tail_cons] at hb
      have hbq : b ≠ q := by
        rintro rfl
        rcases hqmem with rfl | hin
        · exact (List.nodup_cons.mp hfront).1 hb
        · exact hdisj (List.mem_cons_of_mem _ hb) (List.mem_cons_of_mem _ hin)
      exact Function.update_of_ne hbq _ _
    · rw [← hrest, hl₂] at ha
      have hap : a ≠ p := fun heq => hdisj hpfront (heq ▸ List.mem_cons_of_mem _ ha)
      exact Function.update_of_ne hap _ _
    · have hnot : (q :: rest).Nodup := by
        rw [← hrest]
        refine List.nodup_append'.mpr ⟨(List.nodup_cons.mp hback).2, List.nodup_singleton head, ?_⟩
        intro a ha hah
        rw [List.mem_singleton] at hah
        exact hdisj List.mem_cons_self (hah ▸ List.mem_cons_of_mem _ ha)
      have hbq : b ≠ q := fun heq => (List.nodup_cons.mp hnot).1 (heq ▸ hb)
      exact Function.update_of_ne hbq _ _

/-! ## Going around -/

section Loop

variable {α : Type}

def notAt (head : ν) (s : ν × α) : Bool := decide (s.1 ≠ head)

def visit (next : ν → ν) (f : α → ν → α) (s : ν × α) : Option (ν × α) := some (next s.1, f s.2 s.1)

/-- The loop from `node` on until the head is met. -/
def forEach (next : ν → ν) (head : ν) (f : α → ν → α) (fuel : Nat) (node : ν) (acc : α) :
    Option (ν × α) :=
  whileDo (notAt head) (visit next f) fuel (node, acc)

/-- What a loop from the first node of `l₂` on visits. -/
theorem IsCircle.forEach_eq (h : IsCircle next prev head xs) (f : α → ν → α) {l₁ l₂ : List ν}
    (hxs : xs = l₁ ++ l₂) (acc : α) {fuel : Nat} (hfuel : l₂.length ≤ fuel) :
    forEach next head f fuel (l₂.headD head) acc = some (head, l₂.foldl f acc) := by
  rw [forEach]
  induction l₂ generalizing l₁ acc fuel with
  | nil => exact whileDo_of_not _ _ (decide_eq_false (not_not.mpr rfl))
  | cons x l₂ ih =>
      obtain ⟨fuel, rfl⟩ : ∃ k, fuel = k + 1 := ⟨fuel - 1, by rw [List.length_cons] at hfuel; omega⟩
      have hne : x ≠ head := by
        rintro rfl
        have hmem : x ∈ xs := by
          rw [hxs]
          exact List.mem_append_right _ List.mem_cons_self
        exact (List.nodup_cons.mp h.nodup).1 hmem
      have htest : notAt head (x, acc) = true := decide_eq_true hne
      have hx : IsCircle next prev head (l₁ ++ x :: l₂) := hxs ▸ h
      have hnext : visit next f (x, acc) = some (l₂.headD head, f acc x) := by
        rw [visit, hx.neighbours.2]
      rw [List.headD_cons, whileDo_of_test htest hnext]
      have hxs' : xs = (l₁ ++ [x]) ++ l₂ := by rw [hxs, List.append_assoc]; rfl
      exact ih hxs' (f acc x) (Nat.le_of_succ_le_succ hfuel)

end Loop

end Circle
