import Mathlib.Tactic

set_option autoImplicit false

/-! # File trees

A file system as a finite map from paths, which are lists of names, to directories and files.
An operation returns the tree after it, or nothing when it fails. What each of them does is
said by `lookup` at every path, and proofs use nothing else of a tree.
-/

namespace FileTree

variable {Name α : Type}

/-- What can be at a path. -/
inductive Node (α : Type) where
  | dir
  | file (content : List α)
deriving DecidableEq

/-- The entries of a file system; of two at one path the first one counts. -/
abbrev Tree (Name α : Type) := List (List Name × Node α)

variable [DecidableEq Name]

def lookup : Tree Name α → List Name → Option (Node α)
  | [], _ => none
  | e :: t, p => if e.1 = p then some e.2 else lookup t p

def set (t : Tree Name α) (p : List Name) (n : Node α) : Tree Name α := (p, n) :: t

theorem lookup_set (t : Tree Name α) (p q : List Name) (n : Node α) :
    lookup (set t p n) q = if p = q then some n else lookup t q := rfl

/-- Keeping the entries at some paths keeps what is there and forgets the rest. -/
theorem lookup_filter (keep : List Name → Bool) (t : Tree Name α) (q : List Name) :
    lookup (t.filter fun e => keep e.1) q = if keep q then lookup t q else none := by
  induction t with
  | nil => simp [lookup]
  | cons e t ih =>
      by_cases hk : keep e.1
      · rw [List.filter_cons_of_pos (by simpa using hk)]
        unfold lookup
        by_cases he : e.1 = q
        · rw [if_pos he, if_pos he, if_pos (he ▸ hk)]
        · rw [if_neg he, if_neg he, ih]
      · rw [List.filter_cons_of_neg (by simpa using hk), ih]
        conv_rhs => unfold lookup
        by_cases he : e.1 = q
        · rw [if_neg (he ▸ hk), if_neg (he ▸ hk)]
        · rw [if_neg he]

/-! ## Operations -/

def isDir (t : Tree Name α) (p : List Name) : Bool :=
  match lookup t p with
  | some .dir => true
  | _ => false

/-- `mkdir(p)` by a caller that does not mind when there is something at `p` already. -/
def makeDir (t : Tree Name α) (p : List Name) : Option (Tree Name α) :=
  match lookup t p with
  | some _ => some t
  | none => if isDir t p.dropLast then some (set t p .dir) else none

/-- `open(p, O_APPEND | O_CREAT)` and a complete `write`. -/
def append (t : Tree Name α) (p : List Name) (bytes : List α) : Option (Tree Name α) :=
  match lookup t p with
  | some (.file content) => some (set t p (.file (content ++ bytes)))
  | some .dir => none
  | none => if isDir t p.dropLast then some (set t p (.file bytes)) else none

/-- What reading the file at `p` gives, where no file counts as an empty one. -/
def contents (t : Tree Name α) (p : List Name) : Option (List α) :=
  match lookup t p with
  | some (.file content) => some content
  | some .dir => none
  | none => some []

/-- The removal of a single file or empty directory. -/
def unlink (t : Tree Name α) (p : List Name) : Tree Name α := t.filter fun e => decide (e.1 ≠ p)

/-- Nothing is below `p`. -/
def isLeaf (t : Tree Name α) (p : List Name) : Bool :=
  t.all fun e => e.1 = p || !p.isPrefixOf e.1

/-- The removal of all that is at or below `p`. -/
def removeTree (t : Tree Name α) (p : List Name) : Tree Name α :=
  t.filter fun e => !p.isPrefixOf e.1

section Specs

variable {t t' : Tree Name α} {p q : List Name} {bytes : List α}

theorem isDir_iff : isDir t p = true ↔ lookup t p = some .dir := by
  unfold isDir
  cases lookup t p with
  | none => simp
  | some n => cases n <;> simp

/-- A directory is made where there was nothing; all else stays. -/
theorem lookup_makeDir (h : makeDir t p = some t') (q : List Name) :
    lookup t' q = if p = q ∧ lookup t p = none then some .dir else lookup t q := by
  unfold makeDir at h
  cases hp : lookup t p with
  | some n =>
      simp only [hp, Option.some.injEq] at h
      rw [if_neg (by simp), h]
  | none =>
      simp only [hp] at h
      split at h
      · simp only [Option.some.injEq] at h
        subst h
        rw [lookup_set]
        by_cases hpq : p = q <;> simp [hpq]
      · cases h

theorem makeDir_of_parent (h : lookup t p.dropLast = some .dir) : ∃ t', makeDir t p = some t' := by
  unfold makeDir
  cases lookup t p with
  | some n => exact ⟨t, rfl⟩
  | none => exact ⟨_, if_pos (isDir_iff.mpr h)⟩

/-- Under a directory, `mkdir` makes sure that there is a directory. -/
theorem makeDir_ensures (hparent : lookup t p.dropLast = some .dir)
    (hfile : ∀ content, lookup t p ≠ some (.file content)) :
    ∃ t', makeDir t p = some t' ∧ lookup t' p = some .dir ∧
      ∀ q, q ≠ p → lookup t' q = lookup t q := by
  obtain ⟨t', ht⟩ := makeDir_of_parent hparent
  refine ⟨t', ht, ?_, fun q hq => ?_⟩
  · rw [lookup_makeDir ht]
    cases hp : lookup t p with
    | none => simp
    | some n =>
        cases n with
        | dir => simp
        | file content => exact absurd hp (hfile content)
  · rw [lookup_makeDir ht, if_neg]
    rintro ⟨rfl, -⟩
    exact hq rfl

/-- The bytes go to the end of what is at `p`; all else stays. -/
theorem lookup_append (h : append t p bytes = some t') (q : List Name) :
    lookup t' q = if p = q then
      some (.file ((match lookup t p with | some (.file content) => content | _ => []) ++ bytes))
      else lookup t q := by
  unfold append at h
  cases hp : lookup t p with
  | some n =>
      cases n with
      | dir => simp [hp] at h
      | file content =>
          simp only [hp, Option.some.injEq] at h
          rw [← h, lookup_set]
  | none =>
      simp only [hp] at h
      split at h
      · simp only [Option.some.injEq] at h
        rw [← h, lookup_set]
        rfl
      · cases h

theorem append_of_parent (h : lookup t p.dropLast = some .dir) (hfile : lookup t p ≠ some .dir)
    (bytes : List α) : ∃ t', append t p bytes = some t' := by
  unfold append
  cases hp : lookup t p with
  | none => exact ⟨_, if_pos (isDir_iff.mpr h)⟩
  | some n =>
      cases n with
      | dir => exact absurd hp hfile
      | file content => exact ⟨_, rfl⟩

theorem append_without_parent (h : lookup t p.dropLast = none) (hp : lookup t p = none)
    (bytes : List α) : append t p bytes = none := by
  unfold append isDir
  simp [h, hp]

theorem lookup_unlink (t : Tree Name α) (p q : List Name) :
    lookup (unlink t p) q = if q = p then none else lookup t q := by
  unfold unlink
  rw [lookup_filter fun r => decide (r ≠ p)]
  by_cases h : q = p <;> simp [h]

theorem lookup_removeTree (t : Tree Name α) (p q : List Name) :
    lookup (removeTree t p) q = if p <+: q then none else lookup t q := by
  unfold removeTree
  rw [lookup_filter fun r => !p.isPrefixOf r]
  by_cases h : p <+: q
  · rw [if_pos h, List.isPrefixOf_iff_prefix.mpr h]
    rfl
  · have hno : p.isPrefixOf q = false := by
      rw [Bool.eq_false_iff]
      exact fun hp => h (List.isPrefixOf_iff_prefix.mp hp)
    rw [if_neg h, hno]
    rfl

theorem lookup_eq_none_iff : lookup t q = none ↔ ∀ e ∈ t, e.1 ≠ q := by
  induction t with
  | nil => simp [lookup]
  | cons e t ih =>
      unfold lookup
      by_cases he : e.1 = q
      · simp [he]
      · rw [if_neg he, ih]
        simp [he]

/-- A tree has only so many levels. -/
theorem depth_bounded (t : Tree Name α) : ∃ n, ∀ q, lookup t q ≠ none → q.length < n := by
  induction t with
  | nil => exact ⟨0, fun q hq => absurd rfl hq⟩
  | cons e t ih =>
      obtain ⟨n, hn⟩ := ih
      refine ⟨max n (e.1.length + 1), fun q hq => ?_⟩
      unfold lookup at hq
      by_cases he : e.1 = q
      · subst he
        omega
      · rw [if_neg he] at hq
        have := hn q hq
        omega

theorem isLeaf_iff : isLeaf t p = true ↔ ∀ q, p <+: q → q ≠ p → lookup t q = none := by
  unfold isLeaf
  rw [List.all_eq_true]
  constructor
  · intro h q hpq hne
    refine lookup_eq_none_iff.mpr ?_
    rintro e he rfl
    have hleaf := h e he
    simp only [Bool.or_eq_true, decide_eq_true_eq, Bool.not_eq_eq_eq_not, Bool.not_true] at hleaf
    rcases hleaf with heq | hno
    · exact hne heq
    · exact absurd (List.isPrefixOf_iff_prefix.mpr hpq) (by simp [hno])
  · intro h e he
    by_cases heq : e.1 = p
    · simp [heq]
    · have hno : p.isPrefixOf e.1 = false := by
        rw [Bool.eq_false_iff]
        intro hpe
        exact lookup_eq_none_iff.mp (h e.1 (List.isPrefixOf_iff_prefix.mp hpe) heq) e he rfl
      simp [hno]

end Specs

/-! ## Trees without loose ends -/

section Rooted

variable {t t' : Tree Name α} {p q : List Name}

/-- What is below the first name of a path is in a directory. -/
def Rooted (t : Tree Name α) : Prop :=
  ∀ q name, q ≠ [] → lookup t (q ++ [name]) ≠ none → lookup t q = some .dir

omit [DecidableEq Name] in
/-- Strictly below a path is at or below one of the names in it. -/
theorem exists_child (h : p <+: q) (hne : q ≠ p) : ∃ name, p ++ [name] <+: q := by
  obtain ⟨rest, rfl⟩ := h
  cases rest with
  | nil => simp at hne
  | cons name rest => exact ⟨name, rest, by simp⟩

/-- What something is below is a directory. -/
theorem Rooted.above (h : Rooted t) (hq : q ≠ []) (hqp : q <+: p) (hne : p ≠ q)
    (hp : lookup t p ≠ none) : lookup t q = some .dir := by
  obtain ⟨rest, rfl⟩ := hqp
  induction rest using List.reverseRecOn with
  | nil => simp at hne
  | append_singleton rest name ih =>
      have hdir : lookup t (q ++ rest) = some .dir :=
        h (q ++ rest) name (by simp [hq]) (by simpa using hp)
      cases rest with
      | nil => simpa using hdir
      | cons first rest => exact ih (by simp) (by simp [hdir])

end Rooted

/-! ## Pruning -/

section Pruning

variable {t t' t'' : Tree Name α} {p : List Name} {victims victims' : List (List Name)}

/-- Removals of single files and empty directories at or below `p`, one after the other. -/
def prune (p : List Name) : Tree Name α → List (List Name) → Option (Tree Name α)
  | t, [] => some t
  | t, victim :: victims =>
      if p <+: victim ∧ (lookup t victim).isSome ∧ isLeaf t victim then
        prune p (unlink t victim) victims
      else none

theorem prune_append (h : prune p t victims = some t') (h' : prune p t' victims' = some t'') :
    prune p t (victims ++ victims') = some t'' := by
  induction victims generalizing t with
  | nil =>
      simp only [prune, Option.some.injEq] at h
      subst h
      exact h'
  | cons victim victims ih =>
      simp only [prune] at h
      split at h
      · next hok =>
          rw [List.cons_append]
          simp only [prune]
          rw [if_pos hok]
          exact ih h
      · cases h

/-- Pruning below a path is pruning. -/
theorem prune_of_below {q : List Name} (hpq : p <+: q) (h : prune q t victims = some t') :
    prune p t victims = some t' := by
  induction victims generalizing t with
  | nil => exact h
  | cons victim victims ih =>
      simp only [prune] at h ⊢
      split at h
      · next hok =>
          rw [if_pos ⟨hpq.trans hok.1, hok.2⟩]
          exact ih h
      · cases h

end Pruning

end FileTree
