import SpeechStack.Store.Persistent

set_option autoImplicit false

/-! # Removing a tree

`remove_file` of `SpeechPersistent.c`, which `StopTask` and `UploadTask` call: it removes what a
directory lists, one after the other, and then the directory. Any of its calls may be refused,
and it goes on with the next entry. The store itself has only what comes of it: all at once for
`StopTask`, one file or empty directory after the other for `UploadTask`.

Here the file system is left alone by everybody else. No call is made twice at one path, so
that whether it is refused may depend on the call and the path only.
-/

namespace SpeechStack

open FileTree

/-! ## Paths -/

/-- The names that a path goes through: what is before the first slash, and then what is
between slashes, several of which count as one. -/
def components (path : String) : Path :=
  match path.toList.splitOn '/' with
  | [] => []
  | first :: rest => String.ofList first :: (rest.filter (· ≠ [])).map String.ofList

/-- `DOT_OR_DOTDOT(s)`. -/
def dotOrDotdot (s : String) : Bool :=
  match s.toList with
  | ['.'] => true
  | ['.', '.'] => true
  | _ => false

/-- `last_char_is(s, c)` does not return null. -/
def lastCharIs (s : String) (c : Char) : Bool := s.toList.getLast? = some c

/-- `concat_path_file(path, filename)`; `none` is a null `path`. -/
def concatPathFile (path : Option String) (filename : String) : String :=
  let path := path.getD ""
  path ++ (if lastCharIs path '/' then "" else "/") ++
    String.ofList (filename.toList.dropWhile (· = '/'))

/-- `concat_subpath_file(path, f)`. -/
def concatSubpathFile (path f : String) : Option String :=
  if dotOrDotdot f then none else some (concatPathFile (some path) f)

/-- What a directory can list besides itself and its parent. -/
def IsName (name : String) : Prop := name ≠ "" ∧ '/' ∉ name.toList ∧ dotOrDotdot name = false

theorem concatPathFile_ne (path name : String) (h : name ≠ "") (hname : '/' ∉ name.toList) :
    concatPathFile (some path) name ≠ "" := by
  intro hempty
  have hlist := congrArg String.toList hempty
  have hdrop : name.toList.dropWhile (· = '/') = name.toList := by
    cases hc : name.toList with
    | nil => rfl
    | cons c cs =>
        have hne : c ≠ '/' := fun heq => hname (by simp [hc, heq])
        simp [hne]
  simp only [concatPathFile, String.toList_append, String.toList_ofList, hdrop] at hlist
  have hnil : name.toList = [] := (List.append_eq_nil_iff.mp hlist).2
  exact h (String.toList_inj.mp (by simpa using hnil))

/-- Joining a path and a name gives the path one name longer. -/
theorem components_concatPathFile (path name : String) (h : IsName name) :
    components (concatPathFile (some path) name) = components path ++ [name] := by
  obtain ⟨hne, hslash, -⟩ := h
  have hnil : name.toList ≠ [] := fun hl => hne (String.toList_inj.mp (by simpa using hl))
  have hdrop : name.toList.dropWhile (· = '/') = name.toList := by
    cases hc : name.toList with
    | nil => rfl
    | cons c cs =>
        have hc' : c ≠ '/' := fun heq => hslash (by simp [hc, heq])
        simp [hc']
  -- both joins are a text, a slash and the name
  obtain ⟨text, htext, hpath⟩ : ∃ text : List Char,
      (concatPathFile (some path) name).toList = text ++ '/' :: name.toList ∧
        (path.toList = text ∨ path.toList = text ++ ['/']) := by
    unfold concatPathFile lastCharIs
    dsimp only [Option.getD_some]
    by_cases hlast : path.toList.getLast? = some '/'
    · obtain ⟨text, htext⟩ := List.getLast?_eq_some_iff.mp hlast
      exact ⟨text, by simp [hdrop, htext], Or.inr htext⟩
    · exact ⟨path.toList, by simp [hdrop, hlast], Or.inl rfl⟩
  have hsplit : (concatPathFile (some path) name).toList.splitOn '/' =
      text.splitOn '/' ++ [name.toList] := by
    rw [htext, List.splitOn_append_cons_self, List.splitOn_eq_singleton hslash]
  obtain ⟨first, rest, hfirst⟩ := List.exists_cons_of_ne_nil (List.splitOn_ne_nil '/' text)
  have hcomp : components path =
      String.ofList first :: (rest.filter (· ≠ [])).map String.ofList := by
    unfold components
    rcases hpath with hpath | hpath
    · rw [hpath, hfirst]
    · rw [hpath, List.splitOn_append_cons_self, hfirst, List.splitOn_nil, List.cons_append]
      simp
  rw [hcomp]
  unfold components
  rw [hsplit, hfirst, List.cons_append]
  simp [hnil]

theorem components_ne_nil (path : String) : components path ≠ [] := by
  unfold components
  obtain ⟨first, rest, h⟩ :=
    List.exists_cons_of_ne_nil (List.splitOn_ne_nil '/' path.toList)
  rw [h]
  simp

/-! ## The function -/

/-- The calls that `remove_file` makes. -/
inductive Syscall where
  | lstat
  | opendir
  | closedir
  | rmdir
  | unlink
deriving DecidableEq

/-- What the file system adds to its tree. -/
structure Kernel where
  /-- the call at this path fails, with another error than that there is nothing -/
  refuses : Syscall → Path → Bool
  /-- what `readdir` gives of a directory, up to its null -/
  readdir : FileSystem → Path → List String

/-- A directory lists the two dots and the names in it, each once, in any order. -/
def Kernel.Lists (os : Kernel) : Prop :=
  ∀ t p, (os.readdir t p).Nodup ∧
    ∀ name, name ∈ os.readdir t p ↔ name = "." ∨ name = ".." ∨ lookup t (p ++ [name]) ≠ none

/-- What `lstat` sets `errno` to. -/
inductive StatError where
  | ENOENT
  | other
deriving DecidableEq

def Kernel.lstat (os : Kernel) (t : FileSystem) (path : String) :
    Except StatError (Node UInt8) :=
  if path = "" then .error .ENOENT
  else if os.refuses .lstat (components path) then .error .other
  else
    match lookup t (components path) with
    | none => .error .ENOENT
    | some node => .ok node

/-- The loop of `remove_file` over the entries of a directory. -/
def removeEntries (remove : FileSystem → String → Option (Int × FileSystem)) (path : String) :
    List String → Int → FileSystem → Option (Int × FileSystem)
  | [], status, t => some (status, t)
  | name :: names, status, t =>
      match concatSubpathFile path name with
      | none => removeEntries remove path names status t
      | some newPath =>
          match remove t newPath with
          | none => none
          | some (r, t') => removeEntries remove path names (if r < 0 then -1 else status) t'

/-- `remove_file(path)`: what it returns and leaves behind, when it calls itself at most `fuel`
deep. -/
def removeFile (os : Kernel) : Nat → FileSystem → String → Option (Int × FileSystem)
  | 0, _, _ => none
  | fuel + 1, t, path =>
      match os.lstat t path with
      | .error errno => some (if errno ≠ .ENOENT then -1 else 0, t)
      | .ok .dir =>
          if os.refuses .opendir (components path) then some (-1, t)
          else
            match removeEntries (removeFile os fuel) path
                (os.readdir t (components path)) 0 t with
            | none => none
            | some (status, t') =>
                if os.refuses .closedir (components path) then some (-1, t')
                else if os.refuses .rmdir (components path) || !isLeaf t' (components path) then
                  some (-1, t')
                else some (status, FileTree.unlink t' (components path))
      | .ok (.file _) =>
          if os.refuses .unlink (components path) then some (-1, t)
          else some (0, FileTree.unlink t (components path))

/-! ## What is left -/

section Survival

variable {os : Kernel} {t t' : FileSystem} {p q d : Path} {name : String}

/-- A tree whose directories hold what they should, under proper names. -/
structure WellFormed (t : FileSystem) : Prop where
  rooted : Rooted t
  names : ∀ q name, q ≠ [] → lookup t (q ++ [name]) ≠ none → IsName name

/-- The function does not get into the directory `a`. -/
def Kernel.Closes (os : Kernel) (a : Path) : Prop :=
  os.refuses .lstat a ∨ os.refuses .opendir a

/-- One of the calls for `d` itself is refused. -/
def Kernel.Blocks (os : Kernel) (t : FileSystem) (d : Path) : Prop :=
  os.refuses .lstat d ∨
    match lookup t d with
    | some .dir => os.refuses .opendir d ∨ os.refuses .closedir d ∨ os.refuses .rmdir d
    | some (.file _) => os.refuses .unlink d
    | none => False

/-- After `remove_file` at `p`, what was at `q` is still there: it was not reached, or
something cannot be removed that is there or below. -/
def Survives (os : Kernel) (t : FileSystem) (p q : Path) : Prop :=
  (∃ a, p <+: a ∧ a <+: q ∧ a ≠ q ∧ os.Closes a) ∨
    ∃ d, q <+: d ∧ (d = q ∨ lookup t d ≠ none) ∧ os.Blocks t d

theorem Survives.congr (h : ∀ d, p <+: d → lookup t d = lookup t' d) (hpq : p <+: q) :
    Survives os t p q ↔ Survives os t' p q := by
  unfold Survives Kernel.Blocks
  refine or_congr Iff.rfl (exists_congr fun d => and_congr_right fun hqd => ?_)
  rw [h d (hpq.trans hqd)]

theorem Kernel.Closes.blocks (h : os.Closes q) (hdir : lookup t q = some .dir) :
    os.Blocks t q := by
  unfold Kernel.Blocks
  rw [hdir]
  rcases h with h | h
  · exact Or.inl h
  · exact Or.inr (Or.inl h)

/-- With something, all directories above it survive. -/
theorem Survives.above (ht : WellFormed t) (hp : p ≠ []) (hpq : p <+: q) (hqd : q <+: d)
    (hd : lookup t d ≠ none) (h : Survives os t p d) : Survives os t p q := by
  rcases h with ⟨a, hpa, had, hne, hcl⟩ | ⟨e, hde, he, hbl⟩
  · rcases List.prefix_or_prefix_of_prefix had hqd with haq | hqa
    · by_cases heq : a = q
      · subst heq
        have hdir : lookup t a = some .dir := ht.rooted.above
          (fun hnil => hp (List.prefix_nil.mp (hnil ▸ hpa))) had (Ne.symm hne) hd
        exact Or.inr ⟨a, List.prefix_refl a, Or.inl rfl, hcl.blocks hdir⟩
      · exact Or.inl ⟨a, hpa, haq, heq, hcl⟩
    · have hdir : lookup t a = some .dir := ht.rooted.above
        (fun hnil => hp (List.prefix_nil.mp (hnil ▸ hpa))) had (Ne.symm hne) hd
      exact Or.inr ⟨a, hqa, Or.inr (by simp [hdir]), hcl.blocks hdir⟩
  · refine Or.inr ⟨e, hqd.trans hde, Or.inr ?_, hbl⟩
    rcases he with rfl | he
    · exact hd
    · exact he

/-- From inside a directory that the function gets into, its entries look the same. -/
theorem survives_child (hpq : p ++ [name] <+: q) (hopen : ¬os.Closes p) :
    Survives os t p q ↔ Survives os t (p ++ [name]) q := by
  refine or_congr ⟨?_, ?_⟩ Iff.rfl
  · rintro ⟨a, hpa, haq, hne, hcl⟩
    refine ⟨a, ?_, haq, hne, hcl⟩
    have hap : a ≠ p := fun heq => hopen (heq ▸ hcl)
    obtain ⟨other, hother⟩ := exists_child hpa hap
    have heq : p ++ [name] = p ++ [other] :=
      (List.prefix_of_prefix_length_le hpq (hother.trans haq) (by simp)).eq_of_length (by simp)
    rwa [heq]
  · rintro ⟨a, hpa, haq, hne, hcl⟩
    exact ⟨a, (List.prefix_append p [name]).trans hpa, haq, hne, hcl⟩

/-- What `remove_file` has done at `p` when it returns `r`. -/
structure Removed (os : Kernel) (t : FileSystem) (p : Path) (r : Int) (t' : FileSystem) :
    Prop where
  kept : ∀ q, ¬p <+: q ∨ Survives os t p q → lookup t' q = lookup t q
  gone : ∀ q, p <+: q → ¬Survives os t p q → lookup t' q = none
  status : r = 0 ∨ r = -1
  zero : r = 0 ↔ ¬Survives os t p p
  pruned : ∃ victims, prune p t victims = some t'

/-- Nothing is added. -/
theorem Removed.sub {r : Int} (h : Removed os t p r t') (hq : lookup t' q ≠ none) :
    lookup t' q = lookup t q := by
  by_cases hpq : p <+: q
  · by_cases hs : Survives os t p q
    · exact h.kept q (Or.inr hs)
    · exact absurd (h.gone q hpq hs) hq
  · exact h.kept q (Or.inl hpq)

theorem Removed.wellFormed {r : Int} (h : Removed os t p r t') (hp : p ≠ [])
    (ht : WellFormed t) : WellFormed t' where
  rooted := by
    intro q name hq hname
    have hold : lookup t (q ++ [name]) ≠ none := fun hno => hname ((h.sub hname).trans hno)
    have hdir := ht.rooted q name hq hold
    rw [← hdir]
    by_cases hpq : p <+: q
    · have hqn : q <+: q ++ [name] := List.prefix_append q [name]
      have hs : Survives os t p (q ++ [name]) := by
        by_contra hno
        exact hname (h.gone _ (hpq.trans hqn) hno)
      exact h.kept q (Or.inr (hs.above ht hp hpq hqn hold))
    · exact h.kept q (Or.inl hpq)
  names := by
    intro q name hq hname
    exact ht.names q name hq fun hno => hname ((h.sub hname).trans hno)

/-! ## The loop over a directory -/

/-- `remove_file(path)` as one that keeps its promise wherever something is not too far up. -/
def Keeps (os : Kernel) (remove : FileSystem → String → Option (Int × FileSystem)) (fuel : Nat) :
    Prop :=
  ∀ t path, WellFormed t → path ≠ "" → lookup t (components path) ≠ none →
    (∀ d, components path <+: d → lookup t d ≠ none →
      d.length < (components path).length + fuel) →
    ∃ r t', remove t path = some (r, t') ∧ Removed os t (components path) r t'

/-- What the loop has done with the entries `names` of the directory `p` when it comes from
`status₀` to `status`. -/
structure Emptied (os : Kernel) (t : FileSystem) (p : Path) (names : List String)
    (status₀ status : Int) (t' : FileSystem) : Prop where
  kept : ∀ q, (∀ name ∈ names, dotOrDotdot name = false → ¬p ++ [name] <+: q) →
    lookup t' q = lookup t q
  survives : ∀ name ∈ names, dotOrDotdot name = false → ∀ q, p ++ [name] <+: q →
    Survives os t (p ++ [name]) q → lookup t' q = lookup t q
  gone : ∀ name ∈ names, dotOrDotdot name = false → ∀ q, p ++ [name] <+: q →
    ¬Survives os t (p ++ [name]) q → lookup t' q = none
  zero : status₀ = 0 →
    (∀ name ∈ names, dotOrDotdot name = false → ¬Survives os t (p ++ [name]) (p ++ [name])) →
    status = 0
  pruned : ∃ victims, prune p t victims = some t'

theorem child_eq {other : String} (h : p ++ [name] <+: q) (h' : p ++ [other] <+: q) :
    name = other := by
  have heq : p ++ [name] = p ++ [other] :=
    (List.prefix_of_prefix_length_le h h' (by simp)).eq_of_length (by simp)
  simpa using heq

theorem Emptied.skip {names : List String} {status₀ status : Int}
    (hdot : dotOrDotdot name = true) (h : Emptied os t p names status₀ status t') :
    Emptied os t p (name :: names) status₀ status t' := by
  have htail : ∀ other ∈ name :: names, dotOrDotdot other = false → other ∈ names := by
    intro other hother hno
    rcases List.mem_cons.mp hother with rfl | hmem
    · simp [hdot] at hno
    · exact hmem
  exact {
    kept := fun q hq => h.kept q fun other hother => hq other (List.mem_cons_of_mem _ hother)
    survives := fun other hother hno => h.survives other (htail other hother hno) hno
    gone := fun other hother hno => h.gone other (htail other hother hno) hno
    zero := fun h0 hall => h.zero h0 fun other hother => hall other (List.mem_cons_of_mem _ hother)
    pruned := h.pruned }

/-- The entry `name` is removed and then the others, none of which is above or below it. -/
theorem Emptied.cons {names : List String} {status₀ status r : Int} {t₁ : FileSystem}
    (hdot : dotOrDotdot name = false) (hnotin : name ∉ names)
    (hone : Removed os t (p ++ [name]) r t₁)
    (h : Emptied os t₁ p names (if r < 0 then -1 else status₀) status t') :
    Emptied os t p (name :: names) status₀ status t' := by
  -- below another entry the first removal is not seen
  have hother : ∀ other ∈ names, ∀ q, p ++ [other] <+: q → lookup t₁ q = lookup t q := by
    intro other hmem q hq
    refine hone.kept q (Or.inl fun hname => hnotin ?_)
    rw [child_eq hname hq]
    exact hmem
  have hcongr : ∀ other ∈ names, ∀ q, p ++ [other] <+: q →
      (Survives os t₁ (p ++ [other]) q ↔ Survives os t (p ++ [other]) q) :=
    fun other hmem q hq => Survives.congr (hother other hmem) hq
  -- and below the first entry the other removals are not
  have hfirst : ∀ q, p ++ [name] <+: q → lookup t' q = lookup t₁ q := by
    intro q hq
    refine h.kept q fun other hmem _ hbelow => hnotin ?_
    rw [child_eq hq hbelow]
    exact hmem
  exact {
    kept := fun q hq => by
      rw [h.kept q fun other hmem => hq other (List.mem_cons_of_mem _ hmem)]
      exact hone.kept q (Or.inl (hq name List.mem_cons_self hdot))
    survives := fun other hmem hdot q hq hs => by
      rcases List.mem_cons.mp hmem with rfl | hmem
      · rw [hfirst q hq]
        exact hone.kept q (Or.inr hs)
      · rw [h.survives other hmem hdot q hq ((hcongr other hmem q hq).mpr hs)]
        exact hother other hmem q hq
    gone := fun other hmem hdot q hq hs => by
      rcases List.mem_cons.mp hmem with rfl | hmem
      · rw [hfirst q hq]
        exact hone.gone q hq hs
      · exact h.gone other hmem hdot q hq fun hs' => hs ((hcongr other hmem q hq).mp hs')
    zero := fun h0 hall => by
      have hr : r = 0 := hone.zero.mpr (hall name List.mem_cons_self hdot)
      refine h.zero (by simp [hr, h0]) fun other hmem hno hs => ?_
      exact hall other (List.mem_cons_of_mem _ hmem) hno
        ((hcongr other hmem _ (List.prefix_refl _)).mp hs)
    pruned := by
      obtain ⟨victims, hvictims⟩ := hone.pruned
      obtain ⟨victims', hvictims'⟩ := h.pruned
      exact ⟨victims ++ victims',
        prune_append (prune_of_below (List.prefix_append p [name]) hvictims) hvictims'⟩ }

theorem removeEntries_spec {remove : FileSystem → String → Option (Int × FileSystem)}
    {fuel : Nat} (hremove : Keeps os remove fuel) {path : String} (names : List String) :
    ∀ (t : FileSystem) (status₀ : Int), WellFormed t → names.Nodup →
      (∀ name ∈ names, dotOrDotdot name = false →
        lookup t (components path ++ [name]) ≠ none) →
      (∀ d, components path <+: d → lookup t d ≠ none →
        d.length < (components path).length + 1 + fuel) →
      ∃ status t', removeEntries remove path names status₀ t = some (status, t') ∧
        Emptied os t (components path) names status₀ status t' := by
  induction names with
  | nil =>
      intro t status₀ _ _ _ _
      exact ⟨status₀, t, rfl, {
        kept := fun q _ => rfl
        survives := by simp
        gone := by simp
        zero := fun h0 _ => h0
        pruned := ⟨[], rfl⟩ }⟩
  | cons name names ih =>
      intro t status₀ ht hnodup hthere hdepth
      obtain ⟨hnotin, hnodup⟩ := List.nodup_cons.mp hnodup
      by_cases hdot : dotOrDotdot name = true
      · obtain ⟨status, t', hrun, hemptied⟩ := ih t status₀ ht hnodup
          (fun other hmem => hthere other (List.mem_cons_of_mem _ hmem)) hdepth
        refine ⟨status, t', ?_, hemptied.skip hdot⟩
        simp only [removeEntries, concatSubpathFile, if_pos hdot]
        exact hrun
      · have hno : dotOrDotdot name = false := by simpa using hdot
        have hp := components_ne_nil path
        have hname : IsName name := ht.names _ name hp (hthere name List.mem_cons_self hno)
        have hcomp := components_concatPathFile path name hname
        -- the first entry
        obtain ⟨r, t₁, hone, hremoved⟩ := hremove t (concatPathFile (some path) name) ht
          (concatPathFile_ne path name hname.1 hname.2.1)
          (by rw [hcomp]; exact hthere name List.mem_cons_self hno)
          (fun d hd hthere => by
            rw [hcomp] at hd ⊢
            have := hdepth d ((List.prefix_append _ _).trans hd) hthere
            simp
            omega)
        rw [hcomp] at hremoved
        -- the others
        obtain ⟨status, t', hrun, hemptied⟩ := ih t₁ (if r < 0 then -1 else status₀)
          (hremoved.wellFormed (by simp) ht) hnodup
          (fun other hmem hnodot => by
            rw [hremoved.kept _ (Or.inl fun hpre => hnotin ?_)]
            · exact hthere other (List.mem_cons_of_mem _ hmem) hnodot
            · rw [child_eq hpre (List.prefix_refl _)]
              exact hmem)
          (fun d hd hthere => hdepth d hd (by rwa [← hremoved.sub hthere]))
        refine ⟨status, t', ?_, hemptied.cons hno hnotin hremoved⟩
        simp only [removeEntries, concatSubpathFile, if_neg hdot, hone]
        exact hrun

/-! ## The function as a whole -/

section Directory

variable {status : Int} {t₁ : FileSystem} (hlist : os.Lists) (ht : WellFormed t) (hp : p ≠ [])
  (hemptied : Emptied os t p (os.readdir t p) 0 status t₁)

include hemptied in
theorem Emptied.away (hq : ¬p <+: q ∨ q = p) : lookup t₁ q = lookup t q := by
  refine hemptied.kept q fun name _ _ hbelow => ?_
  rcases hq with hq | rfl
  · exact hq ((List.prefix_append p [name]).trans hbelow)
  · exact absurd hbelow.length_le (by simp)

include hlist ht hp hemptied in
/-- Below the directory, the loop leaves what survives and nothing else. -/
theorem Emptied.below (hopen : ¬os.Closes p) (hpq : p <+: q) (hne : q ≠ p) :
    (Survives os t p q → lookup t₁ q = lookup t q) ∧
      (¬Survives os t p q → lookup t₁ q = none) := by
  obtain ⟨name, hname⟩ := exists_child hpq hne
  by_cases hthere : lookup t (p ++ [name]) = none
  · -- there is nothing, so that the name is not listed
    have hno : lookup t q = none := by
      by_contra hq
      by_cases heq : q = p ++ [name]
      · exact hq (heq ▸ hthere)
      · exact absurd (ht.rooted.above (by simp) hname heq hq) (by simp [hthere])
    have hsame : lookup t₁ q = lookup t q := by
      refine hemptied.kept q fun other hmem hdot hbelow => ?_
      obtain rfl := child_eq hname hbelow
      rcases ((hlist t p).2 name).mp hmem with rfl | rfl | hthere'
      · exact absurd hdot (by decide)
      · exact absurd hdot (by decide)
      · exact hthere' hthere
    exact ⟨fun _ => hsame, fun _ => hsame.trans hno⟩
  · have hmem : name ∈ os.readdir t p := ((hlist t p).2 name).mpr (Or.inr (Or.inr hthere))
    have hdot : dotOrDotdot name = false := (ht.names p name hp hthere).2.2
    rw [survives_child hname hopen]
    exact ⟨hemptied.survives name hmem hdot q hname, hemptied.gone name hmem hdot q hname⟩

include hlist ht hp hemptied in
/-- The directory stays, for the reason that it survives. -/
theorem Emptied.stays (hopen : ¬os.Closes p) (hs : Survives os t p p) :
    Removed os t p (-1) t₁ where
  kept := by
    intro q hq
    by_cases haway : ¬p <+: q ∨ q = p
    · exact hemptied.away haway
    · obtain ⟨hpq, hne⟩ := not_or.mp haway
      exact (hemptied.below hlist ht hp hopen (not_not.mp hpq) hne).1
        (hq.resolve_left hpq)
  gone := by
    intro q hpq hno
    by_cases heq : q = p
    · exact absurd (heq ▸ hs) hno
    · exact (hemptied.below hlist ht hp hopen hpq heq).2 hno
  status := Or.inr rfl
  zero := by simp [hs]
  pruned := hemptied.pruned

include hlist ht hp hemptied in
/-- The directory is removed after what was in it. -/
theorem Emptied.goes (hopen : ¬os.Closes p) (hdir : lookup t p = some .dir)
    (hcalls : ¬os.Blocks t p) (hleaf : isLeaf t₁ p = true) :
    Removed os t p status (unlink t₁ p) := by
  have hleaf := isLeaf_iff.mp hleaf
  -- nothing in the tree survives
  have hnone : ∀ q, p <+: q → lookup t q ≠ none → ¬Survives os t p q := by
    intro q hpq hq hs
    have hs' : Survives os t p p := hs.above ht hp (List.prefix_refl p) hpq hq
    rcases hs' with ⟨a, hpa, hap, hne, -⟩ | ⟨d, hpd, hd, hbl⟩
    · exact hne (hap.eq_of_length (le_antisymm hap.length_le hpa.length_le))
    · by_cases heq : d = p
      · exact hcalls (heq ▸ hbl)
      · have hthere := hd.resolve_left heq
        have hkept := (hemptied.below hlist ht hp hopen hpd heq).1
          (Or.inr ⟨d, List.prefix_refl d, Or.inl rfl, hbl⟩)
        exact hthere (hkept.symm.trans (hleaf d hpd heq))
  have hself : ¬Survives os t p p := hnone p (List.prefix_refl p) (by simp [hdir])
  have hstatus : status = 0 := by
    refine hemptied.zero rfl fun name hmem hdot hs => ?_
    have hpn : p <+: p ++ [name] := List.prefix_append p [name]
    rcases ((hlist t p).2 name).mp hmem with rfl | rfl | hthere
    · exact absurd hdot (by decide)
    · exact absurd hdot (by decide)
    · exact hnone _ hpn hthere ((survives_child (List.prefix_refl _) hopen).mpr hs)
  exact {
    kept := by
      intro q hq
      rw [lookup_unlink]
      by_cases hpq : p <+: q
      · have hs := hq.resolve_left (not_not.mpr hpq)
        have hno : lookup t q = none := by
          by_contra hthere
          exact hnone q hpq hthere hs
        by_cases heq : q = p
        · exact absurd (heq ▸ hs) hself
        · rw [if_neg heq, hleaf q hpq heq, hno]
      · rw [if_neg (by rintro rfl; exact hpq (List.prefix_refl q))]
        exact hemptied.away (Or.inl hpq)
    gone := by
      intro q hpq _
      rw [lookup_unlink]
      by_cases heq : q = p
      · rw [if_pos heq]
      · rw [if_neg heq, hleaf q hpq heq]
    status := Or.inl hstatus
    zero := ⟨fun _ => hself, fun _ => hstatus⟩
    pruned := by
      obtain ⟨victims, hvictims⟩ := hemptied.pruned
      have hthere : (lookup t₁ p).isSome := by
        rw [hemptied.away (Or.inr rfl), hdir]
        rfl
      have hlast : prune p t₁ [p] = some (unlink t₁ p) := by
        simp only [prune]
        rw [if_pos ⟨List.prefix_refl p, hthere, isLeaf_iff.mpr hleaf⟩]
      exact ⟨victims ++ [p], prune_append hvictims hlast⟩ }

end Directory

/-- A refused call leaves all that is at `p`. -/
theorem Removed.refused (hs : Survives os t p p)
    (hall : ∀ q, p <+: q → q ≠ p → lookup t q ≠ none → Survives os t p q) :
    Removed os t p (-1) t where
  kept := fun q _ => rfl
  gone := by
    intro q hpq hno
    by_contra hq
    by_cases heq : q = p
    · exact hno (heq ▸ hs)
    · exact hno (hall q hpq heq hq)
  status := Or.inr rfl
  zero := by simp [hs]
  pruned := ⟨[], rfl⟩

/-- A directory that the function does not get into keeps all that is in it. -/
theorem Kernel.Closes.removed (hcl : os.Closes p) (hs : os.Blocks t p) :
    Removed os t p (-1) t :=
  Removed.refused (Or.inr ⟨p, List.prefix_refl p, Or.inl rfl, hs⟩) fun _ hpq hne _ =>
    Or.inl ⟨p, List.prefix_refl p, hpq, Ne.symm hne, hcl⟩

/-- A file has nothing below. -/
theorem WellFormed.file_leaf (ht : WellFormed t) (hp : p ≠ []) {content : List UInt8}
    (hfile : lookup t p = some (.file content)) (hpq : p <+: q) (hne : q ≠ p) :
    lookup t q = none := by
  by_contra hq
  have hdir := ht.rooted.above hp hpq hne hq
  rw [hfile] at hdir
  cases hdir

/-- A file is removed by one call. -/
theorem Removed.file (ht : WellFormed t) (hp : p ≠ []) {content : List UInt8}
    (hfile : lookup t p = some (.file content)) (hlstat : ¬os.refuses .lstat p = true)
    (hunlink : ¬os.refuses .unlink p = true) : Removed os t p 0 (unlink t p) := by
  have hno : ¬Survives os t p p := by
    rintro (⟨a, hpa, hap, hne, -⟩ | ⟨d, hpd, hd, hbl⟩)
    · exact hne (hap.eq_of_length (le_antisymm hap.length_le hpa.length_le))
    · by_cases heq : d = p
      · unfold Kernel.Blocks at hbl
        rw [heq, hfile] at hbl
        exact hbl.elim hlstat hunlink
      · exact (hd.resolve_left heq) (ht.file_leaf hp hfile hpd heq)
  exact {
    kept := by
      intro q hq
      rw [lookup_unlink]
      by_cases heq : q = p
      · subst heq
        exact absurd (hq.resolve_left (not_not.mpr (List.prefix_refl q))) hno
      · rw [if_neg heq]
    gone := by
      intro q hpq _
      rw [lookup_unlink]
      by_cases heq : q = p
      · rw [if_pos heq]
      · rw [if_neg heq, ht.file_leaf hp hfile hpq heq]
    status := Or.inl rfl
    zero := ⟨fun _ => hno, fun _ => rfl⟩
    pruned := by
      have hleaf : isLeaf t p = true := isLeaf_iff.mpr fun q => ht.file_leaf hp hfile
      refine ⟨[p], ?_⟩
      simp only [prune]
      rw [if_pos ⟨List.prefix_refl p, by simp [hfile], hleaf⟩] }

theorem removeFile_keeps (hlist : os.Lists) (fuel : Nat) : Keeps os (removeFile os fuel) fuel := by
  induction fuel with
  | zero =>
      intro t path ht hpath hthere hdepth
      exact absurd (hdepth _ (List.prefix_refl _) hthere) (by omega)
  | succ fuel ih =>
      intro t path ht hpath hthere hdepth
      have hp := components_ne_nil path
      generalize hcomp : components path = p at *
      unfold removeFile Kernel.lstat
      rw [hcomp, if_neg hpath]
      by_cases hlstat : os.refuses .lstat p = true
      · rw [if_pos hlstat]
        exact ⟨-1, t, rfl, Kernel.Closes.removed (Or.inl hlstat) (Or.inl hlstat)⟩
      rw [if_neg hlstat]
      cases hnode : lookup t p with
      | none => exact absurd hnode hthere
      | some node =>
          cases node with
          | file content =>
              dsimp only
              by_cases hunlink : os.refuses .unlink p = true
              · rw [if_pos hunlink]
                refine ⟨-1, t, rfl, Removed.refused (Or.inr ⟨p, List.prefix_refl p, Or.inl rfl, ?_⟩)
                  fun q hpq hne hq => absurd (ht.file_leaf hp hnode hpq hne) hq⟩
                unfold Kernel.Blocks
                rw [hnode]
                exact Or.inr hunlink
              · rw [if_neg hunlink]
                exact ⟨0, unlink t p, rfl, Removed.file ht hp hnode hlstat hunlink⟩
          | dir =>
              dsimp only
              by_cases hopendir : os.refuses .opendir p = true
              · rw [if_pos hopendir]
                refine ⟨-1, t, rfl, Kernel.Closes.removed (Or.inr hopendir) ?_⟩
                unfold Kernel.Blocks
                rw [hnode]
                exact Or.inr (Or.inl hopendir)
              rw [if_neg hopendir]
              have hopen : ¬os.Closes p := by
                rintro (h | h)
                · exact hlstat h
                · exact hopendir h
              obtain ⟨status, t₁, hrun, hemptied⟩ := removeEntries_spec ih
                (os.readdir t p) t 0 ht (hlist t p).1
                (by
                  rw [hcomp]
                  intro name hmem hdot
                  rcases ((hlist t p).2 name).mp hmem with rfl | rfl | hthere'
                  · exact absurd hdot (by decide)
                  · exact absurd hdot (by decide)
                  · exact hthere')
                (by
                  rw [hcomp]
                  intro d hd hthere'
                  have := hdepth d hd hthere'
                  omega)
              rw [hcomp] at hemptied
              rw [hrun]
              dsimp only
              -- the calls that come after the loop
              by_cases hclosedir : os.refuses .closedir p = true
              · rw [if_pos hclosedir]
                refine ⟨-1, t₁, rfl, hemptied.stays hlist ht hp hopen
                  (Or.inr ⟨p, List.prefix_refl p, Or.inl rfl, ?_⟩)⟩
                unfold Kernel.Blocks
                rw [hnode]
                exact Or.inr (Or.inr (Or.inl hclosedir))
              rw [if_neg hclosedir]
              by_cases hrmdir : os.refuses .rmdir p = true
              · rw [if_pos (by simp [hrmdir])]
                refine ⟨-1, t₁, rfl, hemptied.stays hlist ht hp hopen
                  (Or.inr ⟨p, List.prefix_refl p, Or.inl rfl, ?_⟩)⟩
                unfold Kernel.Blocks
                rw [hnode]
                exact Or.inr (Or.inr (Or.inr hrmdir))
              by_cases hleaf : isLeaf t₁ p = true
              · rw [if_neg (by simp [hrmdir, hleaf])]
                refine ⟨status, unlink t₁ p, rfl, hemptied.goes hlist ht hp hopen hnode ?_ hleaf⟩
                unfold Kernel.Blocks
                rw [hnode]
                rintro (h | h | h | h)
                · exact hlstat h
                · exact hopendir h
                · exact hclosedir h
                · exact hrmdir h
              · rw [if_pos (by simp [hleaf])]
                refine ⟨-1, t₁, rfl, hemptied.stays hlist ht hp hopen ?_⟩
                rw [isLeaf_iff] at hleaf
                push Not at hleaf
                obtain ⟨q, hpq, hne, hq⟩ := hleaf
                have hbelow := hemptied.below hlist ht hp hopen hpq hne
                have hs : Survives os t p q := by
                  by_contra hno
                  exact hq (hbelow.2 hno)
                exact hs.above ht hp (List.prefix_refl p) hpq (by rwa [← hbelow.1 hs])

/-- Where there is nothing, only `lstat` can fail. -/
theorem Removed.missing (ht : WellFormed t) (hp : p ≠ []) (hno : lookup t p = none) {r : Int}
    (hr : r = if os.refuses .lstat p then -1 else 0) : Removed os t p r t := by
  have hnone : ∀ q, p <+: q → lookup t q = none := by
    intro q hpq
    by_contra hq
    by_cases heq : q = p
    · exact hq (heq ▸ hno)
    · exact absurd (ht.rooted.above hp hpq heq hq) (by simp [hno])
  have hs : Survives os t p p ↔ os.refuses .lstat p = true := by
    constructor
    · rintro (⟨a, hpa, hap, hne, -⟩ | ⟨d, hpd, hd, hbl⟩)
      · exact absurd (hap.eq_of_length (le_antisymm hap.length_le hpa.length_le)) hne
      · obtain rfl : d = p := hd.resolve_right (not_not.mpr (hnone d hpd))
        simpa [Kernel.Blocks, hno] using hbl
    · exact fun h => Or.inr ⟨p, List.prefix_refl p, Or.inl rfl, Or.inl h⟩
  exact {
    kept := fun q _ => rfl
    gone := fun q hpq _ => hnone q hpq
    status := by rw [hr]; split <;> simp
    zero := by rw [hs, hr]; split <;> simp_all
    pruned := ⟨[], rfl⟩ }

/-- The function returns, and does what it should at any path. -/
theorem removeFile_removed (hlist : os.Lists) (ht : WellFormed t) {path : String}
    (hpath : path ≠ "") : ∃ fuel₀, ∀ fuel ≥ fuel₀, ∃ r t',
      removeFile os fuel t path = some (r, t') ∧ Removed os t (components path) r t' := by
  by_cases hthere : lookup t (components path) = none
  · refine ⟨1, fun fuel hfuel => ?_⟩
    obtain ⟨fuel, rfl⟩ : ∃ n, fuel = n + 1 := ⟨fuel - 1, by omega⟩
    refine ⟨_, t, ?_, Removed.missing ht (components_ne_nil path) hthere rfl⟩
    unfold removeFile Kernel.lstat
    rw [if_neg hpath]
    by_cases hlstat : os.refuses .lstat (components path) = true
    · simp [hlstat]
    · simp [hlstat, hthere]
  · obtain ⟨n, hn⟩ := depth_bounded t
    refine ⟨n, fun fuel hfuel => removeFile_keeps hlist fuel t path ht hpath hthere ?_⟩
    intro d _ hd
    have := hn d hd
    omega

end Survival

/-! ## Results -/

/-- The removals of a pruning are what the upload thread `k` may do, one after the other. -/
theorem uploadRemove_prune {σ : Store} {k : Nat} {p : Path} {victims : List Path}
    {fs : FileSystem} (hup : σ.uploads[k]? = some ⟨p, .removing⟩)
    (h : prune p σ.fs victims = some fs) :
    victims.foldlM (fun s victim => uploadRemove s k victim) σ = some { σ with fs := fs } := by
  induction victims generalizing σ with
  | nil =>
      simp only [prune, Option.some.injEq] at h
      subst h
      rfl
  | cons victim victims ih =>
      simp only [prune] at h
      split at h
      · next hok =>
          have hone : uploadRemove σ k victim =
              some { σ with fs := FileTree.unlink σ.fs victim } := by
            unfold uploadRemove
            rw [hup]
            exact if_pos hok
          rw [List.foldlM_cons, hone]
          exact ih (σ := { σ with fs := FileTree.unlink σ.fs victim }) hup h
      · cases h

/-- The names that a tree has in the directory `p`, with the two dots. -/
def listing (t : FileSystem) (p : Path) : List String :=
  ("." :: ".." :: t.filterMap fun e => if e.1.dropLast = p then e.1.getLast? else none).dedup

theorem listing_lists (refuses : Syscall → Path → Bool) : (Kernel.mk refuses listing).Lists := by
  intro t p
  refine ⟨List.nodup_dedup _, fun name => ?_⟩
  show name ∈ listing t p ↔ _
  unfold listing
  rw [List.mem_dedup, List.mem_cons, List.mem_cons, List.mem_filterMap, Ne,
    lookup_eq_none_iff]
  push Not
  refine or_congr Iff.rfl (or_congr Iff.rfl (exists_congr fun e => and_congr_right fun _ => ?_))
  constructor
  · intro h
    split at h
    · next hp =>
        rw [← hp]
        exact (List.dropLast_append_getLast? name h).symm
    · cases h
  · intro h
    simp [h]

/-- Two sessions, with one file each. -/
def twoSessions : FileSystem := [
  ([""], .dir),
  (["", "speech0"], .dir),
  (["", "speech0", "s1"], .dir),
  (["", "speech0", "s1", "pcm"], .file [1]),
  (["", "speech0", "s2"], .dir),
  (["", "speech0", "s2", "pcm"], .file [2])]

theorem twoSessions_wellFormed : WellFormed twoSessions := by
  have hentries : ∀ e ∈ twoSessions, e.1.dropLast ≠ [] →
      lookup twoSessions e.1.dropLast = some .dir ∧
        ∀ name ∈ e.1.getLast?, name ∈ ["speech0", "s1", "s2", "pcm"] := by
    decide
  have hnames : ∀ name ∈ ["speech0", "s1", "s2", "pcm"], IsName name := by
    simp only [IsName]
    decide
  have hthere : ∀ q name, q ≠ [] → lookup twoSessions (q ++ [name]) ≠ none →
      lookup twoSessions q = some .dir ∧ IsName name := by
    intro q name hq h
    obtain ⟨e, he, heq⟩ : ∃ e ∈ twoSessions, e.1 = q ++ [name] := by
      rw [Ne, lookup_eq_none_iff] at h
      push Not at h
      exact h
    have hentry := hentries e he
    rw [heq] at hentry
    simp only [List.dropLast_concat, List.getLast?_concat, Option.mem_some_iff,
      forall_eq'] at hentry
    exact ⟨(hentry hq).1, hnames name (hentry hq).2⟩
  exact ⟨fun q name hq h => (hthere q name hq h).1, fun q name hq h => (hthere q name hq h).2⟩

/-- What the store has for `remove_file` is what it does. Whatever is refused, its removals are
steps that the upload thread may make; and with nothing refused, what it leaves is what
`StopTask` leaves in one step. -/
theorem removeFile_refines (os : Kernel) (hlist : os.Lists) (σ : Store) (ht : WellFormed σ.fs)
    (path : String) (hpath : path ≠ "") : ∃ fuel₀, ∀ fuel ≥ fuel₀, ∃ r fs,
      removeFile os fuel σ.fs path = some (r, fs) ∧
      (∀ k, σ.uploads[k]? = some ⟨components path, .removing⟩ → ∃ victims,
        List.foldlM (fun s victim => uploadRemove s k victim) σ victims =
          some { σ with fs := fs }) ∧
      ((∀ call q, components path <+: q → os.refuses call q = false) → ∀ h, ∃ σ',
        taskStep σ (.removeDir h (components path)) = some (.returned, σ') ∧
        r = 0 ∧ ∀ q, lookup fs q = lookup σ'.fs q) := by
  obtain ⟨fuel₀, hspec⟩ := removeFile_removed hlist ht hpath
  refine ⟨fuel₀, fun fuel hfuel => ?_⟩
  obtain ⟨r, fs, hrun, hremoved⟩ := hspec fuel hfuel
  refine ⟨r, fs, hrun, fun k hup => ?_, fun hfree h => ⟨_, rfl, ?_⟩⟩
  · obtain ⟨victims, hvictims⟩ := hremoved.pruned
    exact ⟨victims, uploadRemove_prune hup hvictims⟩
  · have hnone : ∀ q, components path <+: q → ¬Survives os σ.fs (components path) q := by
      rintro q hpq (⟨a, hpa, -, -, hcl⟩ | ⟨d, hqd, -, hbl⟩)
      · simp [Kernel.Closes, hfree _ a hpa] at hcl
      · have hd := fun call => hfree call d (hpq.trans hqd)
        unfold Kernel.Blocks at hbl
        simp only [hd, Bool.false_eq_true, false_or, or_self] at hbl
        revert hbl
        split <;> simp
    refine ⟨hremoved.zero.mpr (hnone _ (List.prefix_refl _)), fun q => ?_⟩
    rw [lookup_removeTree]
    by_cases hpq : components path <+: q
    · rw [if_pos hpq]
      exact hremoved.gone q hpq (hnone q hpq)
    · rw [if_neg hpq]
      exact hremoved.kept q (Or.inl hpq)

/-- The store when an upload thread is about to remove both sessions. -/
def uploading : Store :=
  { storeInit "" twoSessions with uploads := [⟨["", "speech0"], .removing⟩] }

theorem removeFile_refines_uploading : ∃ fuel₀, ∀ fuel ≥ fuel₀, ∃ r fs,
    removeFile ⟨fun _ _ => false, listing⟩ fuel twoSessions "/speech0" = some (r, fs) ∧
      (∃ victims, List.foldlM (fun s victim => uploadRemove s 0 victim) uploading victims =
        some { uploading with fs := fs }) ∧
      r = 0 ∧ ∀ q, lookup fs q = lookup (removeTree twoSessions ["", "speech0"]) q := by
  have hpath : components "/speech0" = ["", "speech0"] := by decide
  obtain ⟨fuel₀, h⟩ := removeFile_refines ⟨fun _ _ => false, listing⟩ (listing_lists _)
    uploading twoSessions_wellFormed "/speech0" (by decide)
  rw [hpath] at h
  refine ⟨fuel₀, fun fuel hfuel => ?_⟩
  obtain ⟨r, fs, hrun, hup, hfree⟩ := h fuel hfuel
  obtain ⟨σ', hstep, hr, hq⟩ := hfree (fun _ _ _ => rfl)
    { id := "s1", type := .typeStop, buf := [], completed := 0 }
  obtain rfl : _ = σ' := congrArg Prod.snd (Option.some.inj hstep)
  exact ⟨r, fs, hrun, hup 0 rfl, hr, hq⟩

end SpeechStack
