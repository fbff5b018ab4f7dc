import SpeechStack.Lib.Circle

set_option autoImplicit false

/-! # The doubly linked lists

`list.h` links nodes into circles through their heads. Its calls store four fields, or two, and know
nothing of the list that a node is in: `list_remove` takes a node out of whichever list that is. So
the model has one memory for all lists, and the theorem is about every sequence of calls on all of
them (`lists_refine`).
-/

namespace SpeechStack

open Circle

/-- The fields of every `struct listnode`. -/
structure Listnodes (ν : Type) where
  next : ν → ν
  prev : ν → ν

section Functions

variable {ν : Type} [DecidableEq ν]

/-- `node->next = p`. -/
def Listnodes.setNext (s : Listnodes ν) (node p : ν) : Listnodes ν :=
  { s with next := Function.update s.next node p }

/-- `node->prev = p`. -/
def Listnodes.setPrev (s : Listnodes ν) (node p : ν) : Listnodes ν :=
  { s with prev := Function.update s.prev node p }

/-- `list_init(node)`. -/
def listInit (node : ν) (s : Listnodes ν) : Listnodes ν := (s.setNext node node).setPrev node node

/-- `list_add_tail(head, item)`. -/
def listAddTail (head item : ν) (s : Listnodes ν) : Listnodes ν :=
  let s := s.setNext item head
  let s := s.setPrev item (s.prev head)
  let s := s.setNext (s.prev head) item
  s.setPrev head item

/-- `list_add_head(head, item)`. -/
def listAddHead (head item : ν) (s : Listnodes ν) : Listnodes ν :=
  let s := s.setNext item (s.next head)
  let s := s.setPrev item head
  let s := s.setPrev (s.next head) item
  s.setNext head item

/-- `list_remove(item)`. -/
def listRemove (item : ν) (s : Listnodes ν) : Listnodes ν :=
  let s := s.setPrev (s.next item) (s.prev item)
  s.setNext (s.prev item) (s.next item)

/-- `list_empty(list)`. -/
def listEmpty (list : ν) (s : Listnodes ν) : Bool := decide (list = s.next list)

/-- `list_head(list)`. -/
def listHead (list : ν) (s : Listnodes ν) : ν := s.next list

/-- `list_tail(list)`. -/
def listTail (list : ν) (s : Listnodes ν) : ν := s.prev list

/-- The nodes that `list_for_each(node, list)` visits. -/
def listForEach (fuel : Nat) (list : ν) (s : Listnodes ν) : Option (List ν) :=
  (forEach s.next list (fun acc node => acc ++ [node]) fuel (s.next list) []).map Prod.snd

/-- The nodes that `list_for_each_reverse(node, list)` visits. -/
def listForEachReverse (fuel : Nat) (list : ν) (s : Listnodes ν) : Option (List ν) :=
  (forEach s.prev list (fun acc node => acc ++ [node]) fuel (s.prev list) []).map Prod.snd

end Functions

/-- The calls on lists that have been initialised. -/
inductive ListCall (ν : Type)
  | addTail (head item : ν)
  | addHead (head item : ν)
  | remove (item : ν)
  deriving DecidableEq

section Runs

variable {ν : Type} [DecidableEq ν]

def ListCall.exec (s : Listnodes ν) : ListCall ν → Listnodes ν
  | .addTail head item => listAddTail head item s
  | .addHead head item => listAddHead head item s
  | .remove item => listRemove item s

/-- What a call does to the lists, given by their heads. -/
def ListCall.after (lists : ν → List ν) : ListCall ν → ν → List ν
  | .addTail head item => Function.update lists head (lists head ++ [item])
  | .addHead head item => Function.update lists head (item :: lists head)
  | .remove item => fun head => (lists head).erase item

/-- What a call may be made on: a node that is in no list, and is no head, is added to one of the
lists; a node that is in one of the lists is removed. -/
def ListCall.Fits (heads : Set ν) (lists : ν → List ν) : ListCall ν → Prop
  | .addTail head item => head ∈ heads ∧ ∀ h ∈ heads, item ∉ h :: lists h
  | .addHead head item => head ∈ heads ∧ ∀ h ∈ heads, item ∉ h :: lists h
  | .remove item => ∃ h ∈ heads, item ∈ lists h

def ListsFit (heads : Set ν) : (ν → List ν) → List (ListCall ν) → Prop
  | _, [] => True
  | lists, call :: calls => call.Fits heads lists ∧ ListsFit heads (call.after lists) calls

/-- The memory holds the lists of `heads`, which share no node. -/
structure HoldsLists (heads : Set ν) (lists : ν → List ν) (s : Listnodes ν) : Prop where
  circle : ∀ h ∈ heads, IsCircle s.next s.prev h (lists h)
  apart : ∀ h ∈ heads, ∀ h' ∈ heads, h ≠ h' → (h :: lists h).Disjoint (h' :: lists h')

end Runs

/-! ## The calls -/

section Calls

variable {ν : Type} [DecidableEq ν] {s : Listnodes ν} {head item : ν} {xs : List ν}

theorem listAddHead_eq (hne : head ≠ item) : listAddHead head item s =
    ⟨Function.update (Function.update s.next item (s.next head)) head item,
      Function.update (Function.update s.prev item head) (s.next head) item⟩ := by
  have hread : Function.update s.next item (s.next head) head = s.next head :=
    Function.update_of_ne hne _ _
  simp only [listAddHead, Listnodes.setNext, Listnodes.setPrev, hread]

theorem listAddTail_eq (hne : head ≠ item) : listAddTail head item s =
    ⟨Function.update (Function.update s.next item head) (s.prev head) item,
      Function.update (Function.update s.prev item (s.prev head)) head item⟩ := by
  have hread : Function.update s.prev item (s.prev head) head = s.prev head :=
    Function.update_of_ne hne _ _
  simp only [listAddTail, Listnodes.setNext, Listnodes.setPrev, hread]

theorem listAddHead_spec (h : IsCircle s.next s.prev head xs) (hitem : item ∉ head :: xs) :
    IsCircle (listAddHead head item s).next (listAddHead head item s).prev head (item :: xs) := by
  rw [listAddHead_eq (List.ne_of_not_mem_cons hitem).symm]
  exact h.insert hitem

/-- The other end: the same call on the list read backwards. -/
theorem listAddTail_spec (h : IsCircle s.next s.prev head xs) (hitem : item ∉ head :: xs) :
    IsCircle (listAddTail head item s).next (listAddTail head item s).prev head (xs ++ [item]) := by
  have hitem' : item ∉ head :: xs.reverse := by
    rw [List.mem_cons, List.mem_reverse, ← List.mem_cons]
    exact hitem
  have hcircle := (h.reverse.insert hitem').reverse
  rw [List.reverse_cons, List.reverse_reverse] at hcircle
  rw [listAddTail_eq (List.ne_of_not_mem_cons hitem).symm]
  exact hcircle

/-- Removing a node of a list stores into its two neighbours. -/
theorem listRemove_eq (h : IsCircle s.next s.prev head xs) (hitem : item ∈ xs) :
    listRemove item s = ⟨Function.update s.next (s.prev item) (s.next item),
      Function.update s.prev (s.next item) (s.prev item)⟩ := by
  obtain ⟨l₁, l₂, rfl⟩ := List.append_of_mem hitem
  have hne : item ≠ s.next item := by
    obtain ⟨hhead, hnodup⟩ := List.nodup_cons.mp h.nodup
    rw [h.neighbours.2]
    cases l₂ with
    | nil => exact fun heq => hhead (heq ▸ hitem)
    | cons y l₂ =>
        have hnot := (List.nodup_cons.mp (List.nodup_append'.mp hnodup).2.1).1
        exact fun heq => hnot (heq ▸ List.mem_cons_self)
  have hread : Function.update s.prev (s.next item) (s.prev item) item = s.prev item :=
    Function.update_of_ne hne _ _
  simp only [listRemove, Listnodes.setNext, Listnodes.setPrev, hread]

theorem listRemove_spec (h : IsCircle s.next s.prev head xs) (hitem : item ∈ xs) :
    IsCircle (listRemove item s).next (listRemove item s).prev head (xs.erase item) := by
  rw [listRemove_eq h hitem]
  obtain ⟨l₁, l₂, -, rfl, herase⟩ := List.exists_erase_eq hitem
  rw [herase]
  exact h.remove

end Calls

/-! ## All lists -/

section Lists

variable {ν : Type} [DecidableEq ν] {heads : Set ν} {lists : ν → List ν} {s : Listnodes ν}

/-- A call stores into the item and into nodes of the list it is about, and nowhere else. -/
def LeavesRest (s s' : Listnodes ν) (nodes : List ν) : Prop :=
  ∀ n, n ∉ nodes → s'.next n = s.next n ∧ s'.prev n = s.prev n

theorem listAddTail_spares {head item : ν} (h : IsCircle s.next s.prev head (lists head))
    (hitem : item ∉ head :: lists head) :
    LeavesRest s (listAddTail head item s) (item :: head :: lists head) := by
  intro n hn
  obtain ⟨hni, hnot⟩ := not_or.mp (mt List.mem_cons.mpr hn)
  have hhead : n ≠ head := fun heq => hnot (heq ▸ List.mem_cons_self)
  have hlast : n ≠ s.prev head := fun heq => hnot (heq ▸ h.prev_mem List.mem_cons_self)
  rw [listAddTail_eq (List.ne_of_not_mem_cons hitem).symm]
  exact ⟨(Function.update_of_ne hlast _ _).trans (Function.update_of_ne hni _ _),
    (Function.update_of_ne hhead _ _).trans (Function.update_of_ne hni _ _)⟩

theorem listAddHead_spares {head item : ν} (h : IsCircle s.next s.prev head (lists head))
    (hitem : item ∉ head :: lists head) :
    LeavesRest s (listAddHead head item s) (item :: head :: lists head) := by
  intro n hn
  obtain ⟨hni, hnot⟩ := not_or.mp (mt List.mem_cons.mpr hn)
  have hhead : n ≠ head := fun heq => hnot (heq ▸ List.mem_cons_self)
  have hfirst : n ≠ s.next head := fun heq => hnot (heq ▸ h.next_mem List.mem_cons_self)
  rw [listAddHead_eq (List.ne_of_not_mem_cons hitem).symm]
  exact ⟨(Function.update_of_ne hhead _ _).trans (Function.update_of_ne hni _ _),
    (Function.update_of_ne hfirst _ _).trans (Function.update_of_ne hni _ _)⟩

theorem listRemove_spares {head item : ν} (h : IsCircle s.next s.prev head (lists head))
    (hitem : item ∈ lists head) : LeavesRest s (listRemove item s) (head :: lists head) := by
  intro n hn
  have hmem := List.mem_cons_of_mem head hitem
  have hprev : n ≠ s.prev item := fun heq => hn (heq ▸ h.prev_mem hmem)
  have hnext : n ≠ s.next item := fun heq => hn (heq ▸ h.next_mem hmem)
  rw [listRemove_eq h hitem]
  exact ⟨Function.update_of_ne hprev _ _, Function.update_of_ne hnext _ _⟩

omit [DecidableEq ν] in
theorem HoldsLists.congr {lists' : ν → List ν} (h : HoldsLists heads lists s)
    (hsame : ∀ l ∈ heads, lists' l = lists l) : HoldsLists heads lists' s := by
  refine ⟨fun l hl => ?_, fun l hl l' hl' => ?_⟩
  · rw [hsame l hl]
    exact h.circle l hl
  · rw [hsame l hl, hsame l' hl']
    exact h.apart l hl l' hl'

/-- A new node goes into one list and leaves the others alone. -/
theorem HoldsLists.add {head item : ν} {xs : List ν} {s' : Listnodes ν} (h : HoldsLists heads lists s)
    (hhead : head ∈ heads) (hitem : ∀ l ∈ heads, item ∉ l :: lists l)
    (hcircle : IsCircle s'.next s'.prev head xs) (hxs : ∀ n, n ∈ xs ↔ n = item ∨ n ∈ lists head)
    (hspares : LeavesRest s s' (item :: head :: lists head)) :
    HoldsLists heads (Function.update lists head xs) s' := by
  have hgrown : ∀ l ∈ heads, l ≠ head → (head :: xs).Disjoint (l :: lists l) := by
    intro l hl hne n hn hnl
    rw [List.mem_cons, hxs] at hn
    rcases hn with rfl | rfl | hn
    · exact h.apart n hhead l hl hne.symm List.mem_cons_self hnl
    · exact hitem l hl hnl
    · exact h.apart head hhead l hl hne.symm (List.mem_cons_of_mem _ hn) hnl
  constructor
  · intro l hl
    by_cases hlh : l = head
    · rw [hlh, Function.update_self]
      exact hcircle
    · rw [Function.update_of_ne hlh]
      have hout : ∀ n ∈ l :: lists l, n ∉ item :: head :: lists head := by
        intro n hn hmem
        rcases List.mem_cons.mp hmem with rfl | hmem
        · exact hitem l hl hn
        · exact h.apart l hl head hhead hlh hn hmem
      exact (h.circle l hl).congr (fun n hn => (hspares n (hout n hn)).1)
        fun n hn => (hspares n (hout n hn)).2
  · intro l hl l' hl' hne
    by_cases hlh : l = head
    · rw [hlh, Function.update_self, Function.update_of_ne fun heq => hne (hlh.trans heq.symm)]
      exact hgrown l' hl' fun heq => hne (hlh.trans heq.symm)
    · rw [Function.update_of_ne hlh]
      by_cases hlh' : l' = head
      · rw [hlh', Function.update_self]
        exact (hgrown l hl hlh).symm
      · rw [Function.update_of_ne hlh']
        exact h.apart l hl l' hl' hne

/-- A node is taken out of its list, and the others are left alone. -/
theorem HoldsLists.remove {head item : ν} (h : HoldsLists heads lists s) (hhead : head ∈ heads)
    (hitem : item ∈ lists head) :
    HoldsLists heads (Function.update lists head ((lists head).erase item)) (listRemove item s) ∧
      ∀ l ∈ heads, l ≠ head → (lists l).erase item = lists l := by
  have hspares := listRemove_spares (h.circle head hhead) hitem
  have hsub : ∀ l, ∀ n ∈ l :: Function.update lists head ((lists head).erase item) l,
      n ∈ l :: lists l := by
    intro l n hn
    by_cases hlh : l = head
    · rw [hlh, Function.update_self] at hn
      rw [hlh]
      exact List.mem_cons.mpr ((List.mem_cons.mp hn).imp id List.mem_of_mem_erase)
    · rwa [Function.update_of_ne hlh] at hn
  refine ⟨⟨fun l hl => ?_, fun l hl l' hl' hne n hn hn' => ?_⟩, fun l hl hne => ?_⟩
  · by_cases hlh : l = head
    · rw [hlh, Function.update_self]
      exact listRemove_spec (h.circle head hhead) hitem
    · rw [Function.update_of_ne hlh]
      have hout : ∀ n ∈ l :: lists l, n ∉ head :: lists head := fun n hn =>
        h.apart l hl head hhead hlh hn
      exact (h.circle l hl).congr (fun n hn => (hspares n (hout n hn)).1)
        fun n hn => (hspares n (hout n hn)).2
  · exact h.apart l hl l' hl' hne (hsub l n hn) (hsub l' n hn')
  · refine List.erase_of_not_mem fun hmem => ?_
    exact h.apart l hl head hhead hne (List.mem_cons_of_mem _ hmem) (List.mem_cons_of_mem _ hitem)

/-- **A call.** -/
theorem ListCall.exec_holdsLists {call : ListCall ν} (h : HoldsLists heads lists s)
    (hfits : call.Fits heads lists) : HoldsLists heads (call.after lists) (call.exec s) := by
  cases call with
  | addTail head item =>
      obtain ⟨hhead, hitem⟩ := hfits
      have hcircle := h.circle head hhead
      exact h.add hhead hitem (listAddTail_spec hcircle (hitem head hhead))
        (fun n => by rw [List.mem_append, List.mem_singleton, or_comm])
        (listAddTail_spares hcircle (hitem head hhead))
  | addHead head item =>
      obtain ⟨hhead, hitem⟩ := hfits
      have hcircle := h.circle head hhead
      exact h.add hhead hitem (listAddHead_spec hcircle (hitem head hhead))
        (fun n => List.mem_cons) (listAddHead_spares hcircle (hitem head hhead))
  | remove item =>
      obtain ⟨head, hhead, hitem⟩ := hfits
      obtain ⟨hholds, hsame⟩ := h.remove hhead hitem
      refine hholds.congr fun l hl => ?_
      by_cases hlh : l = head
      · rw [hlh, Function.update_self]
        rfl
      · rw [Function.update_of_ne hlh]
        exact hsame l hl hlh

/-- What the reader of a list sees. -/
theorem HoldsLists.read {l : ν} (h : HoldsLists heads lists s) (hl : l ∈ heads) {fuel : Nat}
    (hfuel : (lists l).length ≤ fuel) :
    listForEach fuel l s = some (lists l) ∧
      listForEachReverse fuel l s = some (lists l).reverse ∧
      listEmpty l s = (lists l).isEmpty ∧ listHead l s = (lists l).headD l ∧
      listTail l s = (lists l).getLastD l := by
  have hcircle := h.circle l hl
  have hcollect : ∀ xs : List ν, xs.foldl (fun acc node => acc ++ [node]) [] = xs := fun xs => by
    rw [List.foldl_append_eq_append, List.nil_append, ← List.flatMap_def]
    exact List.flatMap_singleton' xs
  refine ⟨?_, ?_, ?_, hcircle.next_head, ?_⟩
  · rw [listForEach, hcircle.next_head,
      hcircle.forEach_eq _ (List.nil_append _).symm [] hfuel, Option.map_some, hcollect]
  · have hback := hcircle.reverse
    rw [listForEachReverse, hback.next_head,
      hback.forEach_eq _ (List.nil_append _).symm [] (by rwa [List.length_reverse]),
      Option.map_some, hcollect]
  · rw [listEmpty, hcircle.next_head]
    cases hxs : lists l with
    | nil => simp
    | cons x xs =>
        have hne : l ≠ x := by
          have hnot := (List.nodup_cons.mp hcircle.nodup).1
          rw [hxs] at hnot
          exact List.ne_of_not_mem_cons hnot
        simp [hne]
  · rw [listTail, hcircle.reverse.next_head, List.headD_eq_head?_getD, List.head?_reverse,
      List.getLastD_eq_getLast?]

/-! ## Sequences of calls -/

theorem foldl_exec_holdsLists {calls : List (ListCall ν)} (h : HoldsLists heads lists s)
    (hfits : ListsFit heads lists calls) :
    HoldsLists heads (calls.foldl ListCall.after lists) (calls.foldl ListCall.exec s) := by
  induction calls generalizing lists s with
  | nil => exact h
  | cons call calls ih => exact ih (ListCall.exec_holdsLists h hfits.1) hfits.2

theorem listInit_holds (hs : List ν) (s : Listnodes ν) :
    HoldsLists {h | h ∈ hs} (fun _ => []) (hs.foldl (fun s h => listInit h s) s) := by
  have hinit : ∀ (hs : List ν) (s : Listnodes ν) (h : ν),
      (h ∈ hs ∨ s.next h = h ∧ s.prev h = h) →
        (hs.foldl (fun s h => listInit h s) s).next h = h ∧
          (hs.foldl (fun s h => listInit h s) s).prev h = h := by
    intro hs
    induction hs with
    | nil => exact fun s h hh => hh.resolve_left List.not_mem_nil
    | cons x hs ih =>
        intro s h hh
        refine ih (listInit x s) h ?_
        by_cases hx : h = x
        · exact .inr ⟨by simp [listInit, Listnodes.setNext, Listnodes.setPrev, hx],
            by simp [listInit, Listnodes.setNext, Listnodes.setPrev, hx]⟩
        · refine hh.imp (fun hmem => (List.mem_cons.mp hmem).resolve_left hx) fun hself => ?_
          simpa [listInit, Listnodes.setNext, Listnodes.setPrev, Function.update_of_ne hx] using hself
  refine ⟨fun h hh => isCircle_nil.mpr (hinit hs s h (.inl hh)), fun h _ h' _ hne n hn hn' => ?_⟩
  rw [List.mem_singleton] at hn hn'
  exact hne (hn.symm.trans hn')

/-- **All lists.** In any memory in which heads have been initialised, any calls on any of the lists
leave behind each head the list that the calls describe: a loop forward visits it, one backward
its reverse, and the two ends are where they should be. -/
theorem lists_refine (hs : List ν) (s : Listnodes ν) {calls : List (ListCall ν)}
    (hfits : ListsFit {h | h ∈ hs} (fun _ => []) calls) {l : ν} (hl : l ∈ hs) :
    ∀ xs s', xs = calls.foldl ListCall.after (fun _ => []) l →
      s' = calls.foldl ListCall.exec (hs.foldl (fun s h => listInit h s) s) →
      (∀ fuel, xs.length ≤ fuel →
        listForEach fuel l s' = some xs ∧ listForEachReverse fuel l s' = some xs.reverse) ∧
      listEmpty l s' = xs.isEmpty ∧ listHead l s' = xs.headD l ∧ listTail l s' = xs.getLastD l := by
  rintro xs s' rfl rfl
  have h := foldl_exec_holdsLists (listInit_holds hs s) hfits
  refine ⟨fun fuel hfuel => ?_, (h.read hl le_rfl).2.2⟩
  obtain ⟨hforward, hbackward, -⟩ := h.read hl hfuel
  exact ⟨hforward, hbackward⟩

theorem lists_refine_queue :
    ∃ s : Listnodes Nat, s = [ListCall.addTail 0 2, .addTail 0 3, .addHead 1 4, .remove 2,
        .addTail 1 2].foldl ListCall.exec ([0, 1].foldl (fun s h => listInit h s) ⟨id, id⟩) ∧
      listForEach 5 1 s = some [4, 2] ∧ listForEachReverse 5 0 s = some [3] := by
  have hfits : ListsFit {h | h ∈ [0, 1]} (fun _ => [])
      [ListCall.addTail 0 2, .addTail 0 3, .addHead 1 4, .remove 2, .addTail 1 2] := by
    simp [ListsFit, ListCall.Fits, ListCall.after]
  have h₀ : 0 ∈ [0, 1] := by decide
  have h₁ : 1 ∈ [0, 1] := by decide
  have hone := lists_refine [0, 1] ⟨id, id⟩ hfits h₁ [4, 2] _ rfl rfl
  have hzero := lists_refine [0, 1] ⟨id, id⟩ hfits h₀ [3] _ rfl rfl
  exact ⟨_, rfl, (hone.1 5 (by decide)).1, (hzero.1 5 (by decide)).2⟩

/-! ## Removing on the way -/

/-- The variables of `list_for_each_safe(node, n, list)`, and the nodes that have been visited. -/
structure SafeLoop (ν : Type) where
  memory : Listnodes ν
  node : ν
  n : ν
  visited : List ν

/-- A round with a body that removes the nodes with `p`. -/
def SafeLoop.round (p : ν → Bool) (t : SafeLoop ν) : Option (SafeLoop ν) :=
  let memory := if p t.node then listRemove t.node t.memory else t.memory
  some ⟨memory, t.n, memory.next t.n, t.visited ++ [t.node]⟩

def SafeLoop.more (list : ν) (t : SafeLoop ν) : Bool := decide (t.node ≠ list)

def listForEachSafe (p : ν → Bool) (fuel : Nat) (list : ν) (s : Listnodes ν) :
    Option (List ν × Listnodes ν) :=
  (whileDo (SafeLoop.more list) (SafeLoop.round p) fuel
    ⟨s, s.next list, s.next (s.next list), []⟩).map fun t => (t.visited, t.memory)

theorem safeLoop_spec (p : ν → Bool) {l : ν} (hl : l ∈ heads) {kept xs : List ν} {fuel : Nat}
    (h : HoldsLists heads lists s) (hlist : lists l = kept ++ xs) (hfuel : xs.length ≤ fuel)
    (visited : List ν) :
    ∃ t, whileDo (SafeLoop.more l) (SafeLoop.round p) fuel
        ⟨s, xs.headD l, s.next (xs.headD l), visited⟩ = some t ∧ t.visited = visited ++ xs ∧
      HoldsLists heads (Function.update lists l (kept ++ xs.filter fun x => !p x)) t.memory := by
  induction xs generalizing kept fuel lists s visited with
  | nil =>
      refine ⟨_, whileDo_of_not _ _ (decide_eq_false (not_not.mpr rfl)), (List.append_nil _).symm, ?_⟩
      rw [List.filter_nil, ← hlist, Function.update_eq_self]
      exact h
  | cons x xs ih =>
      obtain ⟨fuel, rfl⟩ : ∃ k, fuel = k + 1 := ⟨fuel - 1, by rw [List.length_cons] at hfuel; omega⟩
      have hcircle : IsCircle s.next s.prev l (kept ++ x :: xs) := hlist ▸ h.circle l hl
      obtain ⟨hnot, hnodup⟩ := List.nodup_cons.mp hcircle.nodup
      have hx : x ∈ kept ++ x :: xs := List.mem_append_right _ List.mem_cons_self
      have hmore : SafeLoop.more l ⟨s, x, s.next x, visited⟩ = true :=
        decide_eq_true fun heq => hnot (heq ▸ hx)
      have hround : SafeLoop.round p ⟨s, x, s.next x, visited⟩ =
          some ⟨if p x then listRemove x s else s, xs.headD l,
            (if p x then listRemove x s else s).next (xs.headD l), visited ++ [x]⟩ := by
        rw [SafeLoop.round, hcircle.neighbours.2]
      have hle := Nat.le_of_succ_le_succ hfuel
      rw [List.headD_cons, whileDo_of_test hmore hround, List.filter_cons]
      cases hp : p x with
      | false =>
          have hlist' : lists l = (kept ++ [x]) ++ xs := by rw [hlist, List.append_assoc]; rfl
          obtain ⟨t, ht, hvisited, hholds⟩ := ih h hlist' hle (visited ++ [x])
          refine ⟨t, ht, by rw [hvisited, List.append_assoc]; rfl, ?_⟩
          rwa [List.append_assoc] at hholds
      | true =>
          have hxlist : x ∈ lists l := hlist ▸ hx
          have herase : (lists l).erase x = kept ++ xs := by
            have hkept : x ∉ kept := fun hmem =>
              (List.nodup_append'.mp hnodup).2.2 hmem List.mem_cons_self
            rw [hlist, List.erase_append_right _ hkept, List.erase_cons_head]
          have hremoved := (h.remove hl hxlist).1
          rw [herase] at hremoved
          obtain ⟨t, ht, hvisited, hholds⟩ :=
            ih hremoved (Function.update_self _ _ _) hle (visited ++ [x])
          refine ⟨t, ht, by rw [hvisited, List.append_assoc]; rfl, ?_⟩
          rwa [Function.update_idem] at hholds

/-- **Removing on the way.** A safe loop whose body removes some of the nodes visits all of them, in
their order, and leaves the others in the list; every other list stays as it is. -/
theorem listForEachSafe_removes (p : ν → Bool) {l : ν} (h : HoldsLists heads lists s) (hl : l ∈ heads)
    {fuel : Nat} (hfuel : (lists l).length ≤ fuel) :
    ∃ s', listForEachSafe p fuel l s = some (lists l, s') ∧
      HoldsLists heads (Function.update lists l ((lists l).filter fun x => !p x)) s' := by
  obtain ⟨t, ht, hvisited, hholds⟩ := safeLoop_spec p hl h (List.nil_append _).symm hfuel []
  refine ⟨t.memory, ?_, hholds⟩
  rw [listForEachSafe, (h.circle l hl).next_head, ht, Option.map_some, hvisited]
  rfl

theorem listForEachSafe_removes_queue :
    ∃ s', listForEachSafe (fun x => x % 2 == 0) 9 0 ([ListCall.addTail 0 2, .addTail 0 3, .addTail 0 4,
        .addTail 1 6].foldl ListCall.exec ([0, 1].foldl (fun s h => listInit h s) ⟨id, id⟩)) =
        some ([2, 3, 4], s') ∧ listForEach 9 0 s' = some [3] ∧ listForEach 9 1 s' = some [6] := by
  have hfits : ListsFit {h | h ∈ [0, 1]} (fun _ => [])
      [ListCall.addTail 0 2, .addTail 0 3, .addTail 0 4, .addTail 1 6] := by
    simp [ListsFit, ListCall.Fits, ListCall.after]
  have hholds := foldl_exec_holdsLists (listInit_holds [0, 1] ⟨id, id⟩) hfits
  have h₀ : 0 ∈ {h | h ∈ [0, 1]} := by simp
  have h₁ : 1 ∈ {h | h ∈ [0, 1]} := by simp
  have hfuel : [2, 3, 4].length ≤ 9 := by decide
  obtain ⟨s', hloop, hleft⟩ := listForEachSafe_removes (fun x => x % 2 == 0) hholds h₀ hfuel
  exact ⟨s', hloop, (hleft.read h₀ (by decide)).1, (hleft.read h₁ (by decide)).1⟩

end Lists

end SpeechStack
