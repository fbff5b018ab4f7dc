import SpeechStack.Lib.Chain
import SpeechStack.Lib.Loop

set_option autoImplicit false

/-! # The linked list

A list head points to a chain of nodes. `llist_add_batch` stores the old head behind the new nodes,
but the store into the head that the lock-free original makes with its `cmpxchg` is missing: what
is added is not in the list. The two deletions do what they should on every list.
-/

namespace SpeechStack

open Chain

/-- `struct llist_head`, and the field `next` of every `struct llist_node`. -/
structure Llist (ν : Type) where
  first : Option ν
  next : ν → Option ν

section Functions

variable {ν : Type}

/-- `init_llist_head(list)`. -/
def initLlistHead (s : Llist ν) : Llist ν := { s with first := none }

/-- `llist_del_all(head)`. -/
def llistDelAll (s : Llist ν) : Option ν × Llist ν :=
  let entry := s.first
  if entry.isNone then (none, s) else (entry, { s with first := none })

/-- `llist_del_first(head)`: it reads `head->first->next`, so that there is no result on an empty
list. -/
def llistDelFirst (s : Llist ν) : Option (ν × Llist ν) :=
  s.first.map fun oldentry => (oldentry, { s with first := s.next oldentry })

variable [DecidableEq ν]

/-- `llist_add_batch(new_first, new_last, head)`: one store, and `!(0)`. -/
def llistAddBatch (_newFirst newLast : ν) (s : Llist ν) : Bool × Llist ν :=
  (true, { s with next := Function.update s.next newLast s.first })

/-- `llist_add(new, head)`. -/
def llistAdd (new : ν) (s : Llist ν) : Bool × Llist ν := llistAddBatch new new s

end Functions

/-! ## Runs -/

/-- A call; a batch is given by its nodes, of which there is at least one. -/
inductive LlistOp (ν : Type)
  | add (new : ν)
  | addBatch (newFirst : ν) (rest : List ν)
  | delFirst
  | delAll
  deriving DecidableEq

/-- What a call returns. -/
inductive LlistReply (ν : Type)
  | flag (b : Bool)
  | node (p : Option ν)
  deriving DecidableEq

section Runs

variable {ν : Type}

/-- The nodes that a call adds, the newest first. -/
def LlistOp.added : LlistOp ν → List ν
  | .add new => [new]
  | .addBatch newFirst rest => newFirst :: rest
  | _ => []

/-- What a call does to the nodes that have been added and not deleted, the newest first. -/
def LlistOp.after (l : List ν) : LlistOp ν → List ν
  | .add new => new :: l
  | .addBatch newFirst rest => newFirst :: rest ++ l
  | .delFirst => l.tail
  | .delAll => []

/-- New nodes are not in the list, those of a batch are distinct, and there is something to
delete for `llist_del_first`. -/
def LlistOp.Fits (l : List ν) (op : LlistOp ν) : Prop :=
  op.added.Nodup ∧ op.added.Disjoint l ∧ (op = .delFirst → l ≠ [])

/-- Every call of a sequence fits the nodes that are there. -/
def LlistFits : List ν → List (LlistOp ν) → Prop
  | _, [] => True
  | l, op :: ops => op.Fits l ∧ LlistFits (op.after l) ops

/-- What a call must return on a list of the nodes `l`, and what a deletion must leave. -/
def LlistOp.Lawful (l : List ν) (op : LlistOp ν) (reply : LlistReply ν) (s : Llist ν) : Prop :=
  match op with
  | .add _ => reply = .flag l.isEmpty
  | .addBatch _ _ => reply = .flag l.isEmpty
  | .delFirst => reply = .node l.head? ∧ IsChain s.next s.first l.tail
  | .delAll => ∃ p, reply = .node p ∧ IsChain s.next p l ∧ s.first = none

variable [DecidableEq ν]

/-- One call. The caller of `llist_add_batch` has linked the nodes of the batch. -/
def LlistOp.exec (s : Llist ν) : LlistOp ν → Option (LlistReply ν × Llist ν)
  | .add new => some (.flag (llistAdd new s).1, (llistAdd new s).2)
  | .addBatch newFirst rest =>
      let nodes := newFirst :: rest
      let r := llistAddBatch newFirst (nodes.getLast (List.cons_ne_nil newFirst rest))
        { s with next := link nodes s.next }
      some (.flag r.1, r.2)
  | .delFirst => (llistDelFirst s).map fun r => (.node (some r.1), r.2)
  | .delAll => some (.node (llistDelAll s).1, (llistDelAll s).2)

/-- All calls of a sequence return, and what they should. -/
def LifoLaw : Llist ν → List ν → List (LlistOp ν) → Prop
  | _, _, [] => True
  | s, l, op :: ops =>
      ∃ reply s', op.exec s = some (reply, s') ∧ op.Lawful l reply s' ∧ LifoLaw s' (op.after l) ops

end Runs

/-! ## The calls -/

section Calls

variable {ν : Type} {s : Llist ν} {l : List ν}

/-- `llist_del_all` returns the chain and empties the list. -/
theorem llistDelAll_spec (h : IsChain s.next s.first l) :
    IsChain (llistDelAll s).2.next (llistDelAll s).1 l ∧ (llistDelAll s).2.first = none := by
  unfold llistDelAll
  dsimp only
  cases hfirst : s.first with
  | none =>
      rw [hfirst] at h
      exact ⟨h, hfirst⟩
  | some entry =>
      rw [hfirst] at h
      exact ⟨h, rfl⟩

/-- `llist_del_first` returns the newest node and removes only it. -/
theorem llistDelFirst_spec {x : ν} (h : IsChain s.next s.first (x :: l)) :
    ∃ s', llistDelFirst s = some (x, s') ∧ IsChain s'.next s'.first l := by
  refine ⟨{ s with first := s.next x }, ?_, h.2⟩
  rw [llistDelFirst, h.1, Option.map_some]

theorem LlistOp.lawful_of_adds {op : LlistOp ν} (hadds : op.added ≠ []) (reply : LlistReply ν) :
    op.Lawful l reply s ↔ reply = .flag l.isEmpty := by
  cases op with
  | add new => exact Iff.rfl
  | addBatch newFirst rest => exact Iff.rfl
  | delFirst => exact absurd rfl hadds
  | delAll => exact absurd rfl hadds

theorem LlistOp.after_of_adds {op : LlistOp ν} (hadds : op.added ≠ []) :
    op.after l = op.added ++ l := by
  cases op with
  | add new => rfl
  | addBatch newFirst rest => rfl
  | delFirst => exact absurd rfl hadds
  | delAll => exact absurd rfl hadds

/-- A deletion leaves an empty list empty. -/
theorem LlistOp.after_nil {op : LlistOp ν} (hdel : op.added = []) : op.after [] = [] := by
  cases op with
  | add new => exact absurd hdel (List.cons_ne_nil _ _)
  | addBatch newFirst rest => exact absurd hdel (List.cons_ne_nil _ _)
  | delFirst => rfl
  | delAll => rfl

variable [DecidableEq ν]

/-- **A call that adds nodes** returns true, and leaves the list as it was. -/
theorem LlistOp.exec_adds {op : LlistOp ν} (hadds : op.added ≠ []) (hfits : op.Fits l)
    (h : IsChain s.next s.first l) :
    ∃ s', op.exec s = some (.flag true, s') ∧ IsChain s'.next s'.first l := by
  have hnotin : ∀ n ∈ l, n ∉ op.added := fun n hn hadded => hfits.2.1 hadded hn
  cases op with
  | add new =>
      refine ⟨_, rfl, h.congr fun n hn => ?_⟩
      exact Function.update_of_ne (List.ne_of_not_mem_cons (hnotin n hn)) _ _
  | addBatch newFirst rest =>
      refine ⟨_, rfl, h.congr fun n hn => ?_⟩
      have hlast : n ≠ (newFirst :: rest).getLast (List.cons_ne_nil newFirst rest) := by
        intro heq
        apply hnotin n hn
        rw [heq]
        exact List.getLast_mem _
      exact (Function.update_of_ne hlast _ _).trans (link_of_not_mem _ _ (hnotin n hn))
  | delFirst => exact absurd rfl hadds
  | delAll => exact absurd rfl hadds

/-- A deletion on a list of the nodes `l` is lawful. -/
theorem LlistOp.exec_deletes {op : LlistOp ν} (hdel : op.added = []) (hfits : op.Fits l)
    (h : IsChain s.next s.first l) :
    ∃ reply s', op.exec s = some (reply, s') ∧ op.Lawful l reply s' ∧
      IsChain s'.next s'.first (op.after l) := by
  cases op with
  | add new => exact absurd hdel (List.cons_ne_nil _ _)
  | addBatch newFirst rest => exact absurd hdel (List.cons_ne_nil _ _)
  | delFirst =>
      obtain ⟨x, xs, rfl⟩ := List.exists_cons_of_ne_nil (hfits.2.2 rfl)
      obtain ⟨s', hcall, hchain⟩ := llistDelFirst_spec h
      refine ⟨.node (some x), s', ?_, ⟨rfl, hchain⟩, hchain⟩
      rw [LlistOp.exec, hcall, Option.map_some]
  | delAll =>
      obtain ⟨hchain, hfirst⟩ := llistDelAll_spec h
      exact ⟨_, _, rfl, ⟨_, rfl, hchain, hfirst⟩, hfirst⟩

end Calls

/-! ## The law -/

section Law

variable {ν : Type} [DecidableEq ν] {s : Llist ν} {l : List ν}

/-- Where nodes `c` that have been added are not in the list, the next call is not lawful. -/
theorem not_lifoLaw_of_lost {c : List ν} (h : IsChain s.next s.first l) (hc : c ≠ [])
    (hdisj : c.Disjoint l) {op : LlistOp ν} (hfits : op.Fits (c ++ l)) (ops : List (LlistOp ν)) :
    ¬ LifoLaw s (c ++ l) (op :: ops) := by
  rintro ⟨reply, s', hcall, hlaw, -⟩
  by_cases hadds : op.added ≠ []
  · -- it says that the list was empty
    have hfits' : op.Fits l :=
      ⟨hfits.1, (List.disjoint_append_right.mp hfits.2.1).2,
        fun hop => absurd (by rw [hop]; rfl) hadds⟩
    obtain ⟨t, hadd, -⟩ := LlistOp.exec_adds hadds hfits' h
    have hreply : reply = .flag true := (Prod.mk.inj (Option.some.inj (hcall.symm.trans hadd))).1
    have hflag := (LlistOp.lawful_of_adds hadds reply).mp hlaw
    rw [hreply, LlistReply.flag.injEq, eq_comm, List.isEmpty_iff] at hflag
    exact hc (List.append_eq_nil_iff.mp hflag).1
  · cases op with
    | add new => exact hadds (List.cons_ne_nil _ _)
    | addBatch newFirst rest => exact hadds (List.cons_ne_nil _ _)
    | delFirst =>
        -- the node it returns is in the list, and the newest one is not
        obtain ⟨⟨x, t⟩, hdel, hreply⟩ := Option.map_eq_some_iff.mp hcall
        obtain ⟨y, hy, hxy⟩ := Option.map_eq_some_iff.mp hdel
        obtain ⟨a, c, rfl⟩ := List.exists_cons_of_ne_nil hc
        have hnode : LlistReply.node (some x) = .node (some a) :=
          (Prod.mk.inj hreply).1.trans hlaw.1
        obtain rfl : x = a := Option.some.inj (LlistReply.node.inj hnode)
        obtain rfl : y = x := (Prod.mk.inj hxy).1
        have hmem : y ∈ l := List.mem_of_mem_head? (h.eq_head?.symm.trans hy)
        exact hdisj List.mem_cons_self hmem
    | delAll =>
        -- it returns the chain of the nodes that are in the list
        obtain ⟨hchain, -⟩ := llistDelAll_spec h
        obtain ⟨hreply, rfl⟩ := Prod.mk.inj (Option.some.inj hcall)
        obtain ⟨p, hp, hchain', -⟩ := hlaw
        obtain rfl : (llistDelAll s).1 = p := LlistReply.node.inj (hreply.trans hp)
        have hall : l = c ++ l := hchain.unique hchain'
        exact hc (List.append_left_eq_self.mp hall.symm)

/-- A lawful run, its first call known. -/
theorem lifoLaw_cons_iff {t : Llist ν} {op : LlistOp ν} {reply : LlistReply ν}
    (hcall : op.exec s = some (reply, t)) (hlaw : op.Lawful l reply t) (ops : List (LlistOp ν)) :
    LifoLaw s l (op :: ops) ↔ LifoLaw t (op.after l) ops := by
  constructor
  · rintro ⟨reply', t', hcall', -, hrest⟩
    obtain ⟨-, rfl⟩ := Prod.mk.inj (Option.some.inj (hcall.symm.trans hcall'))
    exact hrest
  · exact fun hrest => ⟨reply, t, hcall, hlaw, hrest⟩

/-- From an empty list on: as long as no call adds nodes it stays empty, and the first one that
does is the last lawful one. -/
theorem lifoLaw_iff_of_empty (ops : List (LlistOp ν)) (hfits : LlistFits [] ops)
    (h : IsChain s.next s.first []) :
    LifoLaw s [] ops ↔ ∀ op ∈ ops.dropLast, op.added = [] := by
  induction ops generalizing s with
  | nil => exact ⟨fun _ op hop => absurd hop List.not_mem_nil, fun _ => trivial⟩
  | cons op ops ih =>
      obtain ⟨hop, hrest⟩ := hfits
      by_cases hdel : op.added = []
      · obtain ⟨reply, t, hcall, hlaw, hchain⟩ := LlistOp.exec_deletes hdel hop h
        rw [LlistOp.after_nil hdel] at hchain hrest
        rw [lifoLaw_cons_iff hcall hlaw, LlistOp.after_nil hdel, ih hrest hchain]
        cases ops with
        | nil => exact Iff.rfl
        | cons op' ops =>
            rw [List.dropLast_cons_cons, List.forall_mem_cons, and_iff_right hdel]
      · obtain ⟨t, hcall, hchain⟩ := LlistOp.exec_adds hdel hop h
        rw [lifoLaw_cons_iff hcall ((LlistOp.lawful_of_adds hdel _).mpr rfl)]
        cases ops with
        | nil => exact ⟨fun _ op hop => absurd hop List.not_mem_nil, fun _ => trivial⟩
        | cons op' ops =>
            rw [LlistOp.after_of_adds hdel] at hrest ⊢
            constructor
            · intro hlaw
              exact absurd hlaw
                (not_lifoLaw_of_lost hchain hdel (List.disjoint_nil_right _) hrest.1 ops)
            · intro hdels
              exact absurd (hdels op List.mem_cons_self) hdel

/-- **The LIFO law.** From an initialised head, a sequence of calls that fit what has been added
and not deleted obeys the law if and only if no call comes behind one that adds nodes. -/
theorem llist_lifoLaw_iff (s : Llist ν) (ops : List (LlistOp ν)) (hfits : LlistFits [] ops) :
    LifoLaw (initLlistHead s) [] ops ↔ ∀ op ∈ ops.dropLast, op.added = [] :=
  lifoLaw_iff_of_empty ops hfits rfl

/-- One node added, and all deleted: NULL is returned. -/
theorem llistAdd_loses_node :
    LlistFits [] [LlistOp.add 1, .delAll] ∧
    (llistDelAll (llistAdd 1 (initLlistHead ⟨none, fun _ => none⟩)).2).1 = none ∧
    ¬ LifoLaw (initLlistHead ⟨none, fun _ => none⟩) [] [LlistOp.add 1, .delAll] := by
  refine ⟨by simp [LlistFits, LlistOp.Fits, LlistOp.added], rfl, ?_⟩
  rintro ⟨_, s₁, hadd, -, reply, s₂, hdel, ⟨p, hp, hchain, -⟩, -⟩
  obtain ⟨-, rfl⟩ := Prod.mk.inj (Option.some.inj hadd)
  obtain ⟨hreply, -⟩ := Prod.mk.inj (Option.some.inj hdel)
  -- a chain of one node begins at it
  have hstart : p = some 1 := hchain.1
  have hnull : LlistReply.node none = .node (some 1) := by
    rw [← hstart, ← hp, ← hreply]
    rfl
  exact Option.some_ne_none 1 (LlistReply.node.inj hnull).symm

/-- Two deletions on an empty list, and a node added. -/
theorem llist_lifoLaw_iff_addLast :
    LifoLaw (initLlistHead ⟨some 7, fun _ => none⟩) [] [.delAll, .delAll, .addBatch 1 [2, 3]] ↔
      ∀ op ∈ [LlistOp.delAll, .delAll, .addBatch 1 [2, 3]].dropLast, op.added = [] :=
  llist_lifoLaw_iff ⟨some 7, fun _ => none⟩ _ (by
    simp [LlistFits, LlistOp.Fits, LlistOp.added, LlistOp.after])

end Law

/-! ## `llist_reverse_order` -/

section Reverse

variable {ν : Type} [DecidableEq ν]

/-- The locals of `llist_reverse_order`, and the memory. -/
structure Reversal (ν : Type) where
  next : ν → Option ν
  head : Option ν
  newHead : Option ν

def Reversal.more (s : Reversal ν) : Bool := s.head.isSome

/-- A round of its loop. -/
def Reversal.round (s : Reversal ν) : Option (Reversal ν) :=
  s.head.map fun tmp => ⟨Function.update s.next tmp s.newHead, s.next tmp, some tmp⟩

/-- `llist_reverse_order(head)`: the new first entry, and the memory. -/
def llistReverseOrder (fuel : Nat) (next : ν → Option ν) (head : Option ν) :
    Option (Option ν × (ν → Option ν)) :=
  (whileDo Reversal.more Reversal.round fuel ⟨next, head, none⟩).map fun s => (s.newHead, s.next)

/-- On the way the nodes behind `head` are still to come, and those behind `new_head` are reversed. -/
theorem reversal_spec {next : ν → Option ν} {p q : Option ν} {xs ys : List ν} (hp : IsChain next p xs)
    (hq : IsChain next q ys) (hnodup : (xs ++ ys).Nodup) {fuel : Nat} (hfuel : xs.length ≤ fuel) :
    ∃ t, whileDo Reversal.more Reversal.round fuel ⟨next, p, q⟩ = some t ∧
      IsChain t.next t.newHead (xs.reverse ++ ys) ∧ ∀ n, n ∉ xs → t.next n = next n := by
  induction xs generalizing next p q ys fuel with
  | nil =>
      obtain rfl : p = none := hp
      exact ⟨_, whileDo_of_not _ _ rfl, hq, fun _ _ => rfl⟩
  | cons x xs ih =>
      obtain ⟨fuel, rfl⟩ : ∃ k, fuel = k + 1 := ⟨fuel - 1, by rw [List.length_cons] at hfuel; omega⟩
      obtain ⟨rfl, hxs⟩ := hp
      rw [List.cons_append] at hnodup
      obtain ⟨hx, hrest⟩ := List.nodup_cons.mp hnodup
      rw [List.mem_append, not_or] at hx
      have hmore : Reversal.more ⟨next, some x, q⟩ = true := rfl
      have hround : Reversal.round ⟨next, some x, q⟩ =
        some ⟨Function.update next x q, next x, some x⟩ := rfl
      have hother : ∀ n, n ≠ x → Function.update next x q n = next n := fun n hn =>
        Function.update_of_ne hn _ _
      have hxs' : IsChain (Function.update next x q) (next x) xs :=
        hxs.congr fun n hn => hother n fun heq => hx.1 (heq ▸ hn)
      have hys' : IsChain (Function.update next x q) (some x) (x :: ys) := by
        refine ⟨rfl, ?_⟩
        rw [Function.update_self]
        exact hq.congr fun n hn => hother n fun heq => hx.2 (heq ▸ hn)
      have hnodup' : (xs ++ x :: ys).Nodup :=
        (List.perm_middle.nodup_iff).mpr (List.nodup_cons.mpr ⟨by simp [hx], hrest⟩)
      obtain ⟨t, ht, hchain, hsame⟩ := ih hxs' hys' hnodup' (Nat.le_of_succ_le_succ hfuel)
      refine ⟨t, (whileDo_of_test hmore hround).trans ht, ?_, fun n hn => ?_⟩
      · rwa [List.reverse_cons, List.append_assoc]
      · obtain ⟨hnx, hnxs⟩ := not_or.mp (mt List.mem_cons.mpr hn)
        rw [hsame n hnxs, hother n hnx]

/-- **Oldest first.** What `llist_del_all` returns, the newest node first, is turned around in place:
the chain that comes back has the same nodes in the other order, and no other node is touched. -/
theorem llistReverseOrder_spec {s : Llist ν} {l : List ν} (h : IsChain s.next s.first l)
    (hnodup : l.Nodup) {fuel : Nat} (hfuel : l.length ≤ fuel) :
    ∃ p next', llistReverseOrder fuel (llistDelAll s).2.next (llistDelAll s).1 = some (p, next') ∧
      IsChain next' p l.reverse ∧ ∀ n, n ∉ l → next' n = s.next n := by
  obtain ⟨hchain, -⟩ := llistDelAll_spec h
  have hnext : (llistDelAll s).2.next = s.next := by
    rw [llistDelAll]
    split <;> rfl
  obtain ⟨t, ht, hreversed, hsame⟩ := reversal_spec hchain (show IsChain _ none [] from rfl)
    (by rwa [List.append_nil]) hfuel
  refine ⟨t.newHead, t.next, ?_, ?_, ?_⟩
  · rw [llistReverseOrder, ht, Option.map_some]
  · rwa [List.append_nil] at hreversed
  · rwa [hnext] at hsame

theorem llistReverseOrder_spec_three :
    ∃ p next', llistReverseOrder 3
        (llistDelAll ⟨some 3, fun n => if n = 3 then some 2 else if n = 2 then some 1 else none⟩).2.next
        (llistDelAll ⟨some 3, fun n => if n = 3 then some 2 else if n = 2 then some 1 else none⟩).1 =
        some (p, next') ∧ p = some 1 ∧ next' 1 = some 2 ∧ next' 2 = some 3 ∧ next' 3 = none := by
  have hchain : IsChain (fun n => if n = 3 then some 2 else if n = 2 then some 1 else none) (some 3)
      [3, 2, 1] := ⟨rfl, rfl, rfl, rfl⟩
  obtain ⟨p, next', hcall, ⟨hp, h₁, h₂, h₃⟩, -⟩ := llistReverseOrder_spec
    (s := ⟨some 3, fun n => if n = 3 then some 2 else if n = 2 then some 1 else none⟩) hchain
    (by decide) le_rfl
  exact ⟨p, next', hcall, hp, h₁, h₂, h₃⟩

end Reverse

end SpeechStack
