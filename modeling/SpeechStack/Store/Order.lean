import Mathlib.Data.List.ReduceOption
import SpeechStack.Store.Folder

set_option autoImplicit false

/-! # The tasks of a session are in order

The calls of one session follow each other, so that what the pool has accepted for a session
is, in order, the first part of the session's tasks. `Follows` says what is left of them: the
task of a call that is not yet accepted, and the calls to be made.
-/

namespace SpeechStack

/-- The task of a client's last call, until it is accepted. -/
def Server.waiting (s : Server) (pending : Option Nat) : List StoreTask :=
  match pending.bind s.system.answer with
  | some (_, some 0) => []
  | some (task, _) => [task]
  | none => []

/-- The client makes the calls of the recording. -/
structure Follows (s : Server) (c : Client) (r : Recording) : Prop where
  id : c.id = r.id
  sent : Keyed.stream taskId r.id (s.system.accepted.map Prod.snd) ++ s.waiting c.pending ++
    c.todo.reduceOption = r.tasks
  known : ∀ j, c.pending = some j →
    ∃ task ret, s.system.answer j = some (task, ret) ∧ taskId task = some r.id

/-- All clients make the calls of their recordings, and nobody else calls. -/
structure Ordered (recordings : List Recording) (s : Server) : Prop where
  length : s.clients.length = recordings.length
  follows : ∀ (k : Nat) c r, s.clients[k]? = some c → recordings[k]? = some r → Follows s c r
  owner : ∀ j task, s.system.answer j = some (task, none) →
    ∃ (k : Nat) (c : Client), s.clients[k]? = some c ∧ c.pending = some j
  ids : ∀ task ∈ s.system.accepted.map Prod.snd, ∃ r ∈ recordings, taskId task = some r.id

section Script

variable {r : Recording} {task : StoreTask}

theorem speechProcess_id {id : String} {buf : List UInt8} {type : PersistentType}
    (h : speechProcess id buf type = some task) : taskId task = some id := by
  unfold speechProcess at h
  split at h
  · cases h
  · cases h
    rfl

theorem Recording.mem_tasks (h : task ∈ r.tasks) : taskId task = some r.id := by
  unfold Recording.tasks Recording.script at h
  rw [List.reduceOption_mem_iff] at h
  simp only [List.cons_append, List.mem_cons, List.mem_append, List.mem_map, Option.some.injEq,
    List.not_mem_nil, or_false] at h
  rcases h with rfl | ⟨p, -, hp⟩ | rfl
  · rfl
  · exact speechProcess_id hp
  · rfl

end Script

section Ordered

variable {recordings : List Recording} {s s' : Server} {a : ServerAct} {c : Client} {r : Recording}

/-- Two sessions with one identifier are the same one. -/
theorem recordings_inj (hids : (recordings.map Recording.id).Nodup) {k k' : Nat} {r' : Recording}
    (hk : recordings[k]? = some r) (hk' : recordings[k']? = some r') (hid : r.id = r'.id) :
    k = k' := by
  have hlt : k < (recordings.map Recording.id).length := by
    rw [List.length_map]
    exact (List.getElem?_eq_some_iff.mp hk).1
  apply (List.getElem?_inj hlt hids).mp
  rw [List.getElem?_map, List.getElem?_map, hk, hk', Option.map_some, Option.map_some, hid]

theorem Ordered.recording (h : Ordered recordings s) {k : Nat} (hk : s.clients[k]? = some c) :
    ∃ r, recordings[k]? = some r := by
  have hlt := (List.getElem?_eq_some_iff.mp hk).1
  rw [h.length] at hlt
  exact ⟨recordings[k], List.getElem?_eq_getElem hlt⟩

theorem waiting_congr {pending : Option Nat}
    (h : ∀ j, pending = some j → s'.system.answer j = s.system.answer j) :
    s'.waiting pending = s.waiting pending := by
  unfold Server.waiting
  cases pending with
  | none => rfl
  | some j => rw [Option.bind_some, Option.bind_some, h j rfl]

/-- What others do keeps a client on its way. -/
theorem Follows.frame (h : Follows s c r)
    (hacc : Keyed.stream taskId r.id (s'.system.accepted.map Prod.snd) =
      Keyed.stream taskId r.id (s.system.accepted.map Prod.snd))
    (hans : ∀ j, c.pending = some j → s'.system.answer j = s.system.answer j) :
    Follows s' c r where
  id := h.id
  sent := by
    rw [hacc, waiting_congr hans]
    exact h.sent
  known := by
    intro j hj
    rw [hans j hj]
    exact h.known j hj

/-- A client whose last call has returned 0 waits for nothing. -/
theorem ready_answer {j : Nat} (h : s.ready (some j) = true) :
    ∃ task, s.system.answer j = some (task, some 0) := by
  unfold Server.ready at h
  unfold System.answer
  split at h
  · rename_i heq
    cases heq
  · rename_i j' heq
    cases heq
    split at h
    · rename_i task ret hpc
      rw [hpc]
      have hret : ret = 0 := by simpa using h
      subst hret
      exact ⟨task, rfl⟩
    · cases h

theorem ready_waiting {pending : Option Nat} (h : s.ready pending = true) :
    s.waiting pending = [] := by
  unfold Server.waiting
  cases pending with
  | none => rfl
  | some j =>
      obtain ⟨task, hj⟩ := ready_answer h
      rw [Option.bind_some, hj]
      rfl

/-- An unanswered call is the last one of the client of its session. -/
theorem Ordered.pending (h : Ordered recordings s) {j : Nat} {task : StoreTask}
    (hj : s.system.answer j = some (task, none)) :
    ∃ (k : Nat) (c : Client) (r : Recording), s.clients[k]? = some c ∧ recordings[k]? = some r ∧
      c.pending = some j ∧ taskId task = some r.id := by
  obtain ⟨k, c, hk, hp⟩ := h.owner j task hj
  obtain ⟨r, hr⟩ := h.recording hk
  obtain ⟨task', ret, hans, hid⟩ := (h.follows k c r hk hr).known j hp
  rw [hj] at hans
  cases hans
  exact ⟨k, c, r, hk, hr, hp, hid⟩

theorem Follows.accepted (h : Follows s c r) {j : Nat} {task : StoreTask}
    (hp : c.pending = some j) (hid : taskId task = some r.id)
    (hj : s.system.answer j = some (task, none))
    (hacc : s'.system.accepted = s.system.accepted ++ [(j, task)])
    (hans : s'.system.answer j = some (task, some 0)) : Follows s' c r where
  id := h.id
  sent := by
    have hwas : s.waiting c.pending = [task] := by
      rw [hp, Server.waiting, Option.bind_some, hj]
    have his : s'.waiting c.pending = [] := by
      rw [hp, Server.waiting, Option.bind_some, hans]
      rfl
    rw [← h.sent, hwas, his, hacc, List.map_append, Keyed.stream_append, List.append_nil]
    congr 2
    exact Keyed.stream_cons_self hid []
  known := by
    intro j' hj'
    rw [hp] at hj'
    cases hj'
    exact ⟨task, some 0, hans, hid⟩

theorem Follows.rejected (h : Follows s c r) {j : Nat} {task : StoreTask}
    (hj : s.system.answer j = some (task, none))
    (hacc : s'.system.accepted = s.system.accepted)
    (hans : ∀ k, s'.system.answer k =
      if k = j then some (task, some (-1)) else s.system.answer k) : Follows s' c r where
  id := h.id
  sent := by
    have hwaiting : s'.waiting c.pending = s.waiting c.pending := by
      unfold Server.waiting
      cases c.pending with
      | none => rfl
      | some k =>
          rw [Option.bind_some, Option.bind_some, hans]
          -- a call that answers -1 still counts as waiting: its client makes no more calls
          by_cases hk : k = j
          · rw [if_pos hk, hk, hj]
            rfl
          · rw [if_neg hk]
    rw [hacc, hwaiting]
    exact h.sent
  known := by
    intro k hk
    obtain ⟨task', ret, hk', hid⟩ := h.known k hk
    rw [hans]
    by_cases hkj : k = j
    · subst hkj
      rw [hj] at hk'
      cases hk'
      exact ⟨task, some (-1), if_pos rfl, hid⟩
    · exact ⟨task', ret, (if_neg hkj).trans hk', hid⟩

/-- A step of the pool that is no new call. -/
theorem Ordered.answers (h : Ordered recordings s) (hids : (recordings.map Recording.id).Nodup)
    (hclients : s'.clients = s.clients) (hans : AnswerStep s.system s'.system) :
    Ordered recordings s' := by
  refine ⟨hclients ▸ h.length, fun k c r hk hr => ?_, fun i task hi => ?_, fun task ht => ?_⟩
  · rw [hclients] at hk
    have hf := h.follows k c r hk hr
    cases hans with
    | same hacc hans => exact hf.frame (by rw [hacc]) fun j _ => hans j
    | rejects j task hj hacc hans => exact hf.rejected hj hacc hans
    | accepts j task hj hacc hans =>
        obtain ⟨k₀, c₀, r₀, hk₀, hr₀, hp₀, hid₀⟩ := h.pending hj
        by_cases hid : taskId task = some r.id
        · -- the caller itself
          obtain rfl : k = k₀ :=
            recordings_inj hids hr hr₀ (Option.some.inj (hid.symm.trans hid₀))
          rw [hk] at hk₀
          cases hk₀
          exact hf.accepted hp₀ hid hj hacc ((hans j).trans (if_pos rfl))
        · apply hf.frame
          · rw [hacc, List.map_append, Keyed.stream_append]
            simp [Keyed.stream, hid]
          · intro i hi
            rw [hans, if_neg]
            rintro rfl
            obtain ⟨task', ret, hk', hid'⟩ := hf.known i hi
            rw [hj] at hk'
            cases hk'
            exact hid hid'
  · rw [hclients]
    cases hans with
    | same hacc hans => exact h.owner i task (by rwa [hans] at hi)
    | accepts j task' hj hacc hans | rejects j task' hj hacc hans =>
        rw [hans] at hi
        -- the call that now has an answer, or another one
        by_cases hij : i = j
        · rw [if_pos hij] at hi
          cases hi
        · rw [if_neg hij] at hi
          exact h.owner i task hi
  · cases hans with
    | same hacc hans => exact h.ids task (by rwa [hacc] at ht)
    | rejects j task' hj hacc hans => exact h.ids task (by rwa [hacc] at ht)
    | accepts j task' hj hacc hans =>
        rw [hacc, List.map_append, List.mem_append] at ht
        rcases ht with ht | ht
        · exact h.ids task ht
        · obtain ⟨k₀, c₀, r₀, hk₀, hr₀, hp₀, hid₀⟩ := h.pending hj
          obtain rfl : task = task' := by simpa using ht
          exact ⟨r₀, List.mem_of_getElem? hr₀, hid₀⟩

/-- A client whose next call adds no task goes on. -/
theorem Ordered.skips (h : Ordered recordings s) {k : Nat} {id : String}
    {todo : List (Option StoreTask)} {pending : Option Nat}
    (hk : s.clients[k]? = some ⟨id, none :: todo, pending⟩) :
    Ordered recordings { s with clients := s.clients.set k ⟨id, todo, pending⟩ } := by
  have hlt := (List.getElem?_eq_some_iff.mp hk).1
  refine ⟨List.length_set.trans h.length, fun i c r hi hr => ?_, fun j task hj => ?_, h.ids⟩
  · rcases getElem?_set_cases hi with ⟨rfl, rfl⟩ | ⟨-, hi⟩
    · have hf := h.follows i _ r hk hr
      refine ⟨hf.id, ?_, hf.known⟩
      rw [← hf.sent]
      rfl
    · exact (h.follows i c r hi hr).frame rfl fun _ _ => rfl
  · obtain ⟨i, c, hi, hp⟩ := h.owner j task hj
    by_cases hik : i = k
    · subst hik
      rw [hk] at hi
      cases hi
      exact ⟨i, _, List.getElem?_set_self hlt, hp⟩
    · exact ⟨i, c, (List.getElem?_set_ne (Ne.symm hik)).trans hi, hp⟩

/-- A client whose last call has returned 0 makes its next call. -/
theorem Ordered.issues (h : Ordered recordings s) {k : Nat} {id : String} {task : StoreTask}
    {todo : List (Option StoreTask)} {pending : Option Nat}
    {system : System TaskFunction PersistentHandle}
    (hk : s.clients[k]? = some ⟨id, some task :: todo, pending⟩) (hready : s.ready pending = true)
    (hsys : s.system.step (.call task.function task.arg) = some system) :
    Ordered recordings { s with
      system := system, clients := s.clients.set k ⟨id, todo, some s.system.calls.length⟩ } := by
  have hlt := (List.getElem?_eq_some_iff.mp hk).1
  obtain ⟨hacc, -, hans⟩ := System.call_answer hsys
  -- the calls before keep their answers
  have hold : ∀ j, s.system.answer j ≠ none → system.answer j = s.system.answer j := by
    intro j hj
    rw [hans, if_neg]
    rintro rfl
    apply hj
    simp [System.answer]
  refine ⟨List.length_set.trans h.length, fun i c r hi hr => ?_, fun j t hj => ?_, ?_⟩
  · rcases getElem?_set_cases hi with ⟨rfl, rfl⟩ | ⟨-, hi⟩
    · have hf := h.follows i _ r hk hr
      have hsent := hf.sent
      -- the task is the next one of the session
      have hid : taskId task = some r.id := by
        apply Recording.mem_tasks
        rw [← hsent, List.reduceOption_cons_of_some]
        simp
      refine ⟨hf.id, ?_, fun j hj => ?_⟩
      · rw [ready_waiting hready, List.append_nil, List.reduceOption_cons_of_some] at hsent
        rw [Server.waiting, Option.bind_some, hans, if_pos rfl, ← hsent, List.append_assoc]
        show Keyed.stream _ _ (system.accepted.map Prod.snd) ++ _ = _
        rw [hacc]
        rfl
      · cases hj
        exact ⟨task, none, (hans _).trans (if_pos rfl), hid⟩
    · have hf := h.follows i c r hi hr
      apply hf.frame
      · show Keyed.stream _ _ (system.accepted.map Prod.snd) = _
        rw [hacc]
      · intro j hj
        obtain ⟨t, ret, hj', -⟩ := hf.known j hj
        exact hold j (by simp [hj'])
  · rw [hans] at hj
    by_cases hj' : j = s.system.calls.length
    · exact ⟨k, _, List.getElem?_set_self hlt, by rw [hj']⟩
    · rw [if_neg hj'] at hj
      obtain ⟨i, c, hi, hp⟩ := h.owner j t hj
      by_cases hik : i = k
      · -- the last call of `k` has been answered
        subst hik
        rw [hk] at hi
        cases hi
        cases hp
        obtain ⟨t', ht'⟩ := ready_answer hready
        rw [hj] at ht'
        cases ht'
      · exact ⟨i, c, (List.getElem?_set_ne (Ne.symm hik)).trans hi, hp⟩
  · rw [hacc]
    exact h.ids

theorem Ordered.step (h : Ordered recordings s) (hids : (recordings.map Recording.id).Nodup)
    (hstep : s.step a = some s') : Ordered recordings s' := by
  cases Server.step_cases hstep with
  | pool a system hcall _ hsys => exact h.answers hids rfl (System.step_answers hsys hcall)
  | begins i task system _ hsys =>
      exact h.answers hids rfl (System.step_answers hsys fun _ _ => by simp)
  | finishes i task system _ _ hsys =>
      exact h.answers hids rfl (System.step_answers hsys fun _ _ => by simp)
  | task | upload | remove => exact h.answers hids rfl (.same rfl fun _ => rfl)
  | skips k id todo pending hk => exact h.skips hk
  | issues k id task todo pending system hk hready hsys => exact h.issues hk hready hsys

theorem serverInit_ordered (sdId : String) (fs : FileSystem) (heap : Int → StoreTask)
    (recordings : List Recording) :
    Ordered recordings (serverInit sdId fs heap recordings) where
  length := List.length_map _
  follows := by
    intro k c r hk hr
    change (recordings.map _)[k]? = some c at hk
    rw [List.getElem?_map, hr, Option.map_some, Option.some.injEq] at hk
    subst hk
    exact ⟨rfl, rfl, fun _ hj => nomatch hj⟩
  owner := by
    intro j task hj
    cases hj
  ids := by
    intro task ht
    cases ht

end Ordered

end SpeechStack
