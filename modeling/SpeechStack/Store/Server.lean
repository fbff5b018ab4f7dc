import SpeechStack.Pool.Queue
import SpeechStack.Pool.Workers
import SpeechStack.Store.Persistent

set_option autoImplicit false

/-! # The store at work

The speech store on its thread pool, with the threads that call it. Each of these records one
session (`Recording`): it calls `speechStart`, then `speechProcess` for every payload, then
`speechStop`, each call after the one before has returned. The steps of all threads, those of
the pool, of the task functions and of the uploads interleave freely (`Server.step`).
-/

namespace SpeechStack

/-- A session as its user sees it. -/
structure Recording where
  id : String
  payloads : List (List UInt8 × PersistentType)
  isCompleted : Int

/-- The calls for a recording; nothing where a call returns before it adds a task. -/
def Recording.script (r : Recording) : List (Option StoreTask) :=
  some (speechStart r.id) :: r.payloads.map (fun p => speechProcess r.id p.1 p.2) ++
    [some (speechStop r.id r.isCompleted)]

/-- The tasks that the calls add. -/
def Recording.tasks (r : Recording) : List StoreTask := r.script.reduceOption

/-- The thread that makes the calls of one recording. -/
structure Client where
  id : String
  todo : List (Option StoreTask)
  /-- its last call of `threadpool_add_task` -/
  pending : Option Nat
deriving DecidableEq

structure Server where
  system : System TaskFunction PersistentHandle
  store : Store
  /-- where the worker is in the task function that it has called -/
  running : Nat → Option TaskPc
  clients : List Client

inductive ServerAct where
  | pool (a : Act TaskFunction PersistentHandle)
  | task (i : Nat)
  | upload (k : Nat)
  | remove (k : Nat) (victim : Path)
  /-- client `k` makes its next call -/
  | issue (k : Nat)

/-- `Init`, and the recordings to be made. -/
def serverInit (sdId : String) (fs : FileSystem) (heap : Int → StoreTask)
    (recordings : List Recording) : Server where
  system := threadpoolCreate 1 1 MAX_INDEX heap
  store := storeInit sdId fs
  running := fun _ => none
  clients := recordings.map fun r => { id := r.id, todo := r.script, pending := none }

/-- The last call of a client has returned 0. -/
def Server.ready (s : Server) (pending : Option Nat) : Bool :=
  match pending with
  | none => true
  | some j =>
      match s.system.calls[j]? with
      | some ⟨_, .returned ret⟩ => ret = 0
      | _ => false

/-- A step of the pool; only clients call it, and a worker calls the function of its task and
goes on when that has returned. -/
def Server.poolStep (s : Server) : Act TaskFunction PersistentHandle → Option Server
  | .call _ _ => none
  | .worker i =>
      match s.system.workers[i]? with
      | some (.took task) => (s.system.step (.worker i)).map fun system =>
          { s with system := system, running := Function.update s.running i (some (enter task)) }
      | some (.busy _) =>
          if s.running i = some .returned then
            (s.system.step (.worker i)).map fun system =>
              { s with system := system, running := Function.update s.running i none }
          else none
      | _ => (s.system.step (.worker i)).map fun system => { s with system := system }
  | a => (s.system.step a).map fun system => { s with system := system }

def Server.issue (s : Server) (k : Nat) : Option Server :=
  match s.clients[k]? with
  | some ⟨id, none :: todo, pending⟩ =>
      -- `speechProcess` has refused the payload, so there is no task
      if s.ready pending then some { s with clients := s.clients.set k ⟨id, todo, pending⟩ }
      else none
  | some ⟨id, some task :: todo, pending⟩ =>
      if s.ready pending then
        (s.system.step (.call task.function task.arg)).map fun system =>
          { s with
            system := system
            clients := s.clients.set k ⟨id, todo, some s.system.calls.length⟩ }
      else none
  | _ => none

/-- A step of the task function that worker `i` has called. -/
def Server.task (s : Server) (i : Nat) : Option Server :=
  match s.running i with
  | some pc => (taskStep s.store pc).map fun r =>
      { s with store := r.2, running := Function.update s.running i (some r.1) }
  | none => none

def Server.step (s : Server) : ServerAct → Option Server
  | .pool a => s.poolStep a
  | .task i => s.task i
  | .upload k => (uploadStep s.store k).map fun store => { s with store := store }
  | .remove k victim => (uploadRemove s.store k victim).map fun store => { s with store := store }
  | .issue k => s.issue k

/-! ## What a step can do -/

/-- The worker that moves in `a`, if it is about to call a task function or has called one. -/
def System.inTask (s : System TaskFunction PersistentHandle) :
    Act TaskFunction PersistentHandle → Prop
  | .worker i => ∃ task, s.workers[i]? = some (.took task) ∨ s.workers[i]? = some (.busy task)
  | _ => False

inductive ServerStep (s : Server) : ServerAct → Server → Prop where
  | pool (a : Act TaskFunction PersistentHandle) (system : System TaskFunction PersistentHandle)
      (hcall : ∀ function arg, a ≠ .call function arg) (htask : ¬ s.system.inTask a)
      (h : s.system.step a = some system) : ServerStep s (.pool a) { s with system := system }
  | begins (i : Nat) (task : StoreTask) (system : System TaskFunction PersistentHandle)
      (hpc : s.system.workers[i]? = some (.took task))
      (h : s.system.step (.worker i) = some system) :
      ServerStep s (.pool (.worker i)) { s with
        system := system, running := Function.update s.running i (some (enter task)) }
  | finishes (i : Nat) (task : StoreTask) (system : System TaskFunction PersistentHandle)
      (hpc : s.system.workers[i]? = some (.busy task)) (hret : s.running i = some .returned)
      (h : s.system.step (.worker i) = some system) :
      ServerStep s (.pool (.worker i)) { s with
        system := system, running := Function.update s.running i none }
  | task (i : Nat) (pc pc' : TaskPc) (store : Store) (hrun : s.running i = some pc)
      (h : taskStep s.store pc = some (pc', store)) :
      ServerStep s (.task i) { s with
        store := store, running := Function.update s.running i (some pc') }
  | upload (k : Nat) (store : Store) (h : uploadStep s.store k = some store) :
      ServerStep s (.upload k) { s with store := store }
  | remove (k : Nat) (victim : Path) (store : Store)
      (h : uploadRemove s.store k victim = some store) :
      ServerStep s (.remove k victim) { s with store := store }
  | skips (k : Nat) (id : String) (todo : List (Option StoreTask)) (pending : Option Nat)
      (hk : s.clients[k]? = some ⟨id, none :: todo, pending⟩) :
      ServerStep s (.issue k) { s with clients := s.clients.set k ⟨id, todo, pending⟩ }
  | issues (k : Nat) (id : String) (task : StoreTask) (todo : List (Option StoreTask))
      (pending : Option Nat) (system : System TaskFunction PersistentHandle)
      (hk : s.clients[k]? = some ⟨id, some task :: todo, pending⟩)
      (hready : s.ready pending = true)
      (h : s.system.step (.call task.function task.arg) = some system) :
      ServerStep s (.issue k) { s with
        system := system, clients := s.clients.set k ⟨id, todo, some s.system.calls.length⟩ }

theorem Server.poolStep_cases {s s' : Server} {a : Act TaskFunction PersistentHandle}
    (h : s.poolStep a = some s') : ServerStep s (.pool a) s' := by
  unfold Server.poolStep at h
  split at h
  · cases h
  · rename_i i
    split at h
    · rename_i task hpc
      obtain ⟨system, hs, rfl⟩ := Option.map_eq_some_iff.mp h
      exact .begins i task system hpc hs
    · rename_i task hpc
      split at h
      · rename_i hret
        obtain ⟨system, hs, rfl⟩ := Option.map_eq_some_iff.mp h
        exact .finishes i task system hpc hret hs
      · cases h
    · rename_i htook hbusy
      obtain ⟨system, hs, rfl⟩ := Option.map_eq_some_iff.mp h
      -- a worker outside the task functions: the pool moves alone
      refine .pool _ system (by simp) ?_ hs
      rintro ⟨task, hpc | hpc⟩
      · exact htook task hpc
      · exact hbusy task hpc
  · rename_i hcall hworker
    obtain ⟨system, hs, rfl⟩ := Option.map_eq_some_iff.mp h
    refine .pool a system hcall ?_ hs
    cases a with
    | worker i => exact absurd rfl (hworker i)
    | _ => exact id

theorem Server.step_cases {s s' : Server} {a : ServerAct} (h : s.step a = some s') :
    ServerStep s a s' := by
  cases a with
  | pool a => exact Server.poolStep_cases h
  | task i =>
      change s.task i = some s' at h
      unfold Server.task at h
      split at h
      · rename_i pc hrun
        obtain ⟨⟨pc', store⟩, hs, rfl⟩ := Option.map_eq_some_iff.mp h
        exact .task i pc pc' store hrun hs
      · cases h
  | upload k =>
      obtain ⟨store, hs, rfl⟩ := Option.map_eq_some_iff.mp h
      exact .upload k store hs
  | remove k victim =>
      obtain ⟨store, hs, rfl⟩ := Option.map_eq_some_iff.mp h
      exact .remove k victim store hs
  | issue k =>
      change s.issue k = some s' at h
      unfold Server.issue at h
      split at h
      · rename_i id todo pending hk
        split at h
        · cases h
          exact .skips k id todo pending hk
        · cases h
      · rename_i id task todo pending hk
        split at h
        · rename_i hready
          obtain ⟨system, hs, rfl⟩ := Option.map_eq_some_iff.mp h
          exact .issues k id task todo pending system hk hready hs
        · cases h
      · cases h

/-- The pool under the store takes its own steps, or none. -/
theorem ServerStep.system {s s' : Server} {a : ServerAct} (h : ServerStep s a s') :
    s'.system = s.system ∨ ∃ b, s.system.step b = some s'.system := by
  cases h with
  | pool a system _ _ h => exact Or.inr ⟨a, h⟩
  | begins i task system _ h => exact Or.inr ⟨_, h⟩
  | finishes i task system _ _ h => exact Or.inr ⟨_, h⟩
  | issues k id task todo pending system _ _ h => exact Or.inr ⟨_, h⟩
  | _ => exact Or.inl rfl

/-- So what holds of the pool in every state that it reaches holds of it under the store. -/
theorem Server.reaches_system {s t : Server} (h : Machine.Reaches Server.step s t) :
    Machine.Reaches System.step s.system t.system := by
  apply h.simulates
  intro t a t' hstep
  exact (Server.step_cases hstep).system

end SpeechStack
