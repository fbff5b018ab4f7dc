import SpeechStack.Pool.Hand
import SpeechStack.Store.Server

set_option autoImplicit false

/-! # One task at a time

What one step of a task function can do (`TaskStep`), and what a step of the server is for
its one worker (`OneStep`). As long as no upload runs, nobody but the worker touches the
store: what the store will be when the task in hand returns (`Server.settled`) is then, at any
time, what the tasks taken so far make of the first store when each of them runs alone
(`Serial`).
-/

namespace SpeechStack

open FileTree

/-- What one step of a task function can do. -/
inductive TaskStep (σ : Store) : TaskPc → TaskPc → Store → Prop where
  | startPath (h : PersistentHandle) : TaskStep σ (.startPath h) (.initBase h)
      { σ with gpDefaultPath := some (gDefaultLocal σ.gnDefaultPathIndex) }
  | initBase (h : PersistentHandle) (fs : FileSystem)
      (hmk : makeDir σ.fs (pathText σ.gpDefaultPath) = some fs) :
      TaskStep σ (.initBase h) (.initPig h) { σ with fs := fs }
  | initPig (h : PersistentHandle) (fs : FileSystem)
      (hmk : makeDir σ.fs (pathText σ.gpDefaultPath ++ ["flying-pig"]) = some fs) :
      TaskStep σ (.initPig h) (.initDevice h) { σ with fs := fs }
  | initDevice (h : PersistentHandle) (fs : FileSystem)
      (hmk : makeDir σ.fs (pathText σ.gpDefaultPath ++ ["flying-pig", σ.gSDId]) = some fs) :
      TaskStep σ (.initDevice h)
        (.setName h (pathText σ.gpDefaultPath ++ ["flying-pig", σ.gSDId])) { σ with fs := fs }
  | baseFails (h : PersistentHandle) (hmk : makeDir σ.fs (pathText σ.gpDefaultPath) = none) :
      TaskStep σ (.initBase h) (.startDir h) σ
  | pigFails (h : PersistentHandle)
      (hmk : makeDir σ.fs (pathText σ.gpDefaultPath ++ ["flying-pig"]) = none) :
      TaskStep σ (.initPig h) (.startDir h) σ
  | deviceFails (h : PersistentHandle)
      (hmk : makeDir σ.fs (pathText σ.gpDefaultPath ++ ["flying-pig", σ.gSDId]) = none) :
      TaskStep σ (.initDevice h) (.startDir h) σ
  | setName (h : PersistentHandle) (path : Path) : TaskStep σ (.setName h path) (.startDir h)
      { σ with gPreName := .name path }
  | startDir (h : PersistentHandle) (pre : Path) (hpre : σ.gPreName.text = some pre) :
      TaskStep σ (.startDir h) (.startMkdir h (pre ++ [h.id])) σ
  | startMkdir (h : PersistentHandle) (name : Path) (fs : FileSystem)
      (hmk : makeDir σ.fs name = some fs) :
      TaskStep σ (.startMkdir h name) .returned
        { σ with fs := fs, log := σ.log ++ [.created h.id name] }
  | mkdirFails (h : PersistentHandle) (name : Path) (hmk : makeDir σ.fs name = none) :
      TaskStep σ (.startMkdir h name) .returned σ
  | process (h : PersistentHandle) (file : String) (pre : Path)
      (hfile : payloadFile h.type = some file) (hpre : σ.gPreName.text = some pre) :
      TaskStep σ (.process h) (.openWrite h (pre ++ [h.id, file])) σ
  | badType (h : PersistentHandle) (hfile : payloadFile h.type = none) :
      TaskStep σ (.process h) .returned σ
  | openWrite (h : PersistentHandle) (name : Path) (fs : FileSystem)
      (hwrite : append σ.fs name h.buf = some fs) :
      TaskStep σ (.openWrite h name) .returned
        { σ with fs := fs, log := σ.log ++ [.wrote h.id name h.buf] }
  | openFails (h : PersistentHandle) (name : Path) (hwrite : append σ.fs name h.buf = none) :
      TaskStep σ (.openWrite h name) .returned σ
  | cancel (h : PersistentHandle) (pre : Path) (hcancel : h.completed = 0)
      (hpre : σ.gPreName.text = some pre) :
      TaskStep σ (.stop h) (.removeDir h (pre ++ [h.id]))
        { σ with log := σ.log ++ [.stopped h.id] }
  | stop (h : PersistentHandle) (hcompleted : h.completed ≠ 0) :
      TaskStep σ (.stop h) (.checkUpload h) { σ with log := σ.log ++ [.stopped h.id] }
  | removeDir (h : PersistentHandle) (dir : Path) :
      TaskStep σ (.removeDir h dir) .returned { σ with fs := removeTree σ.fs dir }
  | upload (h : PersistentHandle) (path : Path)
      (hcount : σ.gPersistentCount = MAX_PERSISTENT_COUNT - 1)
      (hpath : σ.gpDefaultPath = some path) :
      TaskStep σ (.checkUpload h) (.countUp h)
        { σ with uploads := σ.uploads ++ [⟨path, .switchIndex⟩] }
  | noUpload (h : PersistentHandle)
      (hno : σ.gPersistentCount ≠ MAX_PERSISTENT_COUNT - 1 ∨ σ.gpDefaultPath = none) :
      TaskStep σ (.checkUpload h) (.countUp h) σ
  | countUp (h : PersistentHandle) : TaskStep σ (.countUp h) .returned
      { σ with gPersistentCount := (σ.gPersistentCount + 1) % MAX_PERSISTENT_COUNT }

section Complete

variable {σ σ' : Store} {pc pc' : TaskPc}

theorem taskStep_cases (hstep : taskStep σ pc = some (pc', σ')) : TaskStep σ pc pc' σ' := by
  -- one case for each place in the task functions, one for each way on
  cases pc with
  | startPath h =>
      cases hstep
      exact .startPath h
  | initBase h =>
      cases hmk : makeDir σ.fs (pathText σ.gpDefaultPath) with
      | some fs =>
          simp only [taskStep, hmk] at hstep
          cases hstep
          exact .initBase h fs hmk
      | none =>
          simp only [taskStep, hmk] at hstep
          cases hstep
          exact .baseFails h hmk
  | initPig h =>
      cases hmk : makeDir σ.fs (pathText σ.gpDefaultPath ++ ["flying-pig"]) with
      | some fs =>
          simp only [taskStep, hmk] at hstep
          cases hstep
          exact .initPig h fs hmk
      | none =>
          simp only [taskStep, hmk] at hstep
          cases hstep
          exact .pigFails h hmk
  | initDevice h =>
      cases hmk : makeDir σ.fs (pathText σ.gpDefaultPath ++ ["flying-pig", σ.gSDId]) with
      | some fs =>
          simp only [taskStep, hmk] at hstep
          cases hstep
          exact .initDevice h fs hmk
      | none =>
          simp only [taskStep, hmk] at hstep
          cases hstep
          exact .deviceFails h hmk
  | setName h path =>
      cases hstep
      exact .setName h path
  | startDir h =>
      obtain ⟨pre, hpre, heq⟩ := Option.map_eq_some_iff.mp hstep
      cases heq
      exact .startDir h pre hpre
  | startMkdir h name =>
      cases hmk : makeDir σ.fs name with
      | some fs =>
          simp only [taskStep, hmk] at hstep
          cases hstep
          exact .startMkdir h name fs hmk
      | none =>
          simp only [taskStep, hmk] at hstep
          cases hstep
          exact .mkdirFails h name hmk
  | process h =>
      cases hfile : payloadFile h.type with
      | some file =>
          simp only [taskStep, hfile] at hstep
          obtain ⟨pre, hpre, heq⟩ := Option.map_eq_some_iff.mp hstep
          cases heq
          exact .process h file pre hfile hpre
      | none =>
          simp only [taskStep, hfile] at hstep
          cases hstep
          exact .badType h hfile
  | openWrite h name =>
      cases hwrite : append σ.fs name h.buf with
      | some fs =>
          simp only [taskStep, hwrite] at hstep
          cases hstep
          exact .openWrite h name fs hwrite
      | none =>
          simp only [taskStep, hwrite] at hstep
          cases hstep
          exact .openFails h name hwrite
  | stop h =>
      by_cases hcancel : h.completed = 0
      · simp only [taskStep, if_pos hcancel] at hstep
        obtain ⟨pre, hpre, heq⟩ := Option.map_eq_some_iff.mp hstep
        cases heq
        exact .cancel h pre hcancel hpre
      · simp only [taskStep, if_neg hcancel] at hstep
        cases hstep
        exact .stop h hcancel
  | removeDir h dir =>
      cases hstep
      exact .removeDir h dir
  | checkUpload h =>
      by_cases hcount : σ.gPersistentCount = MAX_PERSISTENT_COUNT - 1
      · simp only [taskStep, if_pos hcount] at hstep
        split at hstep
        · rename_i path hpath
          cases hstep
          exact .upload h path hcount hpath
        · rename_i hpath
          cases hstep
          exact .noUpload h (Or.inr hpath)
      · simp only [taskStep, if_neg hcount] at hstep
        cases hstep
        exact .noUpload h (Or.inl hcount)
  | countUp h =>
      cases hstep
      exact .countUp h
  | returned => cases hstep

theorem TaskStep.rank_lt (h : TaskStep σ pc pc' σ') : pc'.rank < pc.rank := by
  cases h <;> simp [TaskPc.rank]

/-- Task functions only add uploads. -/
theorem TaskStep.uploads (h : TaskStep σ pc pc' σ') : σ.uploads <+: σ'.uploads := by
  cases h with
  | upload h path _ _ => exact ⟨_, rfl⟩
  | _ => exact List.prefix_refl _

/-! ## A task function to its end -/

theorem runTask_of_none (h : taskStep σ pc = none) (n : Nat) : runTask n pc σ = σ := by
  cases n with
  | zero => rfl
  | succ n => simp only [runTask, h]

theorem runTask_of_rank_le {n : Nat} (h : pc.rank ≤ n) : runTask n pc σ = complete pc σ := by
  unfold complete
  -- on the number of steps allowed; every step lowers the rank
  induction n using Nat.strong_induction_on generalizing pc σ with
  | _ n ih =>
      cases hstep : taskStep σ pc with
      | none => rw [runTask_of_none hstep, runTask_of_none hstep]
      | some r =>
          obtain ⟨pc', σ'⟩ := r
          have hlt := (taskStep_cases hstep).rank_lt
          obtain ⟨m, rfl⟩ : ∃ m, n = m + 1 := ⟨n - 1, by omega⟩
          obtain ⟨l, hl⟩ : ∃ l, pc.rank = l + 1 := ⟨pc.rank - 1, by omega⟩
          rw [hl, runTask, runTask, hstep]
          show runTask m pc' σ' = runTask l pc' σ'
          rw [ih m (by omega) (by omega), ih l (by omega) (by omega)]

/-- A step of a task function does not change where it will end. -/
theorem complete_step (h : taskStep σ pc = some (pc', σ')) : complete pc σ = complete pc' σ' := by
  have hlt := (taskStep_cases h).rank_lt
  obtain ⟨n, hn⟩ : ∃ n, pc.rank = n + 1 := ⟨pc.rank - 1, by omega⟩
  unfold complete
  rw [hn, runTask, h]
  exact runTask_of_rank_le (by omega)

theorem runTask_uploads (n : Nat) : σ.uploads <+: (runTask n pc σ).uploads := by
  induction n generalizing pc σ with
  | zero => exact List.prefix_refl _
  | succ n ih =>
      cases hstep : taskStep σ pc with
      | none => rw [runTask_of_none hstep]
      | some r =>
          rw [runTask, hstep]
          exact (taskStep_cases hstep).uploads.trans ih

end Complete

/-! ## The worker -/

/-- There is one worker, and its task is the one it took last. -/
structure OneTask (s : Server) : Prop where
  one : s.system.workers.length = 1
  others : ∀ i, i ≠ 0 → s.running i = none
  idle : (∀ task, s.system.hand 0 ≠ .busy task) → s.running 0 = none
  last : ∀ task, s.system.hand 0 = .took task ∨ s.system.hand 0 = .busy task →
    ∃ before, s.system.taken = before ++ [task]

section OneTask

variable {s s' : Server} {a : ServerAct}

/-- The only worker is worker 0. -/
theorem OneTask.zero (h : OneTask s) {i : Nat} (hhand : s.system.hand i ≠ .idle) : i = 0 := by
  have := lt_of_hand hhand
  have := h.one
  omega

/-- Whoever runs is worker 0, and it is busy. -/
theorem OneTask.busy (h : OneTask s) {i : Nat} {pc : TaskPc} (hrun : s.running i = some pc) :
    i = 0 ∧ ∃ task, s.system.hand 0 = .busy task := by
  obtain rfl : i = 0 := by
    by_contra hi
    rw [h.others i hi] at hrun
    cases hrun
  refine ⟨rfl, ?_⟩
  -- a worker that is not busy runs nothing
  by_contra hno
  rw [h.idle fun task ht => hno ⟨task, ht⟩] at hrun
  cases hrun

/-- What a step is for the one worker and its task. -/
inductive OneStep (s s' : Server) : ServerAct → Prop where
  | same (a : ServerAct) (hhand : s'.system.hand 0 = s.system.hand 0)
      (htaken : s'.system.taken = s.system.taken) (hrun : s'.running = s.running)
      (hstore : s'.store = s.store) : OneStep s s' a
  | takes (task : StoreTask) (hidle : s.system.hand 0 = .idle)
      (hhand : s'.system.hand 0 = .took task) (htaken : s'.system.taken = s.system.taken ++ [task])
      (hrun : s'.running = s.running) (hstore : s'.store = s.store) :
      OneStep s s' (.pool (.worker 0))
  | begins (task : StoreTask) (htook : s.system.hand 0 = .took task)
      (hhand : s'.system.hand 0 = .busy task) (htaken : s'.system.taken = s.system.taken)
      (hrun : s'.running = Function.update s.running 0 (some (enter task)))
      (hstore : s'.store = s.store) : OneStep s s' (.pool (.worker 0))
  | finishes (task : StoreTask) (hbusy : s.system.hand 0 = .busy task)
      (hret : s.running 0 = some .returned)
      (hhand : s'.system.hand 0 = .idle) (htaken : s'.system.taken = s.system.taken)
      (hrun : s'.running = Function.update s.running 0 none) (hstore : s'.store = s.store) :
      OneStep s s' (.pool (.worker 0))
  | task (task : StoreTask) (pc pc' : TaskPc) (hbusy : s.system.hand 0 = .busy task)
      (hpc : s.running 0 = some pc) (hstep : taskStep s.store pc = some (pc', s'.store))
      (hhand : s'.system.hand 0 = s.system.hand 0) (htaken : s'.system.taken = s.system.taken)
      (hrun : s'.running = Function.update s.running 0 (some pc')) : OneStep s s' (.task 0)
  | upload (k : Nat) (hup : uploadStep s.store k = some s'.store)
      (hhand : s'.system.hand 0 = s.system.hand 0) (htaken : s'.system.taken = s.system.taken)
      (hrun : s'.running = s.running) : OneStep s s' (.upload k)
  | remove (k : Nat) (victim : Path) (hup : uploadRemove s.store k victim = some s'.store)
      (hhand : s'.system.hand 0 = s.system.hand 0) (htaken : s'.system.taken = s.system.taken)
      (hrun : s'.running = s.running) : OneStep s s' (.remove k victim)

theorem OneTask.cases (h : OneTask s) (hstep : s.step a = some s') : OneStep s s' a := by
  cases Server.step_cases hstep with
  | pool a system hcall htask hsys =>
      -- what the pool's step does to the hand of its worker
      cases System.step_hand hsys with
      | same _ _ htaken hhand => exact .same _ (hhand 0) htaken rfl rfl
      | takes i task hidle hin htaken hhand =>
          obtain rfl : i = 0 := by
            have := h.one
            omega
          exact .takes task hidle (hhand 0) htaken rfl rfl
      | begins i task htook => exact absurd ⟨task, Or.inl (hand_eq_took.mp htook)⟩ htask
      | finishes i task hbusy => exact absurd ⟨task, Or.inr (hand_eq_busy.mp hbusy)⟩ htask
  | begins i task system hpc hsys =>
      have htook := hand_eq_took.mpr hpc
      obtain rfl : i = 0 := h.zero (by simp [htook])
      obtain ⟨htaken, hhand⟩ := System.step_begins hpc hsys
      exact .begins task htook (hhand 0) htaken rfl rfl
  | finishes i task system hpc hret hsys =>
      have hbusy := hand_eq_busy.mpr hpc
      obtain rfl : i = 0 := h.zero (by simp [hbusy])
      obtain ⟨htaken, hhand⟩ := System.step_finishes hpc hsys
      exact .finishes task hbusy hret (hhand 0) htaken rfl rfl
  | task i pc pc' store hrun htask =>
      obtain ⟨rfl, task, hbusy⟩ := h.busy hrun
      exact .task task pc pc' hbusy hrun htask rfl rfl rfl
  | upload k store hup => exact .upload k hup rfl rfl rfl
  | remove k victim store hup => exact .remove k victim hup rfl rfl rfl
  | skips k id todo pending hk => exact .same _ rfl rfl rfl rfl
  | issues k id task todo pending system hk hready hsys =>
      cases System.step_hand hsys with
      | same _ _ htaken hhand => exact .same _ (hhand 0) htaken rfl rfl

theorem OneTask.of_same (h : OneTask s) (hone : s'.system.workers.length = 1)
    (hhand : s'.system.hand 0 = s.system.hand 0) (htaken : s'.system.taken = s.system.taken)
    (hrun : s'.running = s.running) : OneTask s' where
  one := hone
  others := by
    rw [hrun]
    exact h.others
  idle := by
    rw [hrun, hhand]
    exact h.idle
  last := by
    rw [hhand, htaken]
    exact h.last

theorem OneTask.step (h : OneTask s) (hone : s'.system.workers.length = 1)
    (hstep : OneStep s s' a) : OneTask s' := by
  -- only the place of worker 0 is written
  have hothers : ∀ o, s'.running = Function.update s.running 0 o →
      ∀ i, i ≠ 0 → s'.running i = none := by
    intro o ho i hi
    rw [ho, Function.update_of_ne hi]
    exact h.others i hi
  cases hstep with
  | same _ hhand htaken hrun => exact h.of_same hone hhand htaken hrun
  | upload k hup hhand htaken hrun => exact h.of_same hone hhand htaken hrun
  | remove k victim hup hhand htaken hrun => exact h.of_same hone hhand htaken hrun
  | takes task hidle hhand htaken hrun =>
      refine ⟨hone, hrun ▸ h.others, fun _ => ?_, fun t ht => ?_⟩
      · rw [hrun]
        exact h.idle (by simp [hidle])
      · obtain rfl : task = t := by simpa [hhand] using ht
        exact ⟨_, htaken⟩
  | begins task htook hhand htaken hrun =>
      refine ⟨hone, hothers _ hrun, fun hidle => absurd hhand (hidle task), fun t ht => ?_⟩
      obtain rfl : task = t := by simpa [hhand] using ht
      rw [htaken]
      exact h.last task (Or.inl htook)
  | finishes task hbusy hret hhand htaken hrun =>
      refine ⟨hone, hothers _ hrun, fun _ => ?_, fun t ht => ?_⟩
      · rw [hrun, Function.update_self]
      · simp [hhand] at ht
  | task task pc pc' hbusy hpc hstep hhand htaken hrun =>
      refine ⟨hone, hothers _ hrun, fun hidle => ?_, ?_⟩
      · exact absurd (hhand.trans hbusy) (hidle task)
      · rw [hhand, htaken]
        exact h.last

theorem serverInit_oneTask (sdId : String) (fs : FileSystem) (heap : Int → StoreTask)
    (recordings : List Recording) : OneTask (serverInit sdId fs heap recordings) where
  one := rfl
  others _ _ := rfl
  idle _ := rfl
  last _ h := by rcases h with h | h <;> cases h

end OneTask

/-! ## The tasks that have run -/

/-- The tasks whose functions have returned. -/
def Server.ran (s : Server) : List StoreTask :=
  match s.system.hand 0 with
  | .idle => s.system.taken
  | .took _ => s.system.taken.dropLast
  | .busy _ => if s.running 0 = some .returned then s.system.taken else s.system.taken.dropLast

section Ran

variable {s s' : Server} {task : StoreTask} {pc : TaskPc}

theorem OneTask.dropLast (hone : OneTask s)
    (hhand : s.system.hand 0 = .took task ∨ s.system.hand 0 = .busy task) :
    s.system.taken = s.system.taken.dropLast ++ [task] := by
  obtain ⟨before, hbefore⟩ := hone.last task hhand
  rw [hbefore, List.dropLast_concat]

theorem ran_congr (hhand : s'.system.hand 0 = s.system.hand 0)
    (htaken : s'.system.taken = s.system.taken) (hrun : s'.running = s.running) :
    s'.ran = s.ran := by
  unfold Server.ran
  rw [hhand, htaken, hrun]

theorem ran_idle (hidle : s.system.hand 0 = .idle) : s.ran = s.system.taken := by
  unfold Server.ran
  rw [hidle]

theorem ran_took (htook : s.system.hand 0 = .took task) : s.ran = s.system.taken.dropLast := by
  unfold Server.ran
  rw [htook]

theorem ran_busy (hbusy : s.system.hand 0 = .busy task) (hrun : s.running 0 = some pc)
    (hpc : pc ≠ .returned) : s.ran = s.system.taken.dropLast := by
  unfold Server.ran
  rw [hbusy, hrun]
  exact if_neg fun heq => hpc (Option.some.inj heq)

theorem ran_returned (hbusy : s.system.hand 0 = .busy task) (hrun : s.running 0 = some .returned) :
    s.ran = s.system.taken := by
  unfold Server.ran
  rw [hbusy, hrun]
  exact if_pos rfl

end Ran

/-! ## Without uploads -/

/-- The store when the task in hand has returned. -/
def Server.settled (s : Server) : Store :=
  match s.system.hand 0 with
  | .idle => s.store
  | .took task => runAlone s.store task
  | .busy _ => complete ((s.running 0).getD .returned) s.store

/-- The tasks taken have been run alone, one after the other. -/
def Serial (first : Store) (s : Server) : Prop :=
  s.settled = s.system.taken.foldl runAlone first

section Serial

variable {first : Store} {s s' : Server} {a : ServerAct}

theorem Server.settled_idle (h : s.system.hand 0 = .idle) : s.settled = s.store := by
  unfold Server.settled
  rw [h]

theorem Server.settled_took {task : StoreTask} (h : s.system.hand 0 = .took task) :
    s.settled = runAlone s.store task := by
  unfold Server.settled
  rw [h]

theorem Server.settled_busy {task : StoreTask} {pc : TaskPc} (h : s.system.hand 0 = .busy task)
    (hrun : s.running 0 = some pc) : s.settled = complete pc s.store := by
  unfold Server.settled
  rw [h, hrun]
  rfl

/-- Without uploads in the settled store there are none yet. -/
theorem Server.uploads_nil (h : s.settled.uploads = []) : s.store.uploads = [] := by
  have hfirst : s.store.uploads <+: s.settled.uploads := by
    unfold Server.settled
    cases s.system.hand 0 with
    | idle => exact List.prefix_refl _
    | took task => exact runTask_uploads _
    | busy task => exact runTask_uploads _
  rw [h] at hfirst
  exact List.prefix_nil.mp hfirst

theorem Serial.step (h : Serial first s) (hups : s.store.uploads = []) (hstep : OneStep s s' a) :
    Serial first s' := by
  unfold Serial at h ⊢
  cases hstep with
  | same _ hhand htaken hrun hstore =>
      rw [htaken, ← h]
      unfold Server.settled
      rw [hhand, hrun, hstore]
  | takes task hidle hhand htaken hrun hstore =>
      -- the task is settled on top of those before it
      calc s'.settled = runAlone s.store task := by rw [Server.settled_took hhand, hstore]
        _ = runAlone s.settled task := by rw [Server.settled_idle hidle]
        _ = s'.system.taken.foldl runAlone first := by rw [h, htaken, List.foldl_concat]
  | begins task htook hhand htaken hrun hstore =>
      rw [htaken, ← h, Server.settled_took htook,
        Server.settled_busy hhand (by rw [hrun, Function.update_self]), hstore]
      rfl
  | finishes task hbusy hret hhand htaken hrun hstore =>
      rw [htaken, ← h, Server.settled_busy hbusy hret, Server.settled_idle hhand, hstore]
      rfl
  | task task pc pc' hbusy hpc hstep hhand htaken hrun =>
      -- a step towards the end does not change the end
      calc s'.settled = complete pc' s'.store :=
            Server.settled_busy (hhand.trans hbusy) (by rw [hrun, Function.update_self])
        _ = complete pc s.store := (complete_step hstep).symm
        _ = s.settled := (Server.settled_busy hbusy hpc).symm
        _ = s'.system.taken.foldl runAlone first := by rw [h, htaken]
  -- there is no upload thread to move
  | upload k hup => simp [uploadStep, hups] at hup
  | remove k victim hup => simp [uploadRemove, hups] at hup

theorem serverInit_serial (sdId : String) (fs : FileSystem) (heap : Int → StoreTask)
    (recordings : List Recording) :
    Serial (storeInit sdId fs) (serverInit sdId fs heap recordings) := rfl

end Serial

end SpeechStack
