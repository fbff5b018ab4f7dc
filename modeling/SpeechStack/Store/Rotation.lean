import SpeechStack.Store.Sessions

set_option autoImplicit false

/-! # Rotation

The 20th completed session starts an upload thread, which moves the store on to the next root
directory, takes `gPreName` away and removes the root that has been in use. It does so while
the worker goes on (`speechStore_rotation_breaks`). Nothing is lost in the runs in which it
leaves alone what an unfinished session needs (`Undisturbed`, `speechStore_rotation_safe`).
-/

namespace SpeechStack

open FileTree

/-- The directory of the device under a root. -/
def deviceDir (sdId : String) (i : Nat) : Path := gDefaultLocal i ++ ["flying-pig", sdId]

/-- The sessions that have a directory and have not been stopped. -/
def Store.unfinished (σ : Store) : List (String × Path) :=
  σ.log.filterMap fun e => match e with
    | .created id dir => if .stopped id ∈ σ.log then none else some (id, dir)
    | _ => none

/-- `StartTask` is between its write of `gpDefaultPath` and its write of `gPreName`, -/
def TaskPc.inInitPath : TaskPc → Bool
  | .initBase _ => true
  | .initPig _ => true
  | .initDevice _ => true
  | _ => false

/-- or after that and before its last `mkdir`. -/
def TaskPc.named : TaskPc → Bool
  | .startDir _ => true
  | .startMkdir _ _ => true
  | _ => false

/-- The path under which `StartTask` makes a directory. -/
def TaskPc.home (σ : Store) : TaskPc → Option Path
  | .initBase _ => σ.gpDefaultPath
  | .initPig _ => σ.gpDefaultPath
  | .initDevice _ => σ.gpDefaultPath
  | .setName _ path => some path
  | .startDir _ => σ.gPreName.text
  | .startMkdir _ name => some name
  | _ => none

/-- In this step no upload thread changes `gpDefaultPath` inside `initPath`, takes away
`gPreName` while a session is unfinished or `StartTask` is about to use it, or removes anything
in a root where there is an unfinished session or `StartTask` makes one; and no `StartTask`
begins in another root than that of an unfinished session. -/
def Undisturbed (s : Server) : ServerAct → Prop
  | .task i => match s.running i with
      | some (.startPath _) => ∀ p ∈ s.store.unfinished,
          p.2 = deviceDir s.store.gSDId s.store.gnDefaultPathIndex ++ [p.1]
      | _ => True
  | .upload k => match s.store.uploads[k]? with
      | some ⟨_, .switchPath⟩ => (s.running 0).all (!·.inInitPath) = true
      | some ⟨_, .freeName⟩ => s.store.unfinished = [] ∧ (s.running 0).all (!·.named) = true
      | some ⟨_, .resetName⟩ => s.store.unfinished = [] ∧ (s.running 0).all (!·.named) = true
      | _ => True
  | .remove k _ => match s.store.uploads[k]? with
      | some ⟨path, _⟩ => (∀ p ∈ s.store.unfinished, ¬ path <+: p.2) ∧
          ((s.running 0).bind (TaskPc.home s.store)).all (!path.isPrefixOf ·) = true
      | none => True
  | _ => True

instance (s : Server) : ∀ a, Decidable (Undisturbed s a) := by
  intro a
  unfold Undisturbed
  split
  · split <;> infer_instance
  · split <;> infer_instance
  · split <;> infer_instance
  · infer_instance

/-- The session for which a task function is about to build a path. -/
def TaskPc.builds : TaskPc → Option String
  | .process h => if (payloadFile h.type).isSome then some h.id else none
  | .stop h => if h.completed = 0 then some h.id else none
  | _ => none

/-- The task writes a payload. -/
def writes (task : StoreTask) : Bool :=
  match task.function, task.arg with
  | .processTask, some h => (payloadFile h.type).isSome
  | _, _ => false

def StoreEvent.isWrote : StoreEvent → Bool
  | .wrote _ _ _ => true
  | _ => false

/-- The event is the write of the task's payload into the directory that `StartTask` made. -/
def Wrote (log : List StoreEvent) (task : StoreTask) (e : StoreEvent) : Prop :=
  ∃ h file dir, task.arg = some h ∧ payloadFile h.type = some file ∧
    .created h.id dir ∈ log ∧ e = .wrote h.id (dir ++ [file]) h.buf

/-- Nothing of an unfinished session is lost. -/
structure RotationSafe (s : Server) : Prop where
  /-- `gPreName` names the directory in which the session has been created -/
  named : ∀ i pc id, s.running i = some pc → pc.builds = some id →
    ∃ base, s.store.gPreName = .name base ∧ .created id (base ++ [id]) ∈ s.store.log
  kept : ∀ id dir, (id, dir) ∈ s.store.unfinished → lookup s.store.fs dir = some .dir
  /-- every payload has been written once, in the order of the tasks, where it belongs -/
  written : List.Forall₂ (Wrote s.store.log) (s.ran.filter writes)
    (s.store.log.filter StoreEvent.isWrote)

/-- A first file system on which the calls of the store can succeed: nothing is in the way of
the directories and files of the sessions. -/
structure Terrain (sdId : String) (ids : List String) (fs : FileSystem) : Prop where
  data : lookup fs ["", "data"] = some .dir
  base : ∀ i p content, p <+: deviceDir sdId i → lookup fs p ≠ some (.file content)
  dirs : ∀ i, ∀ id ∈ ids, ∀ content, lookup fs (deviceDir sdId i ++ [id]) ≠ some (.file content)
  files : ∀ i, ∀ id ∈ ids, ∀ file, lookup fs (deviceDir sdId i ++ [id, file]) ≠ some .dir

/-! ## The file system -/

section Terrain

variable {sdId : String} {ids : List String} {fs fs' : FileSystem}

theorem gDefaultLocal_eq (i : Nat) : ∃ name, gDefaultLocal i = ["", "data", name] := by
  unfold gDefaultLocal
  match i with
  | 0 => exact ⟨_, rfl⟩
  | 1 => exact ⟨_, rfl⟩
  | 2 => exact ⟨_, rfl⟩
  | 3 => exact ⟨_, rfl⟩
  | i + 4 => exact ⟨_, rfl⟩

theorem gDefaultLocal_length (i : Nat) : (gDefaultLocal i).length = 3 := by
  obtain ⟨name, h⟩ := gDefaultLocal_eq i
  rw [h]
  rfl

theorem deviceDir_length (sdId : String) (i : Nat) : (deviceDir sdId i).length = 5 := by
  rw [deviceDir, List.length_append, gDefaultLocal_length]
  rfl

/-- A directory more changes nothing. -/
theorem Terrain.makeDir {p : Path} (h : Terrain sdId ids fs) (hp : p.length ≤ 6)
    (hmk : makeDir fs p = some fs') : Terrain sdId ids fs' where
  data := by
    rw [lookup_makeDir hmk]
    split
    · rfl
    · exact h.data
  base := by
    intro i q content hq
    rw [lookup_makeDir hmk]
    split
    · simp
    · exact h.base i q content hq
  dirs := by
    intro i id hid content
    rw [lookup_makeDir hmk]
    split
    · simp
    · exact h.dirs i id hid content
  files := by
    intro i id hid file
    rw [lookup_makeDir hmk, if_neg]
    · exact h.files i id hid file
    · rintro ⟨rfl, -⟩
      simp [deviceDir_length] at hp

/-- Nor does a payload more in a file of a session. -/
theorem Terrain.append {i : Nat} {id file : String} {bytes : List UInt8}
    (h : Terrain sdId ids fs)
    (happ : append fs (deviceDir sdId i ++ [id, file]) bytes = some fs') :
    Terrain sdId ids fs' := by
  have hlen : (deviceDir sdId i ++ [id, file]).length = 7 := by
    rw [List.length_append, deviceDir_length]
    rfl
  have hother : ∀ q : Path, q.length ≠ 7 → lookup fs' q = lookup fs q := by
    -- of the paths that matter only the payload files have seven parts
    intro q hq
    rw [lookup_append happ, if_neg]
    rintro rfl
    exact hq hlen
  refine ⟨(hother _ (by decide)).trans h.data, fun j p content hp => ?_, fun j id' hid content => ?_,
    fun j id' hid file' => ?_⟩
  · -- the directories above, and those of the sessions, are shorter than a payload file
    have := hp.length_le
    rw [deviceDir_length] at this
    rw [hother p (by omega)]
    exact h.base j p content hp
  · rw [hother _ (by simp [deviceDir_length])]
    exact h.dirs j id' hid content
  · rw [lookup_append happ]
    split
    · simp
    · exact h.files j id' hid file'

/-- Nor does the removal of anything but `/data`. -/
theorem Terrain.shrink (h : Terrain sdId ids fs) (hdata : lookup fs' ["", "data"] = some .dir)
    (hless : ∀ q, lookup fs' q = none ∨ lookup fs' q = lookup fs q) : Terrain sdId ids fs' where
  data := hdata
  base := by
    intro i p content hp
    rcases hless p with hq | hq <;> rw [hq]
    · simp
    · exact h.base i p content hp
  dirs := by
    intro i id hid content
    rcases hless (deviceDir sdId i ++ [id]) with hq | hq <;> rw [hq]
    · simp
    · exact h.dirs i id hid content
  files := by
    intro i id hid file
    rcases hless (deviceDir sdId i ++ [id, file]) with hq | hq <;> rw [hq]
    · simp
    · exact h.files i id hid file

/-- Directories stay when another one is made, -/
theorem lookup_dir_makeDir {p q : Path} (hmk : makeDir fs p = some fs')
    (hq : lookup fs q = some .dir) : lookup fs' q = some .dir := by
  rw [lookup_makeDir hmk]
  split
  · rfl
  · exact hq

/-- or a file is written. -/
theorem lookup_dir_append {p q : Path} {bytes : List UInt8} (happ : append fs p bytes = some fs')
    (hq : lookup fs q = some .dir) : lookup fs' q = some .dir := by
  rw [lookup_append happ, if_neg]
  · exact hq
  · rintro rfl
    simp [append, hq] at happ

end Terrain

/-! ## What the store keeps for the unfinished sessions -/

section Housed

variable {sdId : String} {ids : List String} {σ σ' : Store} {pc pc' : TaskPc} {h : PersistentHandle}

theorem mem_unfinished {id : String} {dir : Path} :
    (id, dir) ∈ σ.unfinished ↔ .created id dir ∈ σ.log ∧ .stopped id ∉ σ.log := by
  unfold Store.unfinished
  rw [List.mem_filterMap]
  constructor
  · rintro ⟨e, he, heq⟩
    cases e with
    | created id' dir' =>
        dsimp only at heq
        split at heq
        · cases heq
        · rename_i hs
          cases heq
          exact ⟨he, hs⟩
    | _ => cases heq
  · rintro ⟨hc, hs⟩
    exact ⟨_, hc, by simp [hs]⟩

theorem unfinished_congr (hlog : σ'.log = σ.log) : σ'.unfinished = σ.unfinished := by
  unfold Store.unfinished
  rw [hlog]

/-- All unfinished sessions are under root `i`. -/
def AllIn (sdId : String) (i : Nat) (σ : Store) : Prop :=
  ∀ id dir, (id, dir) ∈ σ.unfinished → dir = deviceDir sdId i ++ [id]

/-- What a task function finds where it is. -/
def Phase (sdId : String) (ids : List String) (σ : Store) : TaskPc → Prop
  | .startPath h => h.id ∈ ids
  | .initBase h => h.id ∈ ids ∧ ∃ i, σ.gpDefaultPath = some (gDefaultLocal i) ∧ AllIn sdId i σ
  | .initPig h => h.id ∈ ids ∧ ∃ i, σ.gpDefaultPath = some (gDefaultLocal i) ∧ AllIn sdId i σ ∧
      lookup σ.fs (gDefaultLocal i) = some .dir
  | .initDevice h => h.id ∈ ids ∧ ∃ i, σ.gpDefaultPath = some (gDefaultLocal i) ∧ AllIn sdId i σ ∧
      lookup σ.fs (gDefaultLocal i ++ ["flying-pig"]) = some .dir
  | .setName h path => h.id ∈ ids ∧ ∃ i, path = deviceDir sdId i ∧ AllIn sdId i σ ∧
      lookup σ.fs path = some .dir
  | .startDir h => h.id ∈ ids ∧ ∃ i, σ.gPreName = .name (deviceDir sdId i) ∧
      lookup σ.fs (deviceDir sdId i) = some .dir
  | .startMkdir h name => h.id ∈ ids ∧ ∃ i, σ.gPreName = .name (deviceDir sdId i) ∧
      name = deviceDir sdId i ++ [h.id] ∧ lookup σ.fs (deviceDir sdId i) = some .dir
  | .process h => h.id ∈ ids ∧ ∃ dir, (h.id, dir) ∈ σ.unfinished
  | .openWrite h name => h.id ∈ ids ∧ ∃ dir file, (h.id, dir) ∈ σ.unfinished ∧
      payloadFile h.type = some file ∧ name = dir ++ [file]
  | .stop h => ∃ dir, (h.id, dir) ∈ σ.unfinished
  | .removeDir h dir => .stopped h.id ∈ σ.log ∧ ∃ i, dir = deviceDir sdId i ++ [h.id]
  | .checkUpload _ => True
  | .countUp _ => True
  | .returned => True

/-- The invariant of the store, with the task function in progress. -/
structure Housed (sdId : String) (ids : List String) (σ : Store) (running : Option TaskPc) :
    Prop where
  device : σ.gSDId = sdId
  terrain : Terrain sdId ids σ.fs
  path : ∀ p, σ.gpDefaultPath = some p → ∃ i, p = gDefaultLocal i
  uploads : ∀ u ∈ σ.uploads, ∃ i, u.path = gDefaultLocal i
  sessions : ∀ id dir, (id, dir) ∈ σ.unfinished → ∃ i, dir = deviceDir sdId i ++ [id] ∧
    σ.gPreName = .name (deviceDir sdId i) ∧ lookup σ.fs dir = some .dir
  phase : ∀ pc, running = some pc → Phase sdId ids σ pc

/-- A phase does not mind changes to what it does not look at. -/
theorem Phase.congr (hp : Phase sdId ids σ pc) (hfs : σ'.fs = σ.fs) (hlog : σ'.log = σ.log)
    (hpath : pc.inInitPath = true → σ'.gpDefaultPath = σ.gpDefaultPath)
    (hname : pc.named = true → σ'.gPreName = σ.gPreName) : Phase sdId ids σ' pc := by
  cases pc <;>
    simp_all [Phase, AllIn, TaskPc.inInitPath, TaskPc.named, unfinished_congr hlog]

/-! ### The upload thread -/

/-- What an upload thread may change besides the files. -/
theorem Housed.frame {running : Option TaskPc} (hh : Housed sdId ids σ running)
    (hfs : σ'.fs = σ.fs) (hlog : σ'.log = σ.log) (hdevice : σ'.gSDId = σ.gSDId)
    (huploads : ∀ u ∈ σ'.uploads, ∃ i, u.path = gDefaultLocal i)
    (hpath : σ'.gpDefaultPath = σ.gpDefaultPath ∨
      (∃ i, σ'.gpDefaultPath = some (gDefaultLocal i)) ∧ running.all (!·.inInitPath) = true)
    (hname : σ'.gPreName = σ.gPreName ∨
      σ.unfinished = [] ∧ running.all (!·.named) = true) : Housed sdId ids σ' running where
  device := hdevice.trans hh.device
  terrain := by
    rw [hfs]
    exact hh.terrain
  path := by
    intro p hp
    rcases hpath with hsame | ⟨⟨i, hi⟩, -⟩
    · exact hh.path p (hsame ▸ hp)
    · rw [hi, Option.some.injEq] at hp
      exact ⟨i, hp.symm⟩
  uploads := huploads
  sessions := by
    intro id dir hid
    rw [unfinished_congr hlog] at hid
    rcases hname with hsame | ⟨hnone, -⟩
    · rw [hsame, hfs]
      exact hh.sessions id dir hid
    · rw [hnone] at hid
      cases hid
  phase := by
    intro pc hpc
    refine (hh.phase pc hpc).congr hfs hlog (fun hin => ?_) fun hin => ?_
    · rcases hpath with hsame | ⟨-, hout⟩
      · exact hsame
      · simp [hpc, hin] at hout
    · rcases hname with hsame | ⟨-, hout⟩
      · exact hsame
      · simp [hpc, hin] at hout

theorem Housed.upload {running : Option TaskPc} {k : Nat} (hh : Housed sdId ids σ running)
    (hup : uploadStep σ k = some σ')
    (hswitch : ∀ path, σ.uploads[k]? = some ⟨path, .switchPath⟩ →
      running.all (!·.inInitPath) = true)
    (hreset : ∀ path, σ.uploads[k]? = some ⟨path, .freeName⟩ ∨
      σ.uploads[k]? = some ⟨path, .resetName⟩ →
        σ.unfinished = [] ∧ running.all (!·.named) = true) :
    Housed sdId ids σ' running := by
  -- whatever the step, the threads keep their paths
  have hset : ∀ path pc pc', σ.uploads[k]? = some ⟨path, pc⟩ →
      ∀ u ∈ σ.uploads.set k ⟨path, pc'⟩, ∃ i, u.path = gDefaultLocal i := by
    intro path pc pc' hk u hu
    rcases List.mem_or_eq_of_mem_set hu with hu | rfl
    · exact hh.uploads u hu
    · exact hh.uploads ⟨path, pc⟩ (List.mem_of_getElem? hk)
  unfold uploadStep at hup
  split at hup
  · rename_i path hk
    cases hup
    exact hh.frame rfl rfl rfl (hset path _ _ hk) (Or.inl rfl) (Or.inl rfl)
  · rename_i path hk
    cases hup
    -- `gpDefaultPath` moves on, while nobody is inside `initPath`
    exact hh.frame rfl rfl rfl (hset path _ _ hk) (Or.inr ⟨⟨_, rfl⟩, hswitch path hk⟩) (Or.inl rfl)
  · rename_i path hk
    -- `gPreName` is freed, while no session is unfinished
    have hquiet := hreset path (Or.inl hk)
    split at hup
    · cases hup
      exact hh.frame rfl rfl rfl (hset path _ _ hk) (Or.inl rfl) (Or.inr hquiet)
    · cases hup
      exact hh.frame rfl rfl rfl (hset path _ _ hk) (Or.inl rfl) (Or.inr hquiet)
    · cases hup
  · rename_i path hk
    cases hup
    exact hh.frame rfl rfl rfl (hset path _ _ hk) (Or.inl rfl)
      (Or.inr (hreset path (Or.inr hk)))
  · rename_i path hk
    cases hup
    exact hh.frame rfl rfl rfl (hset path _ _ hk) (Or.inl rfl) (Or.inl rfl)
  · cases hup

/-- Of two roots one is below the other only if they are the same. -/
theorem root_of_below {i j : Nat} {rest : Path} (hp : gDefaultLocal i <+: gDefaultLocal j ++ rest) :
    gDefaultLocal i = gDefaultLocal j := by
  have hsub := List.prefix_of_prefix_length_le hp (List.prefix_append _ rest)
    (by rw [gDefaultLocal_length, gDefaultLocal_length])
  exact hsub.eq_of_length (by rw [gDefaultLocal_length, gDefaultLocal_length])

theorem Housed.remove {running : Option TaskPc} {k : Nat} {victim : Path}
    (hh : Housed sdId ids σ running) (hup : uploadRemove σ k victim = some σ')
    (hapart : ∀ path pc, σ.uploads[k]? = some ⟨path, pc⟩ →
      (∀ p ∈ σ.unfinished, ¬ path <+: p.2) ∧
        (running.bind (TaskPc.home σ)).all (!path.isPrefixOf ·) = true) :
    Housed sdId ids σ' running := by
  unfold uploadRemove at hup
  split at hup
  swap
  · cases hup
  rename_i path hk
  split at hup
  swap
  · cases hup
  rename_i hvictim
  cases hup
  obtain ⟨hsessions, hhome⟩ := hapart path _ hk
  -- the thread works on one of the roots
  obtain ⟨j, rfl⟩ := hh.uploads _ (List.mem_of_getElem? hk)
  -- outside the tree of the root nothing changes
  have hkeeps : ∀ q, ¬ gDefaultLocal j <+: q →
      lookup (unlink σ.fs victim) q = lookup σ.fs q := by
    intro q hq
    rw [lookup_unlink, if_neg]
    rintro rfl
    exact hq hvictim.1
  -- and the task function in progress does not look into that tree
  have hfar : ∀ pc p, running = some pc → TaskPc.home σ pc = some p → ¬ gDefaultLocal j <+: p := by
    intro pc p hpc hp
    simpa [hpc, hp, ← List.isPrefixOf_iff_prefix] using hhome
  refine ⟨hh.device, hh.terrain.shrink ?_ fun q => ?_, hh.path, hh.uploads, ?_, ?_⟩
  · refine (hkeeps _ fun hp => ?_).trans hh.terrain.data
    have := hp.length_le
    rw [gDefaultLocal_length] at this
    exact absurd this (by decide)
  · show lookup (unlink σ.fs victim) q = none ∨ _
    rw [lookup_unlink]
    split
    · exact Or.inl rfl
    · exact Or.inr rfl
  · intro id dir hid
    obtain ⟨i, hi, hname, hdir⟩ := hh.sessions id dir hid
    exact ⟨i, hi, hname, (hkeeps dir (hsessions _ hid)).trans hdir⟩
  · intro pc hpc
    have hphase := hh.phase pc hpc
    -- only the phases that look at a directory have something to show
    cases pc with
    | initPig h =>
        obtain ⟨hid, i, hpath, hall, hdir⟩ := hphase
        exact ⟨hid, i, hpath, hall, (hkeeps _ (hfar _ _ hpc hpath)).trans hdir⟩
    | initDevice h =>
        obtain ⟨hid, i, hpath, hall, hdir⟩ := hphase
        refine ⟨hid, i, hpath, hall, (hkeeps _ fun hp => ?_).trans hdir⟩
        exact hfar _ _ hpc hpath (by rw [root_of_below hp])
    | setName h path =>
        obtain ⟨hid, i, hpath, hall, hdir⟩ := hphase
        exact ⟨hid, i, hpath, hall, (hkeeps _ (hfar _ _ hpc rfl)).trans hdir⟩
    | startDir h =>
        obtain ⟨hid, i, hname, hdir⟩ := hphase
        exact ⟨hid, i, hname,
          (hkeeps _ (hfar _ _ hpc (by simp [TaskPc.home, hname, PreName.text]))).trans
          hdir⟩
    | startMkdir h name =>
        obtain ⟨hid, i, hpre, hname, hdir⟩ := hphase
        refine ⟨hid, i, hpre, hname, (hkeeps _ fun hp => ?_).trans hdir⟩
        exact hfar _ _ hpc rfl (hname ▸ hp.trans (List.prefix_append _ _))
    | _ => exact hphase

/-! ### The task functions -/

/-- A directory that is made on the way changes nothing but itself. -/
theorem Housed.makeDir {fs : FileSystem} {p : Path} (hh : Housed sdId ids σ (some pc))
    (hp : p.length ≤ 6) (hmk : makeDir σ.fs p = some fs)
    (hphase : Phase sdId ids { σ with fs := fs } pc') :
    Housed sdId ids { σ with fs := fs } (some pc') where
  device := hh.device
  terrain := hh.terrain.makeDir hp hmk
  path := hh.path
  uploads := hh.uploads
  sessions := by
    intro id dir hid
    obtain ⟨i, hi, hname, hdir⟩ := hh.sessions id dir hid
    exact ⟨i, hi, hname, lookup_dir_makeDir hmk hdir⟩
  phase := by
    intro pc'' hpc
    cases hpc
    exact hphase

/-- `mkdir` under a directory, where no file is. -/
theorem makeDir_dir {fs fs' : FileSystem} {p : Path}
    (hfile : ∀ content, lookup fs p ≠ some (.file content)) (hmk : makeDir fs p = some fs') :
    lookup fs' p = some .dir := by
  rw [lookup_makeDir hmk]
  cases hp : lookup fs p with
  | none => simp
  | some n =>
      cases n with
      | dir => simp
      | file content => exact absurd hp (hfile content)

theorem mem_unfinished_created {id id' : String} {dir dir' : Path}
    (hlog : σ'.log = σ.log ++ [.created id dir]) (h : (id', dir') ∈ σ'.unfinished) :
    (id', dir') ∈ σ.unfinished ∨ id' = id ∧ dir' = dir := by
  rw [mem_unfinished, hlog] at h
  simp only [List.mem_append, List.mem_singleton, StoreEvent.created.injEq, reduceCtorEq,
    or_false] at h
  rcases h.1 with hc | heq
  · exact Or.inl (mem_unfinished.mpr ⟨hc, h.2⟩)
  · exact Or.inr heq

theorem mem_unfinished_stopped {id id' : String} {dir : Path}
    (hlog : σ'.log = σ.log ++ [.stopped id]) (h : (id', dir) ∈ σ'.unfinished) :
    (id', dir) ∈ σ.unfinished ∧ id' ≠ id := by
  rw [mem_unfinished, hlog] at h
  simp only [List.mem_append, List.mem_singleton, StoreEvent.stopped.injEq, reduceCtorEq,
    or_false, not_or] at h
  exact ⟨mem_unfinished.mpr ⟨h.1, h.2.1⟩, h.2.2⟩

theorem mem_unfinished_wrote {id id' : String} {dir file : Path} {bytes : List UInt8}
    (hlog : σ'.log = σ.log ++ [.wrote id file bytes]) :
    (id', dir) ∈ σ'.unfinished ↔ (id', dir) ∈ σ.unfinished := by
  rw [mem_unfinished, mem_unfinished, hlog]
  simp

/-- A `StopTask` leaves the other sessions alone. -/
theorem Housed.stopped {pc' : TaskPc} (hh : Housed sdId ids σ (some (.stop h)))
    (hphase : Phase sdId ids { σ with log := σ.log ++ [.stopped h.id] } pc') :
    Housed sdId ids { σ with log := σ.log ++ [.stopped h.id] } (some pc') where
  device := hh.device
  terrain := hh.terrain
  path := hh.path
  uploads := hh.uploads
  sessions := by
    intro id dir hid
    exact hh.sessions id dir (mem_unfinished_stopped rfl hid).1
  phase := by
    intro pc'' hpc
    cases hpc
    exact hphase

theorem Housed.mkdir_some {name : Path} (hh : Housed sdId ids σ (some (.startMkdir h name))) :
    ∃ fs, FileTree.makeDir σ.fs name = some fs := by
  obtain ⟨hid, i, hpre, rfl, hdir⟩ := hh.phase _ rfl
  exact makeDir_of_parent (by rwa [List.dropLast_concat])

theorem Housed.append_some {name : Path} (hh : Housed sdId ids σ (some (.openWrite h name))) :
    ∃ fs, FileTree.append σ.fs name h.buf = some fs := by
  obtain ⟨hid, dir, file, hun, hfile, rfl⟩ := hh.phase _ rfl
  obtain ⟨i, rfl, hname, hdir⟩ := hh.sessions _ _ hun
  refine append_of_parent (by rwa [List.dropLast_concat]) ?_ _
  rw [List.append_assoc]
  exact hh.terrain.files i _ hid file

/-- A task function that goes on, and leaves the store as it is. -/
theorem Housed.next (hh : Housed sdId ids σ (some pc)) (hphase : Phase sdId ids σ pc') :
    Housed sdId ids σ (some pc') where
  device := hh.device
  terrain := hh.terrain
  path := hh.path
  uploads := hh.uploads
  sessions := hh.sessions
  phase := by
    intro pc'' hpc
    cases hpc
    exact hphase

/-- `StartTask` makes the directory of a session, which is unfinished from then on. -/
theorem Housed.created {name : Path} {fs : FileSystem}
    (hh : Housed sdId ids σ (some (.startMkdir h name)))
    (hmk : FileTree.makeDir σ.fs name = some fs) :
    Housed sdId ids { σ with fs := fs, log := σ.log ++ [.created h.id name] }
      (some .returned) := by
  obtain ⟨hid, i, hpre, rfl, hdir⟩ := hh.phase _ rfl
  have hterrain := hh.terrain.makeDir (by simp [deviceDir_length]) hmk
  refine ⟨hh.device, hterrain, hh.path, hh.uploads, fun id dir hun => ?_, ?_⟩
  · rcases mem_unfinished_created rfl hun with hun | ⟨rfl, rfl⟩
    · obtain ⟨j, hj, hname, hthere⟩ := hh.sessions id dir hun
      exact ⟨j, hj, hname, lookup_dir_makeDir hmk hthere⟩
    · exact ⟨i, rfl, hpre, makeDir_dir (hh.terrain.dirs i _ hid) hmk⟩
  · rintro pc hpc
    cases hpc
    trivial

/-- `ProcessTask` writes a payload into the directory of its session. -/
theorem Housed.wrote {name : Path} {fs : FileSystem}
    (hh : Housed sdId ids σ (some (.openWrite h name)))
    (hwrite : FileTree.append σ.fs name h.buf = some fs) :
    Housed sdId ids { σ with fs := fs, log := σ.log ++ [.wrote h.id name h.buf] }
      (some .returned) := by
  obtain ⟨hid, dir, file, hun, hfile, rfl⟩ := hh.phase _ rfl
  obtain ⟨i, rfl, hname, hdir⟩ := hh.sessions _ _ hun
  have hwrite' := hwrite
  rw [List.append_assoc] at hwrite'
  refine ⟨hh.device, hh.terrain.append hwrite', hh.path, hh.uploads, fun id d hun' => ?_, ?_⟩
  · obtain ⟨j, hj, hpre, hthere⟩ := hh.sessions id d ((mem_unfinished_wrote rfl).mp hun')
    exact ⟨j, hj, hpre, lookup_dir_append hwrite hthere⟩
  · rintro pc hpc
    cases hpc
    trivial

/-- `StopTask` removes the directory of a session that it has stopped. -/
theorem Housed.removedDir {dir : Path} (hh : Housed sdId ids σ (some (.removeDir h dir))) :
    Housed sdId ids { σ with fs := removeTree σ.fs dir } (some .returned) := by
  obtain ⟨hstopped, i, rfl⟩ := hh.phase _ rfl
  refine ⟨hh.device, hh.terrain.shrink ?_ fun q => ?_, hh.path, hh.uploads,
    fun id dir hun => ?_, ?_⟩
  · show lookup (removeTree _ _) _ = _
    rw [lookup_removeTree, if_neg]
    · exact hh.terrain.data
    · intro hp
      have := hp.length_le
      simp [deviceDir_length] at this
  · show lookup (removeTree _ _) q = none ∨ _
    rw [lookup_removeTree]
    split
    · exact Or.inl rfl
    · exact Or.inr rfl
  · obtain ⟨j, rfl, hname, hdir⟩ := hh.sessions id dir hun
    refine ⟨j, rfl, hname, ?_⟩
    show lookup (removeTree _ _) _ = _
    rw [lookup_removeTree, if_neg]
    · exact hdir
    · -- a directory of another session
      intro hp
      have heq := hp.eq_of_length (by simp [deviceDir_length])
      have hid : h.id = id := by simpa using congrArg List.getLast? heq
      exact (mem_unfinished.mp hun).2 (hid ▸ hstopped)
  · rintro pc hpc
    cases hpc
    trivial

theorem Housed.task (hh : Housed sdId ids σ (some pc)) (hstep : TaskStep σ pc pc' σ')
    (hroot : ∀ h, pc = .startPath h → ∀ p ∈ σ.unfinished,
      p.2 = deviceDir σ.gSDId σ.gnDefaultPathIndex ++ [p.1]) :
    Housed sdId ids σ' (some pc') := by
  have hphase := hh.phase pc rfl
  cases hstep with
  | startPath h =>
      refine ⟨hh.device, hh.terrain, ?_, hh.uploads, hh.sessions, ?_⟩
      · rintro p hp
        cases hp
        exact ⟨_, rfl⟩
      · rintro pc hpc
        cases hpc
        refine ⟨hphase, _, rfl, fun id dir hid => ?_⟩
        rw [← hh.device]
        exact hroot h rfl _ hid
  | initBase h fs hmk =>
      obtain ⟨hid, i, hpath, hall⟩ := hphase
      rw [hpath, pathText, Option.getD_some] at hmk
      refine hh.makeDir ?_ hmk ?_
      · rw [gDefaultLocal_length]
        decide
      · refine ⟨hid, i, hpath, hall, makeDir_dir (fun c => ?_) hmk⟩
        exact hh.terrain.base i _ c (List.prefix_append _ _)
  | initPig h fs hmk =>
      obtain ⟨hid, i, hpath, hall, hdir⟩ := hphase
      rw [hpath, pathText, Option.getD_some] at hmk
      refine hh.makeDir ?_ hmk ?_
      · simp [gDefaultLocal_length]
      · refine ⟨hid, i, hpath, hall, makeDir_dir (fun c => ?_) hmk⟩
        exact hh.terrain.base i _ c ⟨[sdId], by simp [deviceDir]⟩
  | initDevice h fs hmk =>
      obtain ⟨hid, i, hpath, hall, hdir⟩ := hphase
      have hdevice : pathText σ.gpDefaultPath ++ ["flying-pig", σ.gSDId] = deviceDir sdId i := by
        rw [hpath, hh.device]
        rfl
      rw [hdevice] at hmk ⊢
      refine hh.makeDir ?_ hmk ?_
      · simp [deviceDir_length]
      · refine ⟨hid, i, rfl, hall, makeDir_dir (fun c => ?_) hmk⟩
        exact hh.terrain.base i _ c (List.prefix_refl _)
  -- the directories above are there, so no `mkdir` of `initPath` fails
  | baseFails h hmk =>
      obtain ⟨hid, i, hpath, -⟩ := hphase
      rw [hpath, pathText, Option.getD_some] at hmk
      obtain ⟨name, hname⟩ := gDefaultLocal_eq i
      obtain ⟨fs, hfs⟩ := makeDir_of_parent (p := gDefaultLocal i)
        (by rw [hname]; exact hh.terrain.data)
      rw [hfs] at hmk
      cases hmk
  | pigFails h hmk =>
      obtain ⟨hid, i, hpath, -, hdir⟩ := hphase
      rw [hpath, pathText, Option.getD_some] at hmk
      obtain ⟨fs, hfs⟩ := makeDir_of_parent (p := gDefaultLocal i ++ ["flying-pig"])
        (by rwa [List.dropLast_concat])
      rw [hfs] at hmk
      cases hmk
  | deviceFails h hmk =>
      obtain ⟨hid, i, hpath, -, hdir⟩ := hphase
      rw [hpath, pathText, Option.getD_some] at hmk
      obtain ⟨fs, hfs⟩ := makeDir_of_parent (p := gDefaultLocal i ++ ["flying-pig", σ.gSDId])
        (by simpa using hdir)
      rw [hfs] at hmk
      cases hmk
  | setName h path =>
      obtain ⟨hid, i, rfl, hall, hdir⟩ := hphase
      refine ⟨hh.device, hh.terrain, hh.path, hh.uploads, fun id dir hun => ?_, ?_⟩
      · obtain ⟨j, -, -, hthere⟩ := hh.sessions id dir hun
        exact ⟨i, hall id dir hun, rfl, hthere⟩
      · rintro pc hpc
        cases hpc
        exact ⟨hid, i, rfl, hdir⟩
  | startDir h pre hpre =>
      obtain ⟨hid, i, hname, hdir⟩ := hphase
      rw [hname] at hpre
      cases hpre
      exact hh.next ⟨hid, i, hname, rfl, hdir⟩
  | startMkdir h name fs hmk => exact hh.created hmk
  | mkdirFails h name hmk =>
      obtain ⟨fs, hfs⟩ := hh.mkdir_some
      rw [hfs] at hmk
      cases hmk
  | process h file pre hfile hpre =>
      obtain ⟨hid, dir, hun⟩ := hphase
      obtain ⟨i, hdir, hname, -⟩ := hh.sessions _ _ hun
      rw [hname] at hpre
      cases hpre
      exact hh.next ⟨hid, dir, file, hun, hfile, by simp [hdir]⟩
  | badType h hfile => exact hh.next trivial
  | openWrite h name fs hwrite => exact hh.wrote hwrite
  | openFails h name hwrite =>
      obtain ⟨fs, hfs⟩ := hh.append_some
      rw [hfs] at hwrite
      cases hwrite
  | cancel h pre hcancel hpre =>
      obtain ⟨dir, hun⟩ := hphase
      obtain ⟨i, -, hname, -⟩ := hh.sessions _ _ hun
      rw [hname] at hpre
      cases hpre
      exact hh.stopped ⟨by simp, i, rfl⟩
  | stop h hcompleted => exact hh.stopped trivial
  | removeDir h dir => exact hh.removedDir
  | upload h path hcount hpath =>
      refine ⟨hh.device, hh.terrain, hh.path, fun u hu => ?_, hh.sessions, ?_⟩
      · rcases List.mem_append.mp hu with hu | hu
        · exact hh.uploads u hu
        · rw [List.mem_singleton.mp hu]
          exact hh.path path hpath
      · rintro pc hpc
        cases hpc
        trivial
  | noUpload h hno => exact hh.next trivial
  | countUp h =>
      refine ⟨hh.device, hh.terrain, hh.path, hh.uploads, hh.sessions, ?_⟩
      rintro pc hpc
      cases hpc
      trivial

end Housed

/-! ## What the log tells of the tasks that have run -/

/-- The task function at `pc` has been called for the task. -/
def TaskPc.Of (task : StoreTask) : TaskPc → Prop
  | .startPath h => task = ⟨.startTask, some h⟩
  | .initBase h => task = ⟨.startTask, some h⟩
  | .initPig h => task = ⟨.startTask, some h⟩
  | .initDevice h => task = ⟨.startTask, some h⟩
  | .setName h _ => task = ⟨.startTask, some h⟩
  | .startDir h => task = ⟨.startTask, some h⟩
  | .startMkdir h _ => task = ⟨.startTask, some h⟩
  | .process h => task = ⟨.processTask, some h⟩
  | .openWrite h _ => task = ⟨.processTask, some h⟩
  | .stop h => task = ⟨.stopTask, some h⟩
  | .removeDir h _ => task = ⟨.stopTask, some h⟩
  | .checkUpload h => task = ⟨.stopTask, some h⟩
  | .countUp h => task = ⟨.stopTask, some h⟩
  | .returned => True

/-- The log is about the tasks that have run, and the one in progress. -/
structure Logged (s : Server) : Prop where
  within : ∀ pc task, s.running 0 = some pc → s.system.hand 0 = .busy task → pc.Of task
  started : ∀ task ∈ s.ran, starts task = true → ∀ id, taskId task = some id →
    ∃ dir, .created id dir ∈ s.store.log
  stopped : ∀ id, .stopped id ∈ s.store.log →
    (∃ stop ∈ s.ran, stop.function = .stopTask ∧ taskId stop = some id) ∨
      ∃ task, s.system.hand 0 = .busy task ∧ task.function = .stopTask ∧ taskId task = some id
  written : List.Forall₂ (Wrote s.store.log) (s.ran.filter writes)
    (s.store.log.filter StoreEvent.isWrote)

section Logged

variable {sdId : String} {ids : List String} {σ σ' : Store} {pc pc' : TaskPc} {task : StoreTask}
  {s s' : Server} {a : ServerAct}

theorem enter_of (task : StoreTask) : (enter task).Of task := by
  obtain ⟨function, arg⟩ := task
  cases arg with
  | none => cases function <;> trivial
  | some h =>
      cases function with
      | startTask =>
          unfold enter
          dsimp only
          split
          · trivial
          · rfl
      | processTask => rfl
      | stopTask => rfl

theorem TaskStep.of (hstep : TaskStep σ pc pc' σ') (h : pc.Of task) : pc'.Of task := by
  cases hstep <;> first | exact h | trivial

/-- What a step of a task function adds to the log. -/
theorem Housed.logs (hh : Housed sdId ids σ (some pc)) (hstep : TaskStep σ pc pc' σ')
    (hof : pc.Of task) : ∃ new, σ'.log = σ.log ++ new ∧
      (pc' = .returned → starts task = true → ∀ id, taskId task = some id →
        ∃ dir, .created id dir ∈ σ'.log) ∧
      (∀ id, .stopped id ∈ new → task.function = .stopTask ∧ taskId task = some id) ∧
      List.Forall₂ (Wrote σ'.log) ((if pc' = .returned then [task] else []).filter writes)
        (new.filter StoreEvent.isWrote) := by
  cases hstep with
  | startMkdir h name fs hmk =>
      cases hof
      -- the directory that `StartTask` has made
      refine ⟨[.created h.id name], rfl, fun _ _ id hid => ?_, by simp, .nil⟩
      cases hid
      exact ⟨name, by simp⟩
  | mkdirFails h name hmk =>
      obtain ⟨fs, hfs⟩ := hh.mkdir_some
      rw [hfs] at hmk
      cases hmk
  | openWrite h name fs hwrite =>
      cases hof
      -- a payload that goes to the directory of its session
      obtain ⟨hid, dir, file, hun, hfile, rfl⟩ := hh.phase _ rfl
      refine ⟨[.wrote h.id (dir ++ [file]) h.buf], rfl, by simp [starts], by simp, ?_⟩
      have hwrote : Wrote (σ.log ++ [.wrote h.id (dir ++ [file]) h.buf]) ⟨.processTask, some h⟩
          (.wrote h.id (dir ++ [file]) h.buf) :=
        ⟨h, file, dir, rfl, hfile, by simp [(mem_unfinished.mp hun).1], rfl⟩
      rw [if_pos rfl, List.filter_cons_of_pos (by simp [writes, hfile])]
      exact .cons hwrote .nil
  | openFails h name hwrite =>
      obtain ⟨fs, hfs⟩ := hh.append_some
      rw [hfs] at hwrite
      cases hwrite
  | badType h hfile =>
      cases hof
      exact ⟨[], by simp, by simp [starts], by simp, by simp [writes, hfile]⟩
  | cancel h pre hcancel hpre =>
      cases hof
      exact ⟨[.stopped h.id], rfl, by simp, by simp [taskId], by simp [StoreEvent.isWrote]⟩
  | stop h hcompleted =>
      cases hof
      exact ⟨[.stopped h.id], rfl, by simp, by simp [taskId], by simp [StoreEvent.isWrote]⟩
  | removeDir h dir =>
      cases hof
      exact ⟨[], by simp, by simp [starts], by simp, by simp [writes]⟩
  | countUp h =>
      cases hof
      exact ⟨[], by simp, by simp [starts], by simp, by simp [writes]⟩
  | _ => exact ⟨[], by simp, by simp, by simp, by simp⟩

theorem Wrote.mono {log log' : List StoreEvent} (hsub : log ⊆ log') {e : StoreEvent}
    (h : Wrote log task e) : Wrote log' task e := by
  obtain ⟨handle, file, dir, harg, hfile, hc, he⟩ := h
  exact ⟨handle, file, dir, harg, hfile, hsub hc, he⟩

/-- More tasks have run, and the log has grown with them. -/
theorem Logged.grow (h : Logged s) {done : List StoreTask} {new : List StoreEvent}
    (hran : s'.ran = s.ran ++ done) (hlog : s'.store.log = s.store.log ++ new)
    (hwithin : ∀ pc task, s'.running 0 = some pc → s'.system.hand 0 = .busy task → pc.Of task)
    (hstarted : ∀ task ∈ done, starts task = true → ∀ id, taskId task = some id →
      ∃ dir, .created id dir ∈ s'.store.log)
    (hstopped : ∀ id, .stopped id ∈ new → ∃ task, s'.system.hand 0 = .busy task ∧
      task.function = .stopTask ∧ taskId task = some id)
    (hcarry : ∀ task, s.system.hand 0 = .busy task →
      task ∈ s'.ran ∨ s'.system.hand 0 = .busy task)
    (hwritten : List.Forall₂ (Wrote s'.store.log) (done.filter writes)
      (new.filter StoreEvent.isWrote)) : Logged s' where
  within := hwithin
  started := by
    intro task ht hs id hid
    rw [hran, List.mem_append] at ht
    rcases ht with ht | ht
    · obtain ⟨dir, hdir⟩ := h.started task ht hs id hid
      exact ⟨dir, hlog ▸ List.mem_append_left _ hdir⟩
    · exact hstarted task ht hs id hid
  stopped := by
    intro id hid
    rw [hlog, List.mem_append] at hid
    rcases hid with hid | hid
    · rcases h.stopped id hid with ⟨stop, hs, hfun⟩ | ⟨task, hbusy, hfun⟩
      · exact Or.inl ⟨stop, hran ▸ List.mem_append_left _ hs, hfun⟩
      · rcases hcarry task hbusy with hin | hbusy'
        · exact Or.inl ⟨task, hin, hfun⟩
        · exact Or.inr ⟨task, hbusy', hfun⟩
    · exact Or.inr (hstopped id hid)
  written := by
    rw [hran, List.filter_append]
    nth_rewrite 2 [hlog]
    rw [List.filter_append]
    refine List.rel_append (h.written.imp fun _ _ hw => hw.mono ?_) hwritten
    rw [hlog]
    exact List.subset_append_left _ _

theorem uploadStep_log {k : Nat} (hup : uploadStep σ k = some σ') : σ'.log = σ.log := by
  unfold uploadStep at hup
  split at hup
  case h_3 => split at hup <;> cases hup <;> rfl
  all_goals
    cases hup
    try rfl

theorem uploadRemove_log {k : Nat} {victim : Path} (hup : uploadRemove σ k victim = some σ') :
    σ'.log = σ.log := by
  unfold uploadRemove at hup
  split at hup
  · split at hup <;> cases hup
    rfl
  · cases hup

theorem Logged.quiet (h : Logged s) (hran : s'.ran = s.ran) (hlog : s'.store.log = s.store.log)
    (hwithin : ∀ pc task, s'.running 0 = some pc → s'.system.hand 0 = .busy task → pc.Of task)
    (hcarry : ∀ task, s.system.hand 0 = .busy task →
      task ∈ s'.ran ∨ s'.system.hand 0 = .busy task) : Logged s' :=
  h.grow (hran.trans (List.append_nil _).symm) (by rw [hlog, List.append_nil]) hwithin (by simp)
    (by simp) hcarry .nil

/-- A step beside the worker. -/
theorem Logged.aside (h : Logged s) (hhand : s'.system.hand 0 = s.system.hand 0)
    (htaken : s'.system.taken = s.system.taken) (hrun : s'.running = s.running)
    (hlog : s'.store.log = s.store.log) : Logged s' := by
  refine h.quiet (ran_congr hhand htaken hrun) hlog ?_ fun task hb => Or.inr (hhand.trans hb)
  rw [hrun, hhand]
  exact h.within

/-- A step of the task function in progress: the only one that writes to the log. -/
theorem Logged.taskStep (h : Logged s) (hone : OneTask s) (hbusy : s.system.hand 0 = .busy task)
    (hpc : s.running 0 = some pc) (hh : Housed sdId ids s.store (some pc))
    (hts : TaskStep s.store pc pc' s'.store) (hhand : s'.system.hand 0 = s.system.hand 0)
    (htaken : s'.system.taken = s.system.taken)
    (hrun : s'.running = Function.update s.running 0 (some pc')) : Logged s' := by
  have hof := h.within pc task hpc hbusy
  obtain ⟨new, hlog, hstarted, hstopped, hwritten⟩ := hh.logs hts hof
  have hrun' : s'.running 0 = some pc' := by rw [hrun, Function.update_self]
  have hne : pc ≠ .returned := by
    rintro rfl
    cases hts
  have hbusy' := hhand.trans hbusy
  refine h.grow ?_ hlog (fun pc t hp hb => ?_)
    (fun t ht => ?_) (fun id hid => ⟨task, hbusy', hstopped id hid⟩)
    (fun t hb => Or.inr (hhand.trans hb)) hwritten
  · rw [ran_busy hbusy hpc hne]
    -- with its last step the task joins the tasks that have run
    by_cases hret : pc' = .returned
    · subst hret
      rw [ran_returned hbusy' hrun', if_pos rfl, htaken]
      exact hone.dropLast (Or.inr hbusy)
    · rw [ran_busy hbusy' hrun' hret, if_neg hret, htaken, List.append_nil]
  · rw [hbusy'] at hb
    rw [hrun'] at hp
    cases hb
    cases hp
    exact hts.of hof
  · split at ht
    · rename_i hret
      obtain rfl := List.mem_singleton.mp ht
      exact hstarted hret
    · cases ht

theorem Logged.step (h : Logged s) (hone : OneTask s)
    (hh : Housed sdId ids s.store (s.running 0))
    (henter : ∀ task, s.system.hand 0 = .took task → enter task ≠ .returned)
    (hstep : OneStep s s' a) : Logged s' := by
  cases hstep with
  | same _ hhand htaken hrun hstore => exact h.aside hhand htaken hrun (by rw [hstore])
  | upload k hup hhand htaken hrun => exact h.aside hhand htaken hrun (uploadStep_log hup)
  | remove k victim hup hhand htaken hrun =>
      exact h.aside hhand htaken hrun (uploadRemove_log hup)
  | takes task hidle hhand htaken hrun hstore =>
      refine h.quiet ?_ (by rw [hstore]) (fun pc t _ hb => ?_) fun t hb => ?_
      · -- the new task is the last one taken, so `ran` leaves it out
        rw [ran_took hhand, htaken, List.dropLast_concat, ran_idle hidle]
      · simp [hhand] at hb
      · simp [hidle] at hb
  | begins task htook hhand htaken hrun hstore =>
      have hrun' : s'.running 0 = some (enter task) := by rw [hrun, Function.update_self]
      refine h.quiet ?_ (by rw [hstore]) (fun pc t hpc hb => ?_) fun t hb => ?_
      · rw [ran_busy hhand hrun' (henter task htook), htaken, ran_took htook]
      · rw [hhand] at hb
        rw [hrun'] at hpc
        cases hb
        cases hpc
        exact enter_of task
      · simp [htook] at hb
  | finishes task hbusy hret hhand htaken hrun hstore =>
      have hran : s'.ran = s.ran := by
        calc s'.ran = s'.system.taken := ran_idle hhand
          _ = s.system.taken := htaken
          _ = s.ran := (ran_returned hbusy hret).symm
      refine h.quiet hran (by rw [hstore]) (fun pc t _ hb => ?_) fun t hb => ?_
      · simp [hhand] at hb
      · rw [hbusy] at hb
        cases hb
        obtain ⟨before, hbefore⟩ := hone.last task (Or.inr hbusy)
        left
        rw [ran_idle hhand, htaken, hbefore]
        simp
  | task task pc pc' hbusy hpc hstep hhand htaken hrun =>
      rw [hpc] at hh
      exact h.taskStep hone hbusy hpc hh (taskStep_cases hstep) hhand htaken hrun

end Logged

/-! ## Every run -/

section Runs

variable {sdId : String} {recordings : List Recording} {s s' : Server} {a : ServerAct}
  {task : StoreTask} {r : Recording}

theorem Housed.running {ids : List String} {σ : Store} {running running' : Option TaskPc}
    (hh : Housed sdId ids σ running) (hphase : ∀ pc, running' = some pc → Phase sdId ids σ pc) :
    Housed sdId ids σ running' :=
  ⟨hh.device, hh.terrain, hh.path, hh.uploads, hh.sessions, hphase⟩

/-- The tasks of a recording are what the calls made of it. -/
theorem Recording.enter_cases (ht : task ∈ r.tasks) : starts task = true ∧ enter task =
      .startPath ⟨r.id, .typeStart, [], 1⟩ ∨
    starts task = false ∧ ∃ h, h.id = r.id ∧ (enter task = .process h ∨ enter task = .stop h) := by
  unfold Recording.tasks Recording.script at ht
  rw [List.reduceOption_mem_iff] at ht
  simp only [List.cons_append, List.mem_cons, List.mem_append, List.mem_map, Option.some.injEq,
    List.not_mem_nil, or_false] at ht
  rcases ht with rfl | ⟨p, -, hp⟩ | rfl
  · exact Or.inl ⟨rfl, rfl⟩
  · rw [speechProcess_eq] at hp
    split at hp
    · cases hp
      exact Or.inr ⟨rfl, _, rfl, Or.inl rfl⟩
    · cases hp
  · exact Or.inr ⟨rfl, _, rfl, Or.inr rfl⟩

/-- Before another task of a session, the one that starts it has been taken. -/
theorem Ordered.start_before (h : Ordered recordings s) (hr : r ∈ recordings)
    (htaken : s.system.taken <+: s.system.accepted.map Prod.snd) {before : List StoreTask}
    (heq : s.system.taken = before ++ [task]) (hid : taskId task = some r.id)
    (hns : starts task = false) : speechStart r.id ∈ before := by
  have hfirst := h.taken_first hr htaken
  rw [heq, Keyed.stream_append, Keyed.stream_cons_self hid, r.tasks_eq] at hfirst
  -- the session's own stream begins with its start, and `task` is another one
  cases hstream : Keyed.stream taskId r.id before with
  | nil =>
      rw [hstream, List.nil_append, List.cons_append, List.cons_prefix_cons] at hfirst
      rw [hfirst.1] at hns
      cases hns
  | cons t rest =>
      rw [hstream, List.cons_append, List.cons_append, List.cons_prefix_cons] at hfirst
      rw [← hfirst.1]
      have hmem : t ∈ Keyed.stream taskId r.id before := by simp [hstream]
      exact (Keyed.mem_stream.mp hmem).1

/-- The session of a task that begins has been started, and not stopped. -/
theorem Logged.phase_enter (sdId : String) (h : Logged s) (hord : Ordered recordings s)
    (hone : OneTask s)
    (htaken : s.system.taken <+: s.system.accepted.map Prod.snd)
    (htook : s.system.hand 0 = .took task) :
    enter task ≠ .returned ∧ Phase sdId (recordings.map Recording.id) s.store (enter task) := by
  have heq := hone.dropLast (Or.inl htook)
  have hmem : task ∈ s.system.taken := by
    rw [heq]
    simp
  obtain ⟨r, hr, hid⟩ := hord.ids task (htaken.subset hmem)
  have hrid : r.id ∈ recordings.map Recording.id := List.mem_map_of_mem hr
  have htasks : task ∈ r.tasks :=
    (hord.taken_first hr htaken).subset (Keyed.mem_stream.mpr ⟨hmem, hid⟩)
  rcases Recording.enter_cases htasks with ⟨-, henter⟩ | ⟨hns, handle, hhid, henter⟩
  · rw [henter]
    exact ⟨by simp, hrid⟩
  · -- its `StartTask` has run, and its `StopTask`, which comes last, has not
    have hunfinished : ∃ dir, (handle.id, dir) ∈ s.store.unfinished := by
      rw [hhid]
      have hran := ran_took htook
      obtain ⟨dir, hdir⟩ := h.started (speechStart r.id)
        (hran ▸ hord.start_before hr htaken heq hid hns) rfl r.id rfl
      refine ⟨dir, mem_unfinished.mpr ⟨hdir, fun hstop => ?_⟩⟩
      rcases h.stopped r.id hstop with ⟨stop, hs, hfun, hsid⟩ | ⟨t, hb, -⟩
      · exact hord.before_stop htaken heq (hran ▸ hs) hfun (hsid.trans hid.symm)
      · simp [htook] at hb
    -- either way the session is one of the unfinished ones
    rcases henter with henter | henter <;> rw [henter]
    · exact ⟨by simp, by rwa [hhid], hunfinished⟩
    · exact ⟨by simp, hunfinished⟩

theorem Housed.step {ids : List String} (hh : Housed sdId ids s.store (s.running 0))
    (hC : Undisturbed s a) (hstep : OneStep s s' a)
    (henter : ∀ task, s.system.hand 0 = .took task → Phase sdId ids s.store (enter task)) :
    Housed sdId ids s'.store (s'.running 0) := by
  cases hstep with
  | same _ hhand htaken hrun hstore =>
      rw [hstore, hrun]
      exact hh
  | takes task hidle hhand htaken hrun hstore =>
      rw [hstore, hrun]
      exact hh
  | begins task htook hhand htaken hrun hstore =>
      rw [hstore, hrun, Function.update_self]
      refine hh.running fun pc hpc => ?_
      cases hpc
      exact henter task htook
  | finishes task hbusy hret hhand htaken hrun hstore =>
      rw [hstore, hrun, Function.update_self]
      exact hh.running fun pc hpc => by cases hpc
  | task task pc pc' hbusy hpc hstep hhand htaken hrun =>
      rw [hpc] at hh
      rw [hrun, Function.update_self]
      refine hh.task (taskStep_cases hstep) fun h heq => ?_
      subst heq
      simpa only [Undisturbed, hpc] using hC
  | upload k hup hhand htaken hrun =>
      rw [hrun]
      refine hh.upload hup (fun path hk => ?_) fun path hk => ?_
      · simpa only [Undisturbed, hk] using hC
      · rcases hk with hk | hk <;> simpa only [Undisturbed, hk] using hC
  | remove k victim hup hhand htaken hrun =>
      rw [hrun]
      refine hh.remove hup fun path pc hk => ?_
      simpa only [Undisturbed, hk] using hC

theorem Housed.safe {ids : List String} (hone : OneTask s)
    (hh : Housed sdId ids s.store (s.running 0)) (h : Logged s) : RotationSafe s where
  named := by
    intro i pc id hpc hbuilds
    obtain ⟨rfl, -⟩ := hone.busy hpc
    have hunfinished : ∃ dir, (id, dir) ∈ s.store.unfinished := by
      have hphase := hh.phase pc hpc
      cases pc with
      | process h =>
          unfold TaskPc.builds at hbuilds
          dsimp only at hbuilds
          split at hbuilds <;> cases hbuilds
          exact hphase.2
      | stop h =>
          unfold TaskPc.builds at hbuilds
          dsimp only at hbuilds
          split at hbuilds <;> cases hbuilds
          exact hphase
      | _ => cases hbuilds
    obtain ⟨dir, hun⟩ := hunfinished
    obtain ⟨i, rfl, hname, -⟩ := hh.sessions id dir hun
    exact ⟨_, hname, (mem_unfinished.mp hun).1⟩
  kept := by
    intro id dir hun
    obtain ⟨i, -, -, hdir⟩ := hh.sessions id dir hun
    exact hdir
  written := h.written

/-- **Rotation.** In every run in which no upload thread disturbs an unfinished session, nothing
of an unfinished session is lost. -/
theorem speechStore_rotation_safe (sdId : String) (fs : FileSystem) (heap : Int → StoreTask)
    (recordings : List Recording) (hids : (recordings.map Recording.id).Nodup)
    (hfs : Terrain sdId (recordings.map Recording.id) fs) (acts : List ServerAct) (s : Server)
    (hC : Machine.Meets Server.step Undisturbed (serverInit sdId fs heap recordings) acts)
    (hrun : Machine.run Server.step (serverInit sdId fs heap recordings) acts = some s) :
    RotationSafe s := by
  -- the invariant holds along the run: the order of the tasks, the store, and the log
  have hinv := Machine.run_invariant_of_meets (fun t =>
    Machine.Reaches Server.step (serverInit sdId fs heap recordings) t ∧
      Housed sdId (recordings.map Recording.id) t.store (t.running 0) ∧ Logged t) ?_ ?_ hC hrun
  · obtain ⟨hs, hh, hlogged⟩ := hinv
    exact hh.safe (serverInit_run hids hs).2 hlogged
  · rintro t a t' ⟨ht, hh, hlogged⟩ hC hstep
    obtain ⟨hord, hone⟩ := serverInit_run hids ht
    obtain ⟨rest, hfifo⟩ := serverInit_fifo ht
    have henter := fun task (htook : t.system.hand 0 = .took task) =>
      hlogged.phase_enter sdId hord hone ⟨rest, hfifo.order.symm⟩ htook
    have hcases := hone.cases hstep
    exact ⟨ht.step hstep, hh.step hC hcases fun task htook => (henter task htook).2,
      hlogged.step hone hh (fun task htook => (henter task htook).1) hcases⟩
  · -- at first there is neither a session nor an upload thread
    refine ⟨.refl _ _, ⟨rfl, hfs, ?_, ?_, ?_, ?_⟩, ⟨?_, ?_, ?_, .nil⟩⟩
    · intro p hp
      cases hp
    · intro u hu
      cases hu
    · intro id dir hid
      cases hid
    · intro pc hpc
      cases hpc
    · intro pc task hpc
      cases hpc
    · intro task ht
      cases ht
    · intro id hid
      cases hid

/-- 20 completed sessions without payloads, and one with a payload. -/
def manyRecordings : List Recording :=
  (List.range 20).map (fun k => ⟨String.ofList (List.replicate k 'a'), [], 1⟩) ++
    [⟨"last", [([7], .typeSeepch)], 1⟩]

/-- Client `k` makes call `j` of `threadpool_add_task`. -/
def makeCall (k j : Nat) : List ServerAct :=
  [.issue k, .pool (.caller j), .pool (.callerSignal j none)]

/-- The worker takes a task whose function takes `n` steps, and runs it. -/
def runCall (n : Nat) : List ServerAct :=
  [.pool (.worker 0), .pool (.worker 0)] ++ List.replicate n (.task 0) ++ [.pool (.worker 0)]

/-- The 20 sessions, one after the other: the last one starts the upload thread. -/
def twentySessions : List ServerAct :=
  (List.range 20).flatMap fun k =>
    makeCall k (2 * k) ++ runCall 7 ++ makeCall k (2 * k + 1) ++ runCall 3

/-- The next session runs when the upload thread has reset the name, and its payload is written
while the thread removes the old root. -/
def calmRun : List ServerAct :=
  twentySessions ++ List.replicate 4 (.upload 0) ++ makeCall 20 40 ++ runCall 7 ++
    [.remove 0 ["", "data", "speech0", "flying-pig", "d", "a"]] ++ makeCall 20 41 ++ runCall 2

theorem terrain_data (sdId : String) (ids : List String) :
    Terrain sdId ids [(["", "data"], .dir)] where
  data := rfl
  base := by
    intro i p content _
    simp only [lookup]
    split <;> simp
  dirs := by
    intro i id _ content
    simp only [lookup]
    split <;> simp
  files := by
    intro i id _ file
    obtain ⟨name, hname⟩ := gDefaultLocal_eq i
    simp [lookup, deviceDir, hname]

theorem speechStore_rotation_safe_calm : ∃ s, Machine.run Server.step
    (serverInit "d" [(["", "data"], .dir)] (fun _ => ⟨.stopTask, none⟩) manyRecordings) calmRun =
      some s ∧ s.store.gnDefaultPathIndex = 1 ∧ RotationSafe s := by
  have hrun : (Machine.run Server.step (serverInit "d" [(["", "data"], .dir)]
      (fun _ => ⟨.stopTask, none⟩) manyRecordings) calmRun).map
        (fun s => s.store.gnDefaultPathIndex) = some 1 := by decide +kernel
  obtain ⟨s, hs, hindex⟩ := Option.map_eq_some_iff.mp hrun
  exact ⟨s, hs, hindex, speechStore_rotation_safe "d" _ _ manyRecordings (by decide +kernel)
    (terrain_data "d" _) calmRun s (by decide +kernel) hs⟩

/-- The same sessions, but the next one starts before the upload thread moves. -/
def raceRun : List ServerAct :=
  twentySessions ++ makeCall 20 40 ++ runCall 7 ++ List.replicate 4 (.upload 0) ++
    makeCall 20 41 ++ [.pool (.worker 0), .pool (.worker 0)]

/-- The last session is then without a name for its payload. -/
theorem speechStore_rotation_breaks : ¬ ∀ (sdId : String) (fs : FileSystem)
    (heap : Int → StoreTask) (recordings : List Recording),
    (recordings.map Recording.id).Nodup → Terrain sdId (recordings.map Recording.id) fs →
      ∀ s, Machine.Reaches Server.step (serverInit sdId fs heap recordings) s → RotationSafe s := by
  intro h
  have hrun : (Machine.run Server.step (serverInit "d" [(["", "data"], .dir)]
      (fun _ => ⟨.stopTask, none⟩) manyRecordings) raceRun).map
        (fun s => (s.running 0, s.store.gPreName)) =
      some (some (.process ⟨"last", .typeSeepch, [7], 1⟩), .null) := by decide +kernel
  obtain ⟨s, hs, hend⟩ := Option.map_eq_some_iff.mp hrun
  obtain ⟨hpc, hname⟩ := Prod.mk.inj hend
  obtain ⟨base, hbase, -⟩ := (h "d" _ _ manyRecordings (by decide +kernel) (terrain_data "d" _) s
    ⟨raceRun, hs⟩).named 0 _ "last" hpc rfl
  rw [hname] at hbase
  cases hbase

end Runs

end SpeechStack
