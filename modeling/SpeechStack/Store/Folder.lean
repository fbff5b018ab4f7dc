import SpeechStack.Lib.Keyed
import SpeechStack.Store.Serial

set_option autoImplicit false

/-! # Session folders

What the store is for: every session has a folder of its own, in which the payloads of each
kind go to the end of one file, and which a cancelled session takes away again (`folderStep`).
While `gPreName` stays what the first `StartTask` made of it, the tasks of all sessions do to
the file system what each session's own tasks do to its folder (`Hosts`).
-/

namespace SpeechStack

open FileTree

/-- The files of a session. -/
abbrev Folder := String → Option (List UInt8)

/-- What is at `rel` under the folder, if there is one. -/
def Folder.node (folder : Option Folder) : Path → Option (Node UInt8)
  | [] => folder.map fun _ => .dir
  | [file] => folder.bind fun files => (files file).map .file
  | _ => none

def Folder.write (files : Folder) (file : String) (buf : List UInt8) : Folder :=
  Function.update files file (some ((files file).getD [] ++ buf))

/-- What a task is to do to the folder of its session. -/
def folderStep (folder : Option Folder) (task : StoreTask) : Option Folder :=
  match task.function, task.arg with
  | .startTask, some h =>
      if h.type ≠ .typeStart then folder else some (folder.getD fun _ => none)
  | .processTask, some h =>
      match payloadFile h.type with
      | some file => folder.map fun files => files.write file h.buf
      | none => folder
  | .stopTask, some h => if h.completed = 0 then none else folder
  | _, none => folder

def taskId (task : StoreTask) : Option String := task.arg.map PersistentHandle.id

/-- The task stops a completed session. -/
def completes (task : StoreTask) : Bool :=
  match task.function, task.arg with
  | .stopTask, some h => h.completed ≠ 0
  | _, _ => false

def starts (task : StoreTask) : Bool :=
  match task.function, task.arg with
  | .startTask, some h => h.type = .typeStart
  | _, _ => false

/-- The directory of all sessions of the device before the first rotation. -/
def sessionBase (sdId : String) : Path := DEFAULT_PATH0 ++ ["flying-pig", sdId]

/-- The store holds the folders of the sessions `ids`, `n` of which have been completed. -/
structure Hosts (sdId : String) (ids : List String) (folders : String → Option Folder) (n : Nat)
    (σ : Store) : Prop where
  device : σ.gSDId = sdId
  index : σ.gnDefaultPathIndex = 0
  count : σ.gPersistentCount = n
  uploads : σ.uploads = []
  data : lookup σ.fs ["", "data"] = some .dir
  base : ∀ p content, p <+: sessionBase sdId → lookup σ.fs p ≠ some (.file content)
  folder : ∀ id ∈ ids, ∀ rel,
    lookup σ.fs (sessionBase sdId ++ id :: rel) = Folder.node (folders id) rel

/-- A `StartTask` has run. -/
structure StoreOpened (sdId : String) (σ : Store) : Prop where
  path : σ.gpDefaultPath = some DEFAULT_PATH0
  name : σ.gPreName = .name (sessionBase sdId)
  dir : lookup σ.fs (sessionBase sdId) = some .dir

/-! ## The tasks -/

section Tasks

variable {sdId : String} {ids : List String} {folders : String → Option Folder} {n : Nat}
  {σ : Store} {h : PersistentHandle}

/-- `StartTask` when no call of it fails. -/
theorem runAlone_startTask {path dev : Path} {fs₁ fs₂ fs₃ fs₄ : FileSystem}
    (htype : h.type = .typeStart) (hpath : path = gDefaultLocal σ.gnDefaultPathIndex)
    (hdev : dev = path ++ ["flying-pig", σ.gSDId])
    (h₁ : makeDir σ.fs path = some fs₁) (h₂ : makeDir fs₁ (path ++ ["flying-pig"]) = some fs₂)
    (h₃ : makeDir fs₂ dev = some fs₃) (h₄ : makeDir fs₃ (dev ++ [h.id]) = some fs₄) :
    runAlone σ ⟨.startTask, some h⟩ = { σ with
      fs := fs₄, gpDefaultPath := some path, gPreName := .name dev
      log := σ.log ++ [.created h.id (dev ++ [h.id])] } := by
  subst hpath hdev
  simp [runAlone, enter, htype, complete, TaskPc.rank, runTask, taskStep, pathText, h₁, h₂, h₃,
    PreName.text] at h₄ ⊢
  simp [h₄]

theorem runAlone_processTask {pre : Path} {file : String} (hfile : payloadFile h.type = some file)
    (hpre : σ.gPreName = .name pre) :
    runAlone σ ⟨.processTask, some h⟩ = match append σ.fs (pre ++ [h.id, file]) h.buf with
      | some fs => { σ with fs := fs, log := σ.log ++ [.wrote h.id (pre ++ [h.id, file]) h.buf] }
      | none => σ := by
  simp only [runAlone, enter, complete, TaskPc.rank, runTask, taskStep, hfile, hpre, PreName.text,
    Option.map_some]
  cases append σ.fs (pre ++ [h.id, file]) h.buf <;> rfl

theorem runAlone_cancel {pre : Path} (hcancel : h.completed = 0) (hpre : σ.gPreName = .name pre) :
    runAlone σ ⟨.stopTask, some h⟩ = { σ with
      fs := removeTree σ.fs (pre ++ [h.id]), log := σ.log ++ [.stopped h.id] } := by
  simp only [runAlone, enter, complete, TaskPc.rank, runTask, taskStep, hcancel, hpre,
    PreName.text, Option.map_some, if_true]

theorem runAlone_stop (hcompleted : h.completed ≠ 0)
    (hcount : σ.gPersistentCount + 1 < MAX_PERSISTENT_COUNT) :
    runAlone σ ⟨.stopTask, some h⟩ = { σ with
      gPersistentCount := σ.gPersistentCount + 1, log := σ.log ++ [.stopped h.id] } := by
  have hno : σ.gPersistentCount ≠ MAX_PERSISTENT_COUNT - 1 := by omega
  simp only [runAlone, enter, complete, TaskPc.rank, runTask, taskStep, hcompleted, hno, if_false]
  rw [Nat.mod_eq_of_lt hcount]

/-! ## One task -/

theorem not_folder_prefix_base (sdId id : String) :
    ¬ sessionBase sdId ++ [id] <+: sessionBase sdId := by
  intro hp
  have := hp.length_le
  rw [List.length_append, List.length_singleton] at this
  omega

/-- `initPath` makes a directory over the folders, if it is not there. -/
theorem Hosts.makeBase (hh : Hosts sdId ids folders n σ) {p : Path} (hp : p <+: sessionBase sdId)
    (hlen : 2 < p.length) (hparent : lookup σ.fs p.dropLast = some .dir) :
    ∃ fs, makeDir σ.fs p = some fs ∧ lookup fs p = some .dir ∧
      Hosts sdId ids folders n { σ with fs := fs } := by
  obtain ⟨fs, hmk, hdir, hother⟩ := makeDir_ensures hparent fun content => hh.base p content hp
  refine ⟨fs, hmk, hdir, hh.device, hh.index, hh.count, hh.uploads, ?_, ?_, ?_⟩
  · refine (hother _ ?_).trans hh.data
    rintro rfl
    exact absurd hlen (lt_irrefl _)
  · intro q content hq
    by_cases heq : q = p
    · subst heq
      show lookup fs q ≠ _
      rw [hdir]
      simp
    · show lookup fs q ≠ _
      rw [hother q heq]
      exact hh.base q content hq
  · intro id hid rel
    refine (hother _ ?_).trans (hh.folder id hid rel)
    rintro rfl
    have := hp.length_le
    rw [List.length_append, List.length_cons] at this
    omega

/-- A task that touches nothing but one folder. -/
theorem Hosts.update (hh : Hosts sdId ids folders n σ) {σ' : Store} {n' : Nat} {id : String}
    {folder : Option Folder} (hdevice : σ'.gSDId = σ.gSDId)
    (hindex : σ'.gnDefaultPathIndex = σ.gnDefaultPathIndex) (hcount : σ'.gPersistentCount = n')
    (huploads : σ'.uploads = σ.uploads)
    (hout : ∀ q, ¬ sessionBase sdId ++ [id] <+: q → lookup σ'.fs q = lookup σ.fs q)
    (hin : id ∈ ids → ∀ rel,
      lookup σ'.fs (sessionBase sdId ++ id :: rel) = Folder.node folder rel) :
    Hosts sdId ids (Function.update folders id folder) n' σ' where
  device := hdevice.trans hh.device
  index := hindex.trans hh.index
  count := hcount
  uploads := huploads.trans hh.uploads
  data := by
    refine (hout _ fun hp => ?_).trans hh.data
    have := hp.length_le
    simp [sessionBase, DEFAULT_PATH0] at this
  base := by
    intro p content hp
    rw [hout p fun hq => not_folder_prefix_base sdId id (hq.trans hp)]
    exact hh.base p content hp
  folder := by
    intro id' hid rel
    -- the folder that the task works in, or another one
    by_cases heq : id' = id
    · subst heq
      rw [Function.update_self]
      exact hin hid rel
    · rw [Function.update_of_ne heq, hout]
      · exact hh.folder id' hid rel
      · rw [List.prefix_append_right_inj]
        intro hp
        rw [List.cons_prefix_cons] at hp
        exact heq hp.1.symm

theorem StoreOpened.update (ho : StoreOpened sdId σ) {σ' : Store} {id : String}
    (hpath : σ'.gpDefaultPath = σ.gpDefaultPath) (hname : σ'.gPreName = σ.gPreName)
    (hout : ∀ q, ¬ sessionBase sdId ++ [id] <+: q → lookup σ'.fs q = lookup σ.fs q) :
    StoreOpened sdId σ' where
  path := hpath.trans ho.path
  name := hname.trans ho.name
  dir := (hout _ (not_folder_prefix_base sdId id)).trans ho.dir

theorem node_start (folder : Option Folder) {rel : Path} (hrel : rel ≠ []) :
    Folder.node (some (folder.getD fun _ => none)) rel = Folder.node folder rel := by
  cases rel with
  | nil => exact absurd rfl hrel
  | cons file rest =>
      cases rest with
      | nil => cases folder <;> rfl
      | cons => rfl

theorem node_write (files : Folder) (file : String) (buf : List UInt8) (rel : Path) :
    Folder.node (some (files.write file buf)) rel =
      if [file] = rel then some (.file ((files file).getD [] ++ buf))
      else Folder.node (some files) rel := by
  rcases rel with - | ⟨name, - | ⟨-, -⟩⟩
  · rfl
  · by_cases hname : file = name
    · subst hname
      simp [Folder.node, Folder.write]
    · simp [Folder.node, Folder.write, Function.update_of_ne (Ne.symm hname), hname]
  · simp [Folder.node]

theorem Hosts.startTask (hh : Hosts sdId ids folders n σ) (hid : h.id ∈ ids)
    (htype : h.type = .typeStart) :
    Hosts sdId ids (Function.update folders h.id (some ((folders h.id).getD fun _ => none))) n
        (runAlone σ ⟨.startTask, some h⟩) ∧
      StoreOpened sdId (runAlone σ ⟨.startTask, some h⟩) := by
  -- the three directories of `initPath`, each in the one before
  have hpre : DEFAULT_PATH0 ++ ["flying-pig"] <+: sessionBase sdId := ⟨[sdId], rfl⟩
  obtain ⟨fs₁, h₁, hd₁, hh₁⟩ :=
    hh.makeBase ((List.prefix_append _ _).trans hpre) (by decide) hh.data
  obtain ⟨fs₂, h₂, hd₂, hh₂⟩ := hh₁.makeBase hpre (by decide) hd₁
  obtain ⟨fs₃, h₃, hd₃, hh₃⟩ :=
    hh₂.makeBase (List.prefix_refl _) (by simp [sessionBase, DEFAULT_PATH0]) hd₂
  -- where the folder goes there is no file in the way
  have hfile : ∀ content, lookup fs₃ (sessionBase sdId ++ [h.id]) ≠ some (.file content) := by
    intro content
    rw [hh₃.folder h.id hid []]
    cases folders h.id <;> simp [Folder.node]
  obtain ⟨fs₄, h₄, hd₄, hother⟩ := makeDir_ensures (by rwa [List.dropLast_concat]) hfile
  -- outside the new folder nothing changes
  have hout : ∀ q, ¬ sessionBase sdId ++ [h.id] <+: q → lookup fs₄ q = lookup fs₃ q := by
    intro q hq
    apply hother
    rintro rfl
    exact hq (List.prefix_refl _)
  rw [runAlone_startTask htype (by rw [hh.index]; rfl) (by rw [hh.device]; rfl) h₁ h₂ h₃ h₄]
  constructor
  · refine hh₃.update rfl rfl hh.count rfl hout fun _ rel => ?_
    cases rel with
    | nil => exact hd₄
    | cons file rest =>
        rw [node_start _ (by simp), ← hh₃.folder h.id hid]
        apply hother
        simp
  · exact ⟨rfl, rfl, (hout _ (not_folder_prefix_base sdId h.id)).trans hd₃⟩

theorem Hosts.processTask (hh : Hosts sdId ids folders n σ) (ho : StoreOpened sdId σ)
    (hid : h.id ∈ ids) {file : String} (hfile : payloadFile h.type = some file) :
    Hosts sdId ids
        (Function.update folders h.id ((folders h.id).map fun files => files.write file h.buf)) n
        (runAlone σ ⟨.processTask, some h⟩) ∧
      StoreOpened sdId (runAlone σ ⟨.processTask, some h⟩) := by
  rw [runAlone_processTask hfile ho.name]
  have hparent : lookup σ.fs (sessionBase sdId ++ [h.id, file]).dropLast =
      Folder.node (folders h.id) [] := by
    rw [← hh.folder h.id hid []]
    simp
  have hthere := hh.folder h.id hid [file]
  cases hf : folders h.id with
  | none =>
      -- no folder: `open` fails
      rw [hf] at hparent hthere
      rw [append_without_parent hparent hthere]
      have hsame : Function.update folders h.id none = folders := by
        rw [← hf]
        exact Function.update_eq_self _ _
      rw [Option.map_none, hsame]
      exact ⟨hh, ho⟩
  | some files =>
      rw [hf] at hparent hthere
      obtain ⟨fs, hfs⟩ := append_of_parent hparent
        (by rw [hthere]; cases hg : files file <;> simp [Folder.node, hg]) h.buf
      rw [hfs]
      have hout : ∀ q, ¬ sessionBase sdId ++ [h.id] <+: q → lookup fs q = lookup σ.fs q := by
        intro q hq
        rw [lookup_append hfs, if_neg]
        rintro rfl
        exact hq ⟨[file], by simp⟩
      refine ⟨hh.update rfl rfl hh.count rfl hout fun _ rel => ?_, ho.update rfl rfl hout⟩
      show lookup fs _ = _
      rw [lookup_append hfs, hh.folder h.id hid rel, hthere, hf, Option.map_some, node_write]
      simp only [List.append_cancel_left_eq, List.cons.injEq, true_and]
      congr 3
      cases hg : files file <;> simp [Folder.node, hg]

theorem Hosts.cancel (hh : Hosts sdId ids folders n σ) (ho : StoreOpened sdId σ)
    (hcancel : h.completed = 0) :
    Hosts sdId ids (Function.update folders h.id none) n (runAlone σ ⟨.stopTask, some h⟩) ∧
      StoreOpened sdId (runAlone σ ⟨.stopTask, some h⟩) := by
  rw [runAlone_cancel hcancel ho.name]
  have hout : ∀ q, ¬ sessionBase sdId ++ [h.id] <+: q →
      lookup (removeTree σ.fs (sessionBase sdId ++ [h.id])) q = lookup σ.fs q := by
    intro q hq
    rw [lookup_removeTree, if_neg hq]
  refine ⟨hh.update rfl rfl hh.count rfl hout fun _ rel => ?_, ho.update rfl rfl hout⟩
  show lookup (removeTree σ.fs _) _ = _
  rw [lookup_removeTree, if_pos ⟨rel, by simp⟩]
  rcases rel with - | ⟨-, - | -⟩ <;> rfl

/-- **One task.** It changes the folder of its session, and no other. -/
theorem Hosts.step (hh : Hosts sdId ids folders n σ) {task : StoreTask} {id : String}
    (hid : id ∈ ids) (htask : taskId task = some id)
    (ho : StoreOpened sdId σ ∨ starts task = true)
    (hcount : n + (if completes task then 1 else 0) < MAX_PERSISTENT_COUNT) :
    Hosts sdId ids (Keyed.step taskId folderStep folders task)
        (n + if completes task then 1 else 0) (runAlone σ task) ∧
      StoreOpened sdId (runAlone σ task) := by
  obtain ⟨function, arg⟩ := task
  cases arg with
  | none => cases htask
  | some h =>
      obtain rfl : h.id = id := Option.some.inj htask
      have hsame : Function.update folders h.id (folders h.id) = folders :=
        Function.update_eq_self _ _
      -- a task other than the first one of all finds the directories
      have ho' : function ≠ .startTask → StoreOpened sdId σ := by
        intro hne
        rcases ho with ho | ho
        · exact ho
        · cases function <;> simp [starts] at ho hne
      show Hosts sdId ids
          (Function.update folders h.id (folderStep (folders h.id) ⟨function, some h⟩)) _ _ ∧ _
      cases function with
      | startTask =>
          by_cases htype : h.type = .typeStart
          · simp only [folderStep, htype, ne_eq, not_true_eq_false, if_false]
            exact hh.startTask hid htype
          · have ho : StoreOpened sdId σ := ho.resolve_right (by simp [starts, htype])
            simp only [folderStep, ne_eq, htype, not_false_eq_true, if_true, hsame, runAlone, enter]
            exact ⟨hh, ho⟩
      | processTask =>
          cases hfile : payloadFile h.type with
          | some file =>
              simp only [folderStep, hfile]
              exact hh.processTask (ho' (by simp)) hid hfile
          | none =>
              simp only [folderStep, hfile, hsame, runAlone, enter, complete, TaskPc.rank, runTask,
                taskStep]
              exact ⟨hh, ho' (by simp)⟩
      | stopTask =>
          by_cases hcancel : h.completed = 0
          · simp only [folderStep, completes, hcancel, if_true]
            exact hh.cancel (ho' (by simp)) hcancel
          · simp only [folderStep, completes, hcancel, if_false, hsame, ne_eq, not_false_eq_true,
              decide_true, if_true] at hcount ⊢
            have hn := hh.count
            rw [runAlone_stop hcancel (by rw [hn]; exact hcount)]
            have ho := ho' (by simp)
            exact ⟨⟨hh.device, hh.index, congrArg (· + 1) hn, hh.uploads, hh.data, hh.base, hh.folder⟩,
              ho.path, ho.name, ho.dir⟩

/-! ## All tasks -/

/-- **The folders.** The tasks of all sessions, run one after the other, leave in the folder of
each session what its own tasks leave there. -/
theorem hosts_foldl (tasks : List StoreTask) (hσ : Hosts sdId ids (fun _ => none) 0 σ)
    (hids : ∀ task ∈ tasks, ∃ id ∈ ids, taskId task = some id)
    (hfirst : ∀ task rest, tasks = task :: rest → starts task = true)
    (hcount : tasks.countP completes < MAX_PERSISTENT_COUNT) :
    Hosts sdId ids (tasks.foldl (Keyed.step taskId folderStep) fun _ => none)
        (tasks.countP completes) (tasks.foldl runAlone σ) ∧
      (tasks ≠ [] → StoreOpened sdId (tasks.foldl runAlone σ)) := by
  induction tasks using List.reverseRecOn with
  -- on the last task: before it all folders are as the tasks have left them
  | nil => exact ⟨hσ, fun h => absurd rfl h⟩
  | append_singleton tasks task ih =>
      rw [List.countP_append, List.countP_singleton] at hcount ⊢
      rw [List.foldl_append, List.foldl_append]
      obtain ⟨hh, ho⟩ := ih (fun t ht => hids t (List.mem_append_left _ ht))
        (fun t rest ht => hfirst t (rest ++ [task]) (by rw [ht]; rfl)) (by omega)
      obtain ⟨id, hid, htask⟩ := hids task (by simp)
      have hopen : StoreOpened sdId (tasks.foldl runAlone σ) ∨ starts task = true := by
        cases tasks with
        | nil => exact Or.inr (hfirst task [] rfl)
        | cons t rest => exact Or.inl (ho (by simp))
      obtain ⟨hh', ho'⟩ := hh.step hid htask hopen hcount
      exact ⟨hh', fun _ => ho'⟩

/-- Tasks only add uploads. -/
theorem runAlone_uploads (σ : Store) (task : StoreTask) :
    σ.uploads <+: (runAlone σ task).uploads := runTask_uploads _

/-- The 20th completed session triggers an upload. -/
theorem runAlone_triggers {task : StoreTask} (ho : StoreOpened sdId σ)
    (hcompletes : completes task = true) (hcount : σ.gPersistentCount = MAX_PERSISTENT_COUNT - 1) :
    (runAlone σ task).uploads ≠ [] := by
  obtain ⟨function, arg⟩ := task
  have hpath := ho.path
  cases function with
  | stopTask =>
      cases arg with
      | some h =>
          have hne : h.completed ≠ 0 := by simpa [completes] using hcompletes
          simp [runAlone, enter, complete, TaskPc.rank, runTask, taskStep, hne, hcount, hpath]
      | none => simp [completes] at hcompletes
  | _ => cases arg <;> simp [completes] at hcompletes

/-- So without uploads there were fewer. -/
theorem countP_completes_lt (tasks : List StoreTask) (hσ : Hosts sdId ids (fun _ => none) 0 σ)
    (hids : ∀ task ∈ tasks, ∃ id ∈ ids, taskId task = some id)
    (hfirst : ∀ task rest, tasks = task :: rest → starts task = true)
    (hups : (tasks.foldl runAlone σ).uploads = []) :
    tasks.countP completes < MAX_PERSISTENT_COUNT := by
  induction tasks using List.reverseRecOn with
  | nil => decide
  | append_singleton tasks task ih =>
      rw [List.foldl_append, List.foldl_cons, List.foldl_nil] at hups
      have hids' := fun t ht => hids t (List.mem_append_left _ ht)
      have hfirst' : ∀ t rest, tasks = t :: rest → starts t = true :=
        fun t rest ht => hfirst t (rest ++ [task]) (by rw [ht]; rfl)
      have hlt := ih hids' hfirst'
        (List.prefix_nil.mp (hups ▸ runAlone_uploads (tasks.foldl runAlone σ) task))
      rw [List.countP_append, List.countP_singleton]
      by_cases hcompletes : completes task = true
      · rw [if_pos hcompletes]
        obtain ⟨hh, ho⟩ := hosts_foldl tasks hσ hids' hfirst' hlt
        -- the first task of all starts a session, so it is not the one that completes
        have hne : tasks ≠ [] := by
          rintro rfl
          have hstarts := hfirst task [] rfl
          obtain ⟨function, arg⟩ := task
          cases function <;> cases arg <;> simp [starts, completes] at hstarts hcompletes
        -- otherwise this task would have started an upload
        have hcount : (tasks.foldl runAlone σ).gPersistentCount ≠ MAX_PERSISTENT_COUNT - 1 :=
          fun hcount => runAlone_triggers (ho hne) hcompletes hcount hups
        rw [hh.count] at hcount
        omega
      · rw [if_neg hcompletes]
        exact hlt

end Tasks

end SpeechStack
