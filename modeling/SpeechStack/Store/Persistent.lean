import SpeechStack.Lib.FileTree
import SpeechStack.Pool.State

set_option autoImplicit false

/-! # The speech store

`SpeechPersistent.c`: the handles that `speechStart`, `speechProcess` and `speechStop` hand to
the thread pool, and the task functions that work on the file system and on the globals of
the file. The globals have no lock, and `UploadTask` runs in a thread of its own: a task
function is cut (`TaskPc`) wherever it reads or writes a global or calls the file system. One
cut is left out: `.startPath` reads `gnDefaultPathIndex` and writes `gpDefaultPath` in one step.

Memory is there, writes are complete, and `access` with the mode `0777` always fails, so that
`initPath` calls `mkdir` and looks at `EEXIST`. A path is the list of its names: `sprintf`
with `"%s/%s"` appends one. The identifiers of sessions contain no slash.
-/

namespace SpeechStack

open FileTree

def MAX_INDEX : Int := 64

def MAX_NLP_BUFFER_LEN : Nat := 128 * 1024

def MAX_PERSISTENT_COUNT : Nat := 20

def MAX_PATH_INDEX : Nat := 4

abbrev Path := List String

abbrev FileSystem := Tree String UInt8

def DEFAULT_PATH0 : Path := ["", "data", "speech0"]

def DEFAULT_PATH1 : Path := ["", "data", "speech1"]

def DEFAULT_PATH2 : Path := ["", "data", "speech2"]

def DEFAULT_PATH3 : Path := ["", "data", "speech3"]

/-- `gDefaultLocal[i]`. -/
def gDefaultLocal (i : Nat) : Path :=
  [DEFAULT_PATH0, DEFAULT_PATH1, DEFAULT_PATH2, DEFAULT_PATH3].getD i DEFAULT_PATH0

/-- `PersistentType_t`. -/
inductive PersistentType where
  | typeStart
  | typeSeepch
  | typeAsr
  | typeNlp
  | typeStop
deriving DecidableEq

/-- `PersistentHandle_t`; `len` is the length of `buf`. -/
structure PersistentHandle where
  id : String
  type : PersistentType
  buf : List UInt8
  completed : Int
deriving DecidableEq

/-- The functions that the store adds to the pool. -/
inductive TaskFunction where
  | startTask
  | processTask
  | stopTask
deriving DecidableEq

abbrev StoreTask := ThreadpoolTask TaskFunction PersistentHandle

/-- What `gPreName` points to. -/
inductive PreName where
  | null
  | freed
  | name (path : Path)
deriving DecidableEq

/-- Where an `UploadTask` thread is. -/
inductive UploadPc where
  /-- about to write `gnDefaultPathIndex` -/
  | switchIndex
  /-- about to write `gpDefaultPath` -/
  | switchPath
  | freeName
  | resetName
  /-- inside `remove_file(path)` -/
  | removing
  | finished
deriving DecidableEq

structure Upload where
  path : Path
  pc : UploadPc
deriving DecidableEq

/-- What the tasks have done to the file system, for the record. -/
inductive StoreEvent where
  /-- `StartTask` has made the directory of a session -/
  | created (id : String) (dir : Path)
  /-- `ProcessTask` has written a payload -/
  | wrote (id : String) (file : Path) (bytes : List UInt8)
  /-- `StopTask` has begun -/
  | stopped (id : String)
deriving DecidableEq

/-- The globals, the file system and the upload threads. -/
structure Store where
  fs : FileSystem
  gSDId : String
  gPreName : PreName
  gpDefaultPath : Option Path
  gnDefaultPathIndex : Nat
  gPersistentCount : Nat
  uploads : List Upload
  log : List StoreEvent

/-- `Init`, without the pool. -/
def storeInit (sdId : String) (fs : FileSystem) : Store where
  fs := fs
  gSDId := sdId
  gPreName := .null
  gpDefaultPath := none
  gnDefaultPathIndex := 0
  gPersistentCount := 0
  uploads := []
  log := []

/-! ## The calls -/

/-- A text as the bytes that it is stored in. -/
def bytes (text : String) : List UInt8 := text.toList.map fun c => UInt8.ofNat c.toNat

def nlpHeader : List UInt8 := bytes "\x7b\"source\":\"dingdang3.0\",\"result\":["

def nlpTail : List UInt8 := bytes "]\x7d"

/-- `speechStart`, when the clock gives `id`. -/
def speechStart (id : String) : StoreTask :=
  ⟨.startTask, some { id := id, type := .typeStart, buf := [], completed := 1 }⟩

/-- `speechProcess` up to `threadpool_add_task`; it returns -1 before for a bad length. -/
def speechProcess (id : String) (buf : List UInt8) (type : PersistentType) : Option StoreTask :=
  if buf.length = 0 ∨ MAX_NLP_BUFFER_LEN < buf.length then none
  else
    let buf := if type = .typeNlp then nlpHeader ++ buf ++ nlpTail else buf
    some ⟨.processTask, some { id := id, type := type, buf := buf, completed := 1 }⟩

def speechStop (id : String) (isCompleted : Int) : StoreTask :=
  ⟨.stopTask, some { id := id, type := .typeStop, buf := [], completed := isCompleted }⟩

/-! ## The task functions -/

/-- Where a task function is. -/
inductive TaskPc where
  /-- `StartTask`: about to write `gpDefaultPath` -/
  | startPath (handle : PersistentHandle)
  /-- `initPath`: the three `mkdir` -/
  | initBase (handle : PersistentHandle)
  | initPig (handle : PersistentHandle)
  | initDevice (handle : PersistentHandle)
  /-- `initPath`: about to write `gPreName` -/
  | setName (handle : PersistentHandle) (path : Path)
  /-- `StartTask`: `getDirByID` and `mkdir` -/
  | startDir (handle : PersistentHandle)
  | startMkdir (handle : PersistentHandle) (name : Path)
  /-- `ProcessTask`: the name by the type, then `open` and `write` -/
  | process (handle : PersistentHandle)
  | openWrite (handle : PersistentHandle) (name : Path)
  /-- `StopTask`: by `completed`, either `getDirByID` and `remove_file` -/
  | stop (handle : PersistentHandle)
  | removeDir (handle : PersistentHandle) (dir : Path)
  /-- or `doCheckAndTriggerUpload` -/
  | checkUpload (handle : PersistentHandle)
  | countUp (handle : PersistentHandle)
  | returned
deriving DecidableEq

/-- How the pool calls a task. -/
def enter (task : StoreTask) : TaskPc :=
  match task.function, task.arg with
  | .startTask, some handle => if handle.type ≠ .typeStart then .returned else .startPath handle
  | .processTask, some handle => .process handle
  | .stopTask, some handle => .stop handle
  | _, none => .returned

/-- `%s` of a string that may be `NULL`. -/
def pathText (path : Option Path) : Path := path.getD ["(null)"]

/-- `%s` of `gPreName`; what it prints after `free` is not defined. -/
def PreName.text : PreName → Option Path
  | .null => some ["(null)"]
  | .freed => none
  | .name path => some path

/-- The file of a payload: `getNameByID`, `getASRByID`, `getNLPByID`. -/
def payloadFile : PersistentType → Option String
  | .typeSeepch => some "input.pcm"
  | .typeAsr => some "outputasr.json"
  | .typeNlp => some "output.json"
  | _ => none

/-- One step of a task function. -/
def taskStep (σ : Store) : TaskPc → Option (TaskPc × Store)
  | .startPath h =>
      some (.initBase h, { σ with gpDefaultPath := some (gDefaultLocal σ.gnDefaultPathIndex) })
  | .initBase h =>
      match makeDir σ.fs (pathText σ.gpDefaultPath) with
      | some fs => some (.initPig h, { σ with fs := fs })
      -- a failed `mkdir` ends `initPath`, whose result `StartTask` does not look at
      | none => some (.startDir h, σ)
  | .initPig h =>
      match makeDir σ.fs (pathText σ.gpDefaultPath ++ ["flying-pig"]) with
      | some fs => some (.initDevice h, { σ with fs := fs })
      | none => some (.startDir h, σ)
  | .initDevice h =>
      let path := pathText σ.gpDefaultPath ++ ["flying-pig", σ.gSDId]
      match makeDir σ.fs path with
      | some fs => some (.setName h path, { σ with fs := fs })
      | none => some (.startDir h, σ)
  | .setName h path => some (.startDir h, { σ with gPreName := .name path })
  | .startDir h => σ.gPreName.text.map fun pre => (.startMkdir h (pre ++ [h.id]), σ)
  | .startMkdir h name =>
      match makeDir σ.fs name with
      | some fs => some (.returned, { σ with fs := fs, log := σ.log ++ [.created h.id name] })
      -- the directory is not there: only a message
      | none => some (.returned, σ)
  | .process h =>
      match payloadFile h.type with
      | some file => σ.gPreName.text.map fun pre => (.openWrite h (pre ++ [h.id, file]), σ)
      | none => some (.returned, σ)
  | .openWrite h name =>
      match append σ.fs name h.buf with
      | some fs => some (.returned, { σ with fs := fs, log := σ.log ++ [.wrote h.id name h.buf] })
      | none => some (.returned, σ)
  | .stop h =>
      -- the record is of the entry, whichever branch follows
      let stopped := { σ with log := σ.log ++ [.stopped h.id] }
      if h.completed = 0 then
        σ.gPreName.text.map fun pre => (.removeDir h (pre ++ [h.id]), stopped)
      else some (.checkUpload h, stopped)
  | .removeDir _ dir => some (.returned, { σ with fs := removeTree σ.fs dir })
  | .checkUpload h =>
      -- the test comes before the count, so this is the last session of 20
      if σ.gPersistentCount = MAX_PERSISTENT_COUNT - 1 then
        match σ.gpDefaultPath with
        | some path =>
            some (.countUp h, { σ with uploads := σ.uploads ++ [⟨path, .switchIndex⟩] })
        | none => some (.countUp h, σ) -- `UploadTask` returns at once
      else some (.countUp h, σ)
  | .countUp _ => some (.returned, { σ with
      gPersistentCount := (σ.gPersistentCount + 1) % MAX_PERSISTENT_COUNT })
  | .returned => none

/-! ## The upload thread -/

/-- One step of the upload thread `k`, up to the removal and at its end. It may end with
something left: what is added while it reads a directory need not be seen. -/
def uploadStep (σ : Store) (k : Nat) : Option Store :=
  match σ.uploads[k]? with
  | some ⟨path, .switchIndex⟩ => some { σ with
      gnDefaultPathIndex := (σ.gnDefaultPathIndex + 1) % MAX_PATH_INDEX
      uploads := σ.uploads.set k ⟨path, .switchPath⟩ }
  | some ⟨path, .switchPath⟩ => some { σ with
      gpDefaultPath := some (gDefaultLocal σ.gnDefaultPathIndex)
      uploads := σ.uploads.set k ⟨path, .freeName⟩ }
  | some ⟨path, .freeName⟩ =>
      match σ.gPreName with
      | .null => some { σ with uploads := σ.uploads.set k ⟨path, .resetName⟩ }
      | .name _ => some { σ with
          gPreName := .freed, uploads := σ.uploads.set k ⟨path, .resetName⟩ }
      | .freed => none -- freed twice
  | some ⟨path, .resetName⟩ => some { σ with
      gPreName := .null, uploads := σ.uploads.set k ⟨path, .removing⟩ }
  | some ⟨path, .removing⟩ => some { σ with uploads := σ.uploads.set k ⟨path, .finished⟩ }
  | _ => none

/-- The upload thread `k` removes `victim`, a file or an empty directory of its tree. -/
def uploadRemove (σ : Store) (k : Nat) (victim : Path) : Option Store :=
  match σ.uploads[k]? with
  | some ⟨path, .removing⟩ =>
      if path <+: victim ∧ (lookup σ.fs victim).isSome ∧ isLeaf σ.fs victim then
        some { σ with fs := unlink σ.fs victim }
      else none
  | _ => none

/-! ## A task function as a whole -/

/-- An upper bound of the steps to come. -/
def TaskPc.rank : TaskPc → Nat
  | .startPath _ => 7
  | .initBase _ => 6
  | .initPig _ => 5
  | .initDevice _ => 4
  | .setName _ _ => 3
  | .startDir _ => 2
  | .startMkdir _ _ => 1
  | .process _ => 2
  | .openWrite _ _ => 1
  | .stop _ => 3
  | .removeDir _ _ => 1
  | .checkUpload _ => 2
  | .countUp _ => 1
  | .returned => 0

def runTask : Nat → TaskPc → Store → Store
  | 0, _, σ => σ
  | n + 1, pc, σ =>
      match taskStep σ pc with
      | some (pc', σ') => runTask n pc' σ'
      | none => σ

/-- The store when the task function at `pc` returns, if nobody else touches it. -/
def complete (pc : TaskPc) (σ : Store) : Store := runTask pc.rank pc σ

/-- A task run alone. -/
def runAlone (σ : Store) (task : StoreTask) : Store := complete (enter task) σ

end SpeechStack
