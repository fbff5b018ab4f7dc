import SpeechStack.Store.Order

set_option autoImplicit false

/-! # What a session leaves

Fewer than 20 completed sessions trigger no upload. The tasks of each session then run in the
order of its calls, and nobody else touches its folder: a completed session leaves its
payloads, one kind after the other in its file, and a cancelled one leaves nothing.
-/

namespace SpeechStack

open FileTree

/-- The payloads of one kind that `speechProcess` accepts, in the order of the calls. -/
def payloadsOf (type : PersistentType) (payloads : List (List UInt8 × PersistentType)) :
    List (List UInt8) :=
  payloads.filterMap fun p =>
    if p.2 = type ∧ p.1.length ≠ 0 ∧ p.1.length ≤ MAX_NLP_BUFFER_LEN then some p.1 else none

/-- The folder `dir` holds the payloads of the recording. -/
structure Recording.Saved (r : Recording) (dir : Path) (fs : FileSystem) : Prop where
  speech : contents fs (dir ++ ["input.pcm"]) = some (payloadsOf .typeSeepch r.payloads).flatten
  asr : contents fs (dir ++ ["outputasr.json"]) = some (payloadsOf .typeAsr r.payloads).flatten
  nlp : contents fs (dir ++ ["output.json"]) =
    some ((payloadsOf .typeNlp r.payloads).flatMap fun buf => nlpHeader ++ buf ++ nlpTail)

/-- A file system to start with: the calls of `initPath` can succeed, and there is nothing
where the sessions will be. -/
structure Prepared (sdId : String) (recordings : List Recording) (fs : FileSystem) : Prop where
  data : lookup fs ["", "data"] = some .dir
  base : ∀ p content, p <+: sessionBase sdId → lookup fs p ≠ some (.file content)
  fresh : ∀ r ∈ recordings, ∀ rel, lookup fs (sessionBase sdId ++ r.id :: rel) = none

/-- The queue is empty, and the last task has returned. -/
def Server.Drained (s : Server) : Prop :=
  s.system.pool.queueSize = 0 ∧ ∀ w ∈ s.system.workers, w.hand = .idle

instance (s : Server) : Decidable s.Drained := inferInstanceAs (Decidable (_ ∧ _))

/-- All calls of the client have returned 0. -/
def Server.Finished (s : Server) (c : Client) : Prop := c.todo = [] ∧ s.ready c.pending = true

instance (s : Server) (c : Client) : Decidable (s.Finished c) := inferInstanceAs (Decidable (_ ∧ _))

/-! ## One session -/

section Session

variable {r : Recording} {task : StoreTask}

/-- The tasks of the calls of `speechProcess`. -/
def processTasks (id : String) (payloads : List (List UInt8 × PersistentType)) : List StoreTask :=
  (payloads.map fun p => speechProcess id p.1 p.2).reduceOption

theorem Recording.tasks_eq (r : Recording) : r.tasks =
    speechStart r.id :: processTasks r.id r.payloads ++ [speechStop r.id r.isCompleted] := by
  unfold Recording.tasks Recording.script processTasks
  rw [List.reduceOption_append, List.reduceOption_cons_of_some]
  rfl

theorem processTasks_function {id : String} {payloads : List (List UInt8 × PersistentType)}
    (h : task ∈ processTasks id payloads) : task.function = .processTask := by
  unfold processTasks at h
  rw [List.reduceOption_mem_iff] at h
  obtain ⟨p, -, hp⟩ := List.mem_map.mp h
  unfold speechProcess at hp
  split at hp
  · cases hp
  · cases hp
    rfl

theorem completes_function (h : completes task = true) : task.function = .stopTask := by
  obtain ⟨function, arg⟩ := task
  cases function <;> simp [completes] at h ⊢

/-- A recording stops once. -/
theorem Recording.countP_tasks (r : Recording) :
    r.tasks.countP completes = if r.isCompleted ≠ 0 then 1 else 0 := by
  have hnone : (processTasks r.id r.payloads).countP completes = 0 := by
    rw [List.countP_eq_zero]
    intro task ht hc
    have := completes_function hc
    rw [processTasks_function ht] at this
    cases this
  rw [r.tasks_eq, List.countP_append, List.countP_cons, hnone, List.countP_singleton]
  simp [speechStart, speechStop, completes]

theorem payloadFile_inj {type type' : PersistentType} {file : String}
    (h : payloadFile type = some file) (h' : payloadFile type' = some file) : type = type' := by
  have heq : payloadFile type = payloadFile type' := h.trans h'.symm
  cases type <;> cases type' <;> simp [payloadFile] at heq h ⊢

/-- What `speechProcess` makes of a payload. -/
def stored (type : PersistentType) (buf : List UInt8) : List UInt8 :=
  if type = .typeNlp then nlpHeader ++ buf ++ nlpTail else buf

theorem speechProcess_eq (id : String) (buf : List UInt8) (type : PersistentType) :
    speechProcess id buf type = if buf.length ≠ 0 ∧ buf.length ≤ MAX_NLP_BUFFER_LEN then
      some ⟨.processTask, some ⟨id, type, stored type buf, 1⟩⟩ else none := by
  unfold speechProcess stored
  by_cases hlen : buf.length = 0 ∨ MAX_NLP_BUFFER_LEN < buf.length
  · have hlen' : ¬ (buf.length ≠ 0 ∧ buf.length ≤ MAX_NLP_BUFFER_LEN) := by omega
    rw [if_pos hlen, if_neg hlen']
  · have hlen' : buf.length ≠ 0 ∧ buf.length ≤ MAX_NLP_BUFFER_LEN := by omega
    rw [if_neg hlen, if_pos hlen']

theorem processTasks_cons (id : String) (buf : List UInt8) (type : PersistentType)
    (payloads : List (List UInt8 × PersistentType)) :
    processTasks id ((buf, type) :: payloads) =
      if buf.length ≠ 0 ∧ buf.length ≤ MAX_NLP_BUFFER_LEN then
        ⟨.processTask, some ⟨id, type, stored type buf, 1⟩⟩ :: processTasks id payloads
      else processTasks id payloads := by
  unfold processTasks
  rw [List.map_cons, speechProcess_eq]
  split
  · exact List.reduceOption_cons_of_some _ _
  · exact List.reduceOption_cons_of_none _

theorem payloadsOf_cons (type kind : PersistentType) (buf : List UInt8)
    (payloads : List (List UInt8 × PersistentType)) :
    payloadsOf type ((buf, kind) :: payloads) =
      if kind = type ∧ buf.length ≠ 0 ∧ buf.length ≤ MAX_NLP_BUFFER_LEN then
        buf :: payloadsOf type payloads
      else payloadsOf type payloads := by
  unfold payloadsOf
  simp only [List.filterMap_cons]
  by_cases h : kind = type ∧ buf.length ≠ 0 ∧ buf.length ≤ MAX_NLP_BUFFER_LEN
  · rw [if_pos h, if_pos h]
  · rw [if_neg h, if_neg h]

theorem folderStep_process (id : String) {buf : List UInt8} {kind : PersistentType}
    (files : Folder) : ∃ files' : Folder,
      folderStep (some files) ⟨.processTask, some ⟨id, kind, buf, 1⟩⟩ = some files' ∧
      ∀ type file, payloadFile type = some file → (files' file).getD [] =
        (files file).getD [] ++ if kind = type then buf else [] := by
  cases hkind : payloadFile kind with
  | none =>
      refine ⟨files, by simp only [folderStep, hkind], fun type file hfile => ?_⟩
      rw [if_neg, List.append_nil]
      rintro rfl
      rw [hkind] at hfile
      cases hfile
  | some name =>
      -- the payload goes into one file, that of its type
      refine ⟨files.write name buf, by simp only [folderStep, hkind, Option.map_some], ?_⟩
      intro type file hfile
      by_cases heq : kind = type
      · subst heq
        rw [hkind] at hfile
        cases hfile
        simp [Folder.write]
      · rw [if_neg heq, List.append_nil, Folder.write, Function.update_of_ne]
        rintro rfl
        exact heq (payloadFile_inj hkind hfile)

/-- The payloads of each kind go to the end of its file. -/
theorem foldl_processTasks (id : String) (payloads : List (List UInt8 × PersistentType))
    (files : Folder) : ∃ files' : Folder,
      (processTasks id payloads).foldl folderStep (some files) = some files' ∧
      ∀ type file, payloadFile type = some file → (files' file).getD [] =
        (files file).getD [] ++ (payloadsOf type payloads).flatMap (stored type) := by
  induction payloads generalizing files with
  | nil => exact ⟨files, rfl, fun _ _ _ => by simp [payloadsOf]⟩
  | cons p payloads ih =>
      obtain ⟨buf, kind⟩ := p
      rw [processTasks_cons]
      -- a payload of a bad length is refused, and makes no task
      by_cases hlen : buf.length ≠ 0 ∧ buf.length ≤ MAX_NLP_BUFFER_LEN
      · obtain ⟨files₁, hstep, hfiles₁⟩ := folderStep_process id files
        obtain ⟨files', hfold, hfiles'⟩ := ih files₁
        rw [if_pos hlen, List.foldl_cons, hstep]
        refine ⟨files', hfold, fun type file hfile => ?_⟩
        rw [hfiles' type file hfile, hfiles₁ type file hfile, payloadsOf_cons, List.append_assoc]
        by_cases heq : kind = type
        · rw [if_pos heq, if_pos ⟨heq, hlen⟩, List.flatMap_cons, heq]
        · rw [if_neg heq, if_neg (fun h => heq h.1), List.nil_append]
      · rw [if_neg hlen]
        obtain ⟨files', hfold, hfiles'⟩ := ih files
        refine ⟨files', hfold, fun type file hfile => ?_⟩
        rw [hfiles' type file hfile, payloadsOf_cons, if_neg (fun h => hlen h.2)]

/-- The folder after all tasks of a completed session, and after those of a cancelled one. -/
theorem Recording.foldl_tasks (r : Recording) :
    (r.isCompleted = 0 → r.tasks.foldl folderStep none = none) ∧
    (r.isCompleted ≠ 0 → ∃ files : Folder, r.tasks.foldl folderStep none = some files ∧
      ∀ type file, payloadFile type = some file →
        (files file).getD [] = (payloadsOf type r.payloads).flatMap (stored type)) := by
  obtain ⟨files, hfold, hfiles⟩ := foldl_processTasks r.id r.payloads fun _ => none
  have hall : r.tasks.foldl folderStep none = if r.isCompleted = 0 then none else some files := by
    rw [r.tasks_eq, List.foldl_append, List.foldl_cons]
    exact congrArg (folderStep · _) hfold
  constructor
  · intro hcancel
    rw [hall, if_pos hcancel]
  · intro hcompleted
    exact ⟨files, by rw [hall, if_neg hcompleted], hfiles⟩

end Session

/-! ## All sessions -/

section Ordered

variable {recordings : List Recording} {s : Server} {r : Recording} {sdId : String}
  {fs : FileSystem}

/-- What the pool has accepted for a session is the first part of its tasks. -/
theorem Ordered.stream_first (h : Ordered recordings s) (hr : r ∈ recordings) :
    Keyed.stream taskId r.id (s.system.accepted.map Prod.snd) <+: r.tasks := by
  obtain ⟨k, hk⟩ := List.mem_iff_getElem?.mp hr
  have hlt := (List.getElem?_eq_some_iff.mp hk).1
  rw [← h.length] at hlt
  have hf := h.follows k s.clients[k] r (List.getElem?_eq_getElem hlt) hk
  refine ⟨s.waiting s.clients[k].pending ++ s.clients[k].todo.reduceOption, ?_⟩
  rw [← List.append_assoc]
  exact hf.sent

theorem Ordered.taken_first {tasks : List StoreTask} (h : Ordered recordings s)
    (hr : r ∈ recordings) (htaken : tasks <+: s.system.accepted.map Prod.snd) :
    Keyed.stream taskId r.id tasks <+: r.tasks :=
  (htaken.filter _).trans (h.stream_first hr)

/-- The tasks of a session end with the one that stops it. -/
theorem Recording.eq_tasks_of_stop {tasks : List StoreTask} {stop : StoreTask}
    (hfirst : tasks <+: r.tasks) (hstop : stop ∈ tasks) (hfun : stop.function = .stopTask) :
    tasks = r.tasks := by
  rw [r.tasks_eq] at hfirst ⊢
  rcases List.prefix_concat_iff.mp hfirst with heq | hinit
  · exact heq
  · -- before the last task there is no `StopTask`
    exfalso
    rcases List.mem_cons.mp (hinit.subset hstop) with rfl | hmem
    · cases hfun
    · rw [processTasks_function hmem] at hfun
      cases hfun

theorem Ordered.before_stop (h : Ordered recordings s)
    (htaken : s.system.taken <+: s.system.accepted.map Prod.snd) {before after : List StoreTask}
    {task stop : StoreTask} (heq : s.system.taken = before ++ task :: after) (hstop : stop ∈ before)
    (hfun : stop.function = .stopTask) : taskId stop ≠ taskId task := by
  intro hid
  obtain ⟨r, hr, hrid⟩ := h.ids task (htaken.subset (by rw [heq]; simp))
  -- the stream of the session goes on after `stop`
  have hfirst : Keyed.stream taskId r.id before ++ [task] <+: r.tasks := by
    refine List.IsPrefix.trans ⟨Keyed.stream taskId r.id after, ?_⟩ (h.taken_first hr htaken)
    rw [heq, Keyed.stream_append, Keyed.stream_cons_self hrid, List.append_assoc]
    rfl
  have hall := Recording.eq_tasks_of_stop ((List.prefix_append _ _).trans hfirst)
    (Keyed.mem_stream.mpr ⟨hstop, hid.trans hrid⟩) hfun
  have hlen := hfirst.length_le
  rw [hall, List.length_append, List.length_singleton] at hlen
  omega

/-- The sessions that have been completed are fewer than those that trigger an upload. -/
theorem Ordered.countP_taken (h : Ordered recordings s)
    (htaken : s.system.taken <+: s.system.accepted.map Prod.snd)
    (hfew : recordings.countP (fun r => r.isCompleted ≠ 0) < MAX_PERSISTENT_COUNT) :
    s.system.taken.countP completes < MAX_PERSISTENT_COUNT := by
  -- each session completes at most once, and only if it is to be completed
  have hcount : ∀ r ∈ recordings, (Keyed.stream taskId r.id s.system.taken).countP completes ≤
      if r.isCompleted ≠ 0 then 1 else 0 := by
    intro r hr
    calc (Keyed.stream taskId r.id s.system.taken).countP completes
        ≤ r.tasks.countP completes := (h.taken_first hr htaken).sublist.countP_le
      _ = if r.isCompleted ≠ 0 then 1 else 0 := r.countP_tasks
  have hle := Keyed.countP_le taskId completes s.system.taken
    ((recordings.filter fun r => r.isCompleted ≠ 0).map Recording.id) ?_ ?_
  · calc s.system.taken.countP completes
        ≤ ((recordings.filter fun r => r.isCompleted ≠ 0).map Recording.id).length := hle
      _ = recordings.countP (fun r => r.isCompleted ≠ 0) := by
          rw [List.length_map, ← List.countP_eq_length_filter]
      _ < MAX_PERSISTENT_COUNT := hfew
  · intro task ht hc
    obtain ⟨r, hr, hid⟩ := h.ids task (htaken.subset ht)
    refine ⟨r.id, List.mem_map_of_mem (List.mem_filter.mpr ⟨hr, ?_⟩), hid⟩
    -- a session that is cancelled has no task that completes it
    by_contra hno
    have := hcount r hr
    rw [if_neg (by simpa using hno), Nat.le_zero, List.countP_eq_zero] at this
    exact this task (Keyed.mem_stream.mpr ⟨ht, hid⟩) hc
  · intro id
    by_cases hid : ∃ r ∈ recordings, r.id = id
    · obtain ⟨r, hr, rfl⟩ := hid
      refine (hcount r hr).trans ?_
      split <;> omega
    · rw [List.countP_eq_zero.mpr]
      · exact Nat.zero_le 1
      · intro task ht
        obtain ⟨ht, hkey⟩ := Keyed.mem_stream.mp ht
        obtain ⟨r, hr, hrid⟩ := h.ids task (htaken.subset ht)
        rw [hkey] at hrid
        exact absurd ⟨r, hr, (Option.some.inj hrid).symm⟩ hid

theorem Prepared.hosts (h : Prepared sdId recordings fs) :
    Hosts sdId (recordings.map Recording.id) (fun _ => none) 0 (storeInit sdId fs) where
  device := rfl
  index := rfl
  count := rfl
  uploads := rfl
  data := h.data
  base := h.base
  folder := by
    intro id hid rel
    obtain ⟨r, hr, rfl⟩ := List.mem_map.mp hid
    refine (h.fresh r hr rel).trans ?_
    rcases rel with - | ⟨-, - | -⟩ <;> rfl

/-- Every task belongs to a session, -/
theorem Ordered.known {tasks : List StoreTask} (h : Ordered recordings s)
    (htaken : tasks <+: s.system.accepted.map Prod.snd) :
    ∀ task ∈ tasks, ∃ id ∈ recordings.map Recording.id, taskId task = some id := by
  intro task ht
  obtain ⟨r, hr, hid⟩ := h.ids task (htaken.subset ht)
  exact ⟨r.id, List.mem_map_of_mem hr, hid⟩

/-- and the first task of all is the first one of its session. -/
theorem Ordered.first {tasks : List StoreTask} (h : Ordered recordings s)
    (htaken : tasks <+: s.system.accepted.map Prod.snd) :
    ∀ task rest, tasks = task :: rest → starts task = true := by
  intro task rest heq
  obtain ⟨r, hr, hid⟩ := h.ids task (htaken.subset (by rw [heq]; simp))
  have hfirst := h.taken_first hr htaken
  rw [heq, Keyed.stream_cons_self hid, r.tasks_eq, List.cons_append, List.cons_prefix_cons]
    at hfirst
  rw [hfirst.1]
  rfl

/-- The tasks taken so far leave the folders of their sessions. -/
theorem Ordered.hosts {tasks : List StoreTask} (h : Ordered recordings s)
    (htaken : tasks <+: s.system.accepted.map Prod.snd)
    (hcount : tasks.countP completes < MAX_PERSISTENT_COUNT) (hfs : Prepared sdId recordings fs) :
    Hosts sdId (recordings.map Recording.id)
      (tasks.foldl (Keyed.step taskId folderStep) fun _ => none)
      (tasks.countP completes) (tasks.foldl runAlone (storeInit sdId fs)) :=
  (hosts_foldl _ hfs.hosts (h.known htaken) (h.first htaken) hcount).1

end Ordered

/-! ## Every run -/

section Runs

variable {sdId : String} {fs : FileSystem} {heap : Int → StoreTask}
  {recordings : List Recording} {s : Server} {r : Recording}

theorem serverInit_fifo
    (hs : Machine.Reaches Server.step (serverInit sdId fs heap recordings) s) :
    ∃ rest, Fifo MAX_INDEX s.system rest := by
  refine (Server.reaches_system hs).invariant (fun t => ∃ rest, Fifo MAX_INDEX t rest) ?_
    ⟨[], threadpoolCreate_fifo 1 1 heap (by decide)⟩
  rintro t a t' ⟨rest, ht⟩ hstep
  exact ht.step (System.step_cases hstep)

/-- There is one worker. -/
theorem serverInit_one
    (hs : Machine.Reaches Server.step (serverInit sdId fs heap recordings) s) : OneTask s := by
  apply hs.invariant_within OneTask (serverInit_oneTask sdId fs heap recordings)
  intro t a t' ht hone hstep
  have hworkers := threadpool_constant 1 MAX_INDEX heap (by decide) t'.system
    (Server.reaches_system (ht.step hstep))
  exact hone.step hworkers (hone.cases hstep)

/-- The clients keep the order of their calls, and there is one worker. -/
theorem serverInit_run (hids : (recordings.map Recording.id).Nodup)
    (hs : Machine.Reaches Server.step (serverInit sdId fs heap recordings) s) :
    Ordered recordings s ∧ OneTask s := by
  have hord := hs.invariant (Ordered recordings) (fun t a t' ht hstep => ht.step hids hstep)
    (serverInit_ordered sdId fs heap recordings)
  exact ⟨hord, serverInit_one hs⟩

/-- Without a rotation the tasks run alone, one after the other. -/
theorem serverInit_alone (hids : (recordings.map Recording.id).Nodup)
    (hfew : recordings.countP (fun r => r.isCompleted ≠ 0) < MAX_PERSISTENT_COUNT)
    (hfs : Prepared sdId recordings fs)
    (hs : Machine.Reaches Server.step (serverInit sdId fs heap recordings) s) :
    Serial (storeInit sdId fs) s := by
  apply hs.invariant_within (Serial (storeInit sdId fs))
    (serverInit_serial sdId fs heap recordings)
  intro t a t' ht hser hstep
  obtain ⟨hord, hone⟩ := serverInit_run hids ht
  obtain ⟨rest, hfifo⟩ := serverInit_fifo ht
  have htaken : t.system.taken <+: t.system.accepted.map Prod.snd := ⟨rest, hfifo.order.symm⟩
  -- fewer than 20 completed sessions: the settled store has no uploads
  have hsettled := hord.hosts htaken (hord.countP_taken htaken hfew) hfs
  rw [← hser] at hsettled
  exact hser.step (Server.uploads_nil hsettled.uploads) (hone.cases hstep)

/-- The files of a folder that holds what the tasks of a completed session leave. -/
theorem Recording.saved {dir : Path} {files : Folder}
    (hfolder : ∀ rel, lookup fs (dir ++ rel) = Folder.node (some files) rel)
    (hfiles : ∀ type file, payloadFile type = some file →
      (files file).getD [] = (payloadsOf type r.payloads).flatMap (stored type)) :
    r.Saved dir fs := by
  have hcontents : ∀ type file, payloadFile type = some file → contents fs (dir ++ [file]) =
      some ((payloadsOf type r.payloads).flatMap (stored type)) := by
    intro type file hfile
    rw [← hfiles type file hfile, contents, hfolder]
    cases hf : files file <;> simp [Folder.node, hf]
  constructor
  · rw [hcontents .typeSeepch _ rfl, List.flatten_eq_flatMap]
    rfl
  · rw [hcontents .typeAsr _ rfl, List.flatten_eq_flatMap]
    rfl
  · exact hcontents .typeNlp _ rfl

/-- The payloads of a completed session are in its folder, and a cancelled one has none. -/
def Recording.Left (r : Recording) (sdId : String) (fs : FileSystem) : Prop :=
  (r.isCompleted ≠ 0 → r.Saved (sessionBase sdId ++ [r.id]) fs) ∧
    (r.isCompleted = 0 → ∀ rel, lookup fs (sessionBase sdId ++ r.id :: rel) = none)

/-- What the tasks leave of a session all of whose tasks are among them. -/
theorem Ordered.left {tasks : List StoreTask} (h : Ordered recordings s)
    (htaken : tasks <+: s.system.accepted.map Prod.snd)
    (hcount : tasks.countP completes < MAX_PERSISTENT_COUNT) (hfs : Prepared sdId recordings fs)
    (hr : r ∈ recordings) (hall : Keyed.stream taskId r.id tasks = r.tasks) :
    r.Left sdId (tasks.foldl runAlone (storeInit sdId fs)).fs := by
  have hfolder := (h.hosts htaken hcount hfs).folder r.id (List.mem_map_of_mem hr)
  rw [Keyed.foldl_step, hall] at hfolder
  constructor
  · intro hcompleted
    obtain ⟨files, hfold, hfiles⟩ := r.foldl_tasks.2 hcompleted
    rw [hfold] at hfolder
    refine Recording.saved (fun rel => ?_) hfiles
    rw [List.append_assoc]
    exact hfolder rel
  · intro hcancel rel
    rw [hfolder rel, r.foldl_tasks.1 hcancel]
    rcases rel with - | ⟨-, - | -⟩ <;> rfl

/-- **The store without rotation.** When fewer than 20 of the sessions are to be completed, then
in every run and at any time: once the queue has drained, each session whose calls have all
returned 0 has left its payloads in its folder, or nothing when it was cancelled; and no task
that the worker has in hand comes after the `StopTask` of its session. -/
theorem speechStore_correct (sdId : String) (fs : FileSystem) (heap : Int → StoreTask)
    (recordings : List Recording) (hids : (recordings.map Recording.id).Nodup)
    (hfew : recordings.countP (fun r => r.isCompleted ≠ 0) < MAX_PERSISTENT_COUNT)
    (hfs : Prepared sdId recordings fs) (s : Server)
    (hs : Machine.Reaches Server.step (serverInit sdId fs heap recordings) s) :
    (s.Drained → ∀ (k : Nat) c r, s.clients[k]? = some c → recordings[k]? = some r →
      s.Finished c →
        (r.isCompleted ≠ 0 → r.Saved (sessionBase sdId ++ [r.id]) s.store.fs) ∧
        (r.isCompleted = 0 → ∀ rel, lookup s.store.fs (sessionBase sdId ++ r.id :: rel) = none)) ∧
    ∀ i task, s.system.hand i = .took task ∨ s.system.hand i = .busy task →
      ∃ before, s.system.taken = before ++ [task] ∧
        ∀ stop ∈ before, stop.function = .stopTask → taskId stop ≠ taskId task := by
  obtain ⟨hord, hone⟩ := serverInit_run hids hs
  have hser := serverInit_alone hids hfew hfs hs
  obtain ⟨rest, hfifo⟩ := serverInit_fifo hs
  have htaken : s.system.taken <+: s.system.accepted.map Prod.snd := ⟨rest, hfifo.order.symm⟩
  constructor
  · rintro ⟨hempty, hidle⟩ k c r hk hr ⟨htodo, hready⟩
    -- the queue has drained: all that was accepted has been taken
    have hall : s.system.accepted.map Prod.snd = s.system.taken := by
      have hsize := hfifo.size
      rw [hempty] at hsize
      have hrest : rest = [] := List.eq_nil_of_length_eq_zero (by exact_mod_cast hsize.symm)
      calc s.system.accepted.map Prod.snd = s.system.taken ++ rest := hfifo.order
        _ = s.system.taken := by rw [hrest, List.append_nil]
    -- and all calls of the session have been accepted
    have hstream : Keyed.stream taskId r.id s.system.taken = r.tasks := by
      have hsent := (hord.follows k c r hk hr).sent
      rw [ready_waiting hready, htodo, hall] at hsent
      rw [← hsent]
      simp
    rw [← Server.settled_idle (hand_idle hidle 0), hser]
    exact hord.left htaken (hord.countP_taken htaken hfew) hfs (List.mem_of_getElem? hr) hstream
  · intro i task hhand
    obtain rfl : i = 0 := hone.zero (by rcases hhand with h | h <;> simp [h])
    obtain ⟨before, hbefore⟩ := hone.last task hhand
    exact ⟨before, hbefore, fun stop hstop hfun => hord.before_stop htaken hbefore hstop hfun⟩

/-- A file system in which there is only `/data`. -/
theorem prepared_data (sdId : String) (recordings : List Recording) :
    Prepared sdId recordings [(["", "data"], .dir)] := by
  refine ⟨rfl, fun p content _ => ?_, fun r _ rel => ?_⟩
  · simp only [lookup]
    split <;> simp
  · simp [lookup, sessionBase, DEFAULT_PATH0]

/-- The clients `ks` make one call each, one after the other. -/
def callsRun (ks : List Nat) : List ServerAct :=
  ks.zipIdx.flatMap fun c => [.issue c.1, .pool (.caller c.2), .pool (.callerSignal c.2 none)]

/-- The worker runs tasks of as many steps as given. -/
def tasksRun (ns : List Nat) : List ServerAct :=
  ns.flatMap fun n =>
    [.pool (.worker 0), .pool (.worker 0)] ++ List.replicate n (.task 0) ++ [.pool (.worker 0)]

/-- A completed session with a speech and an NLP payload, and a cancelled one. -/
def twoRecordings : List Recording :=
  [⟨"1", [([1, 2], .typeSeepch), ([3], .typeNlp)], 1⟩, ⟨"2", [([4], .typeSeepch)], 0⟩]

/-- Both callers in turn, then the worker: a task function takes as many steps as given. -/
def twoRun : List ServerAct :=
  callsRun [0, 1, 0, 1, 0, 1, 0] ++ tasksRun [7, 7, 2, 2, 2, 2, 3]

theorem speechStore_correct_twoSessions :
    ∃ s, Machine.run Server.step (serverInit "d" [(["", "data"], .dir)]
        (fun _ => ⟨.stopTask, none⟩) twoRecordings) twoRun = some s ∧ s.Drained ∧
      contents s.store.fs ["", "data", "speech0", "flying-pig", "d", "1", "input.pcm"] =
        some [1, 2] ∧
      lookup s.store.fs ["", "data", "speech0", "flying-pig", "d", "2"] = none := by
  have hrun : (Machine.run Server.step (serverInit "d" [(["", "data"], .dir)]
      (fun _ => ⟨.stopTask, none⟩) twoRecordings) twoRun).map (fun s =>
        decide (s.Drained ∧ ∀ c ∈ s.clients, s.Finished c) && s.clients.length = 2) = some true := by
    decide +kernel
  obtain ⟨s, hs, hend⟩ := Option.map_eq_some_iff.mp hrun
  simp only [Bool.and_eq_true, decide_eq_true_eq] at hend
  obtain ⟨⟨hdrained, hfinished⟩, hlen⟩ := hend
  obtain ⟨hsaved, -⟩ := speechStore_correct "d" _ _ twoRecordings (by decide) (by decide)
    (prepared_data _ _) s ⟨twoRun, hs⟩
  have hclient : ∀ k, k < 2 → ∃ c, s.clients[k]? = some c ∧ s.Finished c := by
    intro k hk
    rw [← hlen] at hk
    exact ⟨s.clients[k], List.getElem?_eq_getElem hk, hfinished _ (List.getElem_mem hk)⟩
  obtain ⟨c, hc, hfin⟩ := hclient 0 (by decide)
  obtain ⟨c', hc', hfin'⟩ := hclient 1 (by decide)
  exact ⟨s, hs, hdrained, ((hsaved hdrained 0 c _ hc rfl hfin).1 (by decide)).speech,
    (hsaved hdrained 1 c' _ hc' rfl hfin').2 rfl []⟩

end Runs

end SpeechStack
