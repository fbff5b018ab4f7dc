import SpeechStack.Store.Clock

set_option autoImplicit false

/-! # Sessions do not touch each other

A task reaches the folder of its session with its last step only. At any time the folders are
therefore what the tasks that have run have made of them (`Effects`), and the folder of a
session is what its own tasks have made of it. This needs identifiers that differ: two sessions
that start in one second share their folder, and so do two of which one calls `localtime` while
the other is still to print what its own call has left.
-/

namespace SpeechStack

open FileTree

/-! ## The folder of one session -/

section Session

variable {r : Recording} {tasks : List StoreTask}

/-- All files of the folder are payload files. -/
def Folder.Named (files : Folder) : Prop :=
  ∀ file bs, files file = some bs → ∃ type, payloadFile type = some file

end Session

/-! ## What has been done -/

/-- Behind the directories that `initPath` makes, the file system is what the tasks that have
run make of it. -/
structure Effects (first : Store) (s : Server) : Prop where
  files : ∀ q : Path, 5 < q.length → lookup s.store.fs q = lookup (s.ran.foldl runAlone first).fs q
  uploads : (s.ran.foldl runAlone first).uploads <+: s.store.uploads
  path : (pathText s.store.gpDefaultPath).length ≤ 3

section Effects

variable {first : Store} {s s' : Server} {a : ServerAct} {σ σ' : Store} {pc pc' : TaskPc}

theorem TaskStep.path (h : TaskStep σ pc pc' σ') (hpath : (pathText σ.gpDefaultPath).length ≤ 3) :
    (pathText σ'.gpDefaultPath).length ≤ 3 := by
  cases h with
  | startPath =>
      show (gDefaultLocal σ.gnDefaultPathIndex).length ≤ 3
      unfold gDefaultLocal
      rcases σ.gnDefaultPathIndex with - | - | - | - | n <;> simp [DEFAULT_PATH0, DEFAULT_PATH1,
        DEFAULT_PATH2, DEFAULT_PATH3]
  | _ => exact hpath

/-- Before its last step a task works on directories over the folders only. -/
theorem TaskStep.files (h : TaskStep σ pc pc' σ') (hpc : pc' ≠ .returned)
    (hpath : (pathText σ.gpDefaultPath).length ≤ 3) {q : Path} (hq : 5 < q.length) :
    lookup σ'.fs q = lookup σ.fs q := by
  -- a directory at most five names deep is not on the way to a file
  have hmake : ∀ {p : Path} {fs : FileSystem}, p.length ≤ 5 → makeDir σ.fs p = some fs →
      lookup fs q = lookup σ.fs q := by
    intro p fs hp hmk
    rw [lookup_makeDir hmk, if_neg]
    rintro ⟨rfl, -⟩
    omega
  cases h with
  | initBase h fs hmk => exact hmake (by omega) hmk
  | initPig h fs hmk =>
      apply hmake _ hmk
      rw [List.length_append]
      simp
      omega
  | initDevice h fs hmk =>
      apply hmake _ hmk
      rw [List.length_append]
      simp
      omega
  | startMkdir | openWrite | removeDir => exact absurd rfl hpc
  | _ => rfl

/-- A task that has returned has had its effect. -/
theorem Effects.of_settled (hser : Serial first s') (hran : s'.ran = s'.system.taken)
    (hstore : s'.settled = s'.store) (hpath : (pathText s'.store.gpDefaultPath).length ≤ 3) :
    Effects first s' := by
  have heq : s'.store = s'.ran.foldl runAlone first := by
    rw [hran, ← hstore]
    exact hser
  refine ⟨fun q _ => ?_, ?_, hpath⟩
  · rw [← heq]
  · rw [← heq]

theorem Effects.of_same (h : Effects first s) (hran : s'.ran = s.ran)
    (hstore : s'.store = s.store) : Effects first s' := by
  refine ⟨fun q hq => ?_, ?_, ?_⟩
  · rw [hran, hstore]
    exact h.files q hq
  · rw [hran, hstore]
    exact h.uploads
  · rw [hstore]
    exact h.path

/-- **One step.** -/
theorem Effects.step (h : Effects first s) (hser' : Serial first s') (hups : s.store.uploads = [])
    (hstep : OneStep s s' a) : Effects first s' := by
  cases hstep with
  | same _ hhand htaken hrun hstore =>
      exact h.of_same (ran_congr hhand htaken hrun) hstore
  | takes task hidle hhand htaken hrun hstore =>
      apply h.of_same _ hstore
      rw [ran_took hhand, ran_idle hidle, htaken, List.dropLast_concat]
  | begins task htook hhand htaken hrun hstore =>
      have hrun0 : s'.running 0 = some (enter task) := by
        rw [hrun, Function.update_self]
      by_cases hret : enter task = .returned
      · rw [hret] at hrun0
        refine .of_settled hser' (ran_returned hhand hrun0) ?_ (hstore ▸ h.path)
        exact Server.settled_busy hhand hrun0
      · apply h.of_same _ hstore
        rw [ran_busy hhand hrun0 hret, ran_took htook, htaken]
  | finishes task hbusy hret hhand htaken hrun hstore =>
      exact .of_settled hser' (ran_idle hhand) (Server.settled_idle hhand) (hstore ▸ h.path)
  | task task pc pc' hbusy hpc hstep hhand htaken hrun =>
      have htask := taskStep_cases hstep
      have hbusy' := hhand.trans hbusy
      have hrun0 : s'.running 0 = some pc' := by
        rw [hrun, Function.update_self]
      -- with its last step the task has had its effect, and joins those that have run
      by_cases hret : pc' = .returned
      · subst hret
        refine .of_settled hser' (ran_returned hbusy' hrun0) ?_ (htask.path h.path)
        exact Server.settled_busy hbusy' hrun0
      · have hpc' : pc ≠ .returned := by
          rintro rfl
          exact absurd htask.rank_lt (Nat.not_lt_zero _)
        have hran : s'.ran = s.ran := by
          calc s'.ran = s'.system.taken.dropLast := ran_busy hbusy' hrun0 hret
            _ = s.system.taken.dropLast := by rw [htaken]
            _ = s.ran := (ran_busy hbusy hpc hpc').symm
        refine ⟨fun q hq => ?_, ?_, htask.path h.path⟩
        · rw [hran, htask.files hret h.path hq]
          exact h.files q hq
        · rw [hran]
          exact h.uploads.trans htask.uploads
  | upload k hup => simp [uploadStep, hups] at hup
  | remove k victim hup => simp [uploadRemove, hups] at hup

end Effects

/-! ## Isolation -/

section Runs

variable {sdId : String} {fs : FileSystem} {heap : Int → StoreTask}
  {recordings : List Recording} {s s' : Server} {r : Recording}

end Runs

/-! ## By the clock -/

section Clocked

variable {localtime : Nat → Tm} {timeNow : Tm} {sdId : String} {fs : FileSystem}
  {heap : Int → StoreTask} {sessions : List TimedSession} {recordings : List Recording}
  {s s' : Clocked}

/-- A client prints what the static `struct tm` holds, and makes its first call. -/
theorem Clocked.prints (localtime : Nat → Tm) {k : Nat} {x : TimedSession}
    (hpc : s.naming k = .converted) (hx : sessions[k]? = some x)
    (hk : k < s.server.clients.length) :
    ∃ s' todo n, Machine.run (Clocked.step localtime sessions) s [.sprintf k, .act (.issue k)]
        = some s' ∧
      s'.now = s.now ∧ s'.timeNow = s.timeNow ∧
      s'.naming = Function.update s.naming k .named ∧ s'.server.store = s.server.store ∧
      s'.server.clients = s.server.clients.set k ⟨getIDbytime s.timeNow, todo, some n⟩ := by
  obtain ⟨r, hr⟩ : ∃ r, r = x.named (getIDbytime s.timeNow) := ⟨_, rfl⟩
  obtain ⟨task, todo, hscript⟩ : ∃ task todo, r.script = some task :: todo := ⟨_, _, rfl⟩
  have hid : r.id = getIDbytime s.timeNow := by rw [hr, TimedSession.named]
  obtain ⟨system, hsys⟩ : ∃ system, s.server.system.step (.call task.function task.arg)
      = some system := ⟨_, rfl⟩
  let s₁ : Clocked := { s with
    server := { s.server with clients := s.server.clients.set k ⟨r.id, r.script, none⟩ }
    naming := Function.update s.naming k .named }
  let s₂ : Clocked := { s₁ with server := { s₁.server with
    system := system
    clients := s₁.server.clients.set k ⟨r.id, todo, some s.server.system.calls.length⟩ } }
  have hstep₁ : s.step localtime sessions (.sprintf k) = some s₁ := by
    simp only [Clocked.step, hpc, hx]
    rw [← hr]
  have hstep₂ : s₁.step localtime sessions (.act (.issue k)) = some s₂ := by
    have hissue : s₁.server.step (.issue k) = some s₂.server := by
      have hclient : s₁.server.clients[k]? = some ⟨r.id, some task :: todo, none⟩ := by
        rw [← hscript]
        exact List.getElem?_set_self hk
      show s₁.server.issue k = some s₂.server
      unfold Server.issue
      rw [hclient]
      refine (if_pos rfl).trans ?_
      show (s.server.system.step (.call task.function task.arg)).map _ = some s₂.server
      rw [hsys]
      rfl
    show (s₁.server.step (.issue k)).map _ = some s₂
    rw [hissue]
    rfl
  refine ⟨s₂, todo, s.server.system.calls.length, ?_, rfl, rfl, rfl, rfl, ?_⟩
  · exact Machine.run_cons_eq_some.mpr ⟨s₁, hstep₁, Machine.run_cons_eq_some.mpr
      ⟨s₂, hstep₂, rfl⟩⟩
  · show (s.server.clients.set k _).set k _ = _
    rw [List.set_set, hid]

/-- When nobody else is about to print, a client can start under its own reading. -/
theorem Clocked.starts (localtime : Nat → Tm) {k : Nat} {x : TimedSession}
    (hpc : s.naming k = .start) (hx : sessions[k]? = some x) (hk : k < s.server.clients.length)
    (hnow : s.now ≤ x.time) (hquiet : ∀ j, s.naming j ≠ .converted) :
    ∃ as s' todo n, Machine.run (Clocked.step localtime sessions) s as = some s' ∧
      Machine.Meets (Clocked.step localtime sessions) Unovertaken s as ∧
      s'.now = x.time ∧ s'.naming = Function.update s.naming k .named ∧
      s'.server.store = s.server.store ∧
      s'.server.clients = s.server.clients.set k ⟨getIDbytime (localtime x.time), todo, some n⟩ := by
  let s₁ : Clocked := { s with now := x.time }
  let s₂ : Clocked := { s₁ with naming := Function.update s.naming k (.read x.time) }
  let s₃ : Clocked := { s₂ with
    timeNow := localtime x.time, naming := Function.update s₂.naming k .converted }
  have hread : s₂.naming k = .read x.time := Function.update_self k _ s.naming
  have hstep₁ : s.step localtime sessions (.clock x.time) = some s₁ := if_pos hnow
  have hstep₂ : s₁.step localtime sessions (.time k) = some s₂ :=
    if_pos ⟨hpc, by rw [hx]; rfl⟩
  have hstep₃ : s₂.step localtime sessions (.localtime k) = some s₃ := by
    simp only [Clocked.step, hread]
    rfl
  have hconverted : s₃.naming k = .converted := Function.update_self k _ s₂.naming
  obtain ⟨s', todo, n, hrun, hnow', -, hnaming, hstore, hclients⟩ :=
    Clocked.prints localtime hconverted hx hk
  refine ⟨.clock x.time :: .time k :: .localtime k :: [.sprintf k, .act (.issue k)], s', todo, n,
    ?_, ?_, hnow', ?_, hstore, hclients⟩
  · exact Machine.run_cons_eq_some.mpr ⟨s₁, hstep₁, Machine.run_cons_eq_some.mpr
      ⟨s₂, hstep₂, Machine.run_cons_eq_some.mpr ⟨s₃, hstep₃, hrun⟩⟩⟩
  · refine ⟨trivial, fun t₁ h₁ => ⟨trivial, fun t₂ h₂ => ⟨?_, fun _ _ => ⟨trivial, fun _ _ =>
      ⟨trivial, fun _ _ => trivial⟩⟩⟩⟩⟩
    obtain rfl : s₁ = t₁ := Option.some.inj (hstep₁.symm.trans h₁)
    obtain rfl : s₂ = t₂ := Option.some.inj (hstep₂.symm.trans h₂)
    intro j
    show Function.update s.naming k _ j ≠ _
    by_cases hjk : j = k
    · rw [hjk, Function.update_self]
      exact Naming.noConfusion
    · rw [Function.update_of_ne hjk]
      exact hquiet j
  · rw [hnaming]
    show Function.update (Function.update (Function.update s.naming k _) k _) k _ = _
    rw [Function.update_idem, Function.update_idem]

end Clocked

end SpeechStack
