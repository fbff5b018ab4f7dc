import SpeechStack.Pool.Teardown
import SpeechStack.Store.Sessions

set_option autoImplicit false

/-! # What `unInit` leaves

`unInit` calls `threadpool_destroy`, which tells the worker to end itself where it would take
its next task. The task in hand still runs to its end, and the worker has been joined before
the pool is freed; what is in the queue by then is never run.
-/

namespace SpeechStack

open FileTree

section Shutdown

variable {sdId : String} {fs : FileSystem} {heap : Int → StoreTask}
  {recordings : List Recording} {s u v : Server} {r : Recording}

/-- Nothing is taken or accepted from the call of `threadpool_destroy` on. -/
theorem Server.closed (hidle : u.system.destroy = .idle) (hcall : u.step (.pool .destroy) = some v)
    (hs : Machine.Reaches Server.step v s) : Closed u.system s.system := by
  have hfirst : Closed u.system v.system := by
    obtain ⟨system, hsys, rfl⟩ := Option.map_eq_some_iff.mp hcall
    exact closed_of_destroy hidle hsys
  exact (Server.reaches_system hs).invariant (Closed u.system)
    (fun t a t' ht hstep => ht.step (System.step_cases hstep)) hfirst

/-- What a first part of the accepted tasks leaves of a session that it stops. -/
theorem Ordered.stopped {tasks : List StoreTask} (h : Ordered recordings s)
    (htasks : tasks <+: s.system.accepted.map Prod.snd) (hfs : Prepared sdId recordings fs)
    (hups : (tasks.foldl runAlone (storeInit sdId fs)).uploads = []) (hr : r ∈ recordings)
    (hstop : speechStop r.id r.isCompleted ∈ tasks) :
    r.Left sdId (tasks.foldl runAlone (storeInit sdId fs)).fs := by
  have hcount := countP_completes_lt tasks hfs.hosts (h.known htasks) (h.first htasks) hups
  have hmem := Keyed.mem_stream.mpr
    ⟨hstop, (rfl : taskId (speechStop r.id r.isCompleted) = some r.id)⟩
  -- its `StopTask` is the last one of its tasks, so all of them have run
  apply h.left htasks hcount hfs hr
  exact Recording.eq_tasks_of_stop (h.taken_first hr htasks) hmem rfl

end Shutdown

end SpeechStack
