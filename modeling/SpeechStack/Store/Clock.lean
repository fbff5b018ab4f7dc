import SpeechStack.Store.Sessions

set_option autoImplicit false

/-! # Sessions by the clock

`speechStart` names a session after the wall clock, to the second. A `TimedSession` is a recording
that does not yet have its identifier; it comes with the clock reading of its `speechStart`.
In the machine of this file the clock goes on between the steps of the server, and a client
first goes through `getIDbytime`, in three steps: it reads the clock, calls `localtime`, and
prints. What `localtime` returns is one static `struct tm` for all callers, and no lock covers
the way from there to `sprintf`: a client prints what the last call of `localtime` has left.
-/

namespace SpeechStack

/-- The fields of `struct tm` that `getIDbytime` reads, in the ranges of `localtime`;
`tmYear` counts from 1900. -/
structure Tm where
  tmYear : Nat
  tmMon : Fin 12
  tmMday : Fin 32
  tmHour : Fin 24
  tmMin : Fin 60
  tmSec : Fin 61
deriving DecidableEq

/-- What `sprintf` prints for `%0wd`. -/
def padded (w n : Nat) : List Char := (Nat.toDigits 10 n).leftpad w '0'

/-- `getIDbytime()`, when `localtime` gives `timeNow`. -/
def getIDbytime (timeNow : Tm) : String :=
  String.ofList (padded 4 (timeNow.tmYear + 1900) ++ padded 2 timeNow.tmMon ++
    padded 2 timeNow.tmMday ++ padded 2 timeNow.tmHour ++ padded 2 timeNow.tmMin ++
    padded 2 timeNow.tmSec)

/-- A session, with the reading of `time(NULL)` in its `speechStart`. -/
structure TimedSession where
  time : Nat
  payloads : List (List UInt8 × PersistentType)
  isCompleted : Int

/-- The session, once it has an identifier. -/
def TimedSession.named (x : TimedSession) (id : String) : Recording where
  id := id
  payloads := x.payloads
  isCompleted := x.isCompleted

/-- The session under the identifier of its own reading. -/
def TimedSession.recording (localtime : Nat → Tm) (x : TimedSession) : Recording :=
  x.named (getIDbytime (localtime x.time))

/-- Where a client is in `getIDbytime`. -/
inductive Naming where
  | start
  /-- has read the clock -/
  | read (t : Nat)
  /-- has called `localtime`, and is about to print the `struct tm` -/
  | converted
  | named
deriving DecidableEq

/-- The server, the clock, and the static `struct tm` of `localtime`. A client without an
identifier has nothing to do on the server yet. -/
structure Clocked where
  server : Server
  now : Nat
  timeNow : Tm
  naming : Nat → Naming

inductive ClockedAct where
  /-- the clock goes on to a reading -/
  | clock (reading : Nat)
  /-- client `k` calls `time(NULL)` -/
  | time (k : Nat)
  | localtime (k : Nat)
  /-- client `k` prints its identifier -/
  | sprintf (k : Nat)
  | act (a : ServerAct)

def Clocked.step (localtime : Nat → Tm) (sessions : List TimedSession) (s : Clocked) :
    ClockedAct → Option Clocked
  | .clock reading => if s.now ≤ reading then some { s with now := reading } else none
  | .time k =>
      if s.naming k = .start ∧ sessions[k]?.map TimedSession.time = some s.now then
        some { s with naming := Function.update s.naming k (.read s.now) }
      else none
  | .localtime k =>
      match s.naming k with
      | .read t => some { s with
          timeNow := localtime t, naming := Function.update s.naming k .converted }
      | _ => none
  | .sprintf k =>
      match s.naming k, sessions[k]? with
      | .converted, some x =>
          let r := x.named (getIDbytime s.timeNow)
          some { s with
            server := { s.server with
              clients := s.server.clients.set k ⟨r.id, r.script, none⟩ }
            naming := Function.update s.naming k .named }
      | _, _ => none
  | .act a => (s.server.step a).map fun server => { s with server := server }

/-- A client without an identifier. -/
def unnamed : Client where
  id := ""
  todo := []
  pending := none

/-- Nobody calls `localtime` while another client is still to print what its own call left. -/
def Unovertaken (s : Clocked) : ClockedAct → Prop
  | .localtime _ => ∀ j, s.naming j ≠ .converted
  | _ => True

/-! ## Identifiers -/

section Clocked

variable {localtime : Nat → Tm} {sdId : String} {fs : FileSystem} {heap : Int → StoreTask}
  {sessions : List TimedSession} {s s' : Clocked} {a : ClockedAct} {timeNow : Tm}

/-- A step, with the client that moves. -/
inductive ClockedStep (localtime : Nat → Tm) (sessions : List TimedSession) (s : Clocked) :
    ClockedAct → Clocked → Prop where
  | clock (reading : Nat) : ClockedStep localtime sessions s (.clock reading)
      { s with now := reading }
  | time (k : Nat) (x : TimedSession) (hpc : s.naming k = .start) (hx : sessions[k]? = some x)
      (hnow : x.time = s.now) : ClockedStep localtime sessions s (.time k)
        { s with naming := Function.update s.naming k (.read s.now) }
  | localtime (k t : Nat) (hpc : s.naming k = .read t) :
      ClockedStep localtime sessions s (.localtime k) { s with
        timeNow := localtime t, naming := Function.update s.naming k .converted }
  | sprintf (k : Nat) (x : TimedSession) (hpc : s.naming k = .converted)
      (hx : sessions[k]? = some x) : ClockedStep localtime sessions s (.sprintf k) { s with
        server := { s.server with
          clients := s.server.clients.set k
            ⟨getIDbytime s.timeNow, (x.named (getIDbytime s.timeNow)).script, none⟩ }
        naming := Function.update s.naming k .named }
  | act (a : ServerAct) (server : Server) (h : s.server.step a = some server) :
      ClockedStep localtime sessions s (.act a) { s with server := server }

theorem Clocked.step_cases (h : s.step localtime sessions a = some s') :
    ClockedStep localtime sessions s a s' := by
  cases a with
  | clock reading =>
      change (if s.now ≤ reading then _ else none) = some s' at h
      split at h
      · cases h
        exact .clock reading
      · cases h
  | time k =>
      change (if _ ∧ _ then _ else none) = some s' at h
      split at h
      · rename_i hk
        obtain ⟨x, hx, hnow⟩ := Option.map_eq_some_iff.mp hk.2
        cases h
        exact .time k x hk.1 hx hnow
      · cases h
  | localtime k =>
      simp only [Clocked.step] at h
      split at h
      · rename_i t hpc
        cases h
        exact .localtime k t hpc
      · cases h
  | sprintf k =>
      simp only [Clocked.step] at h
      split at h
      · rename_i x hpc hx
        cases h
        exact .sprintf k x hpc hx
      · cases h
  | act a =>
      obtain ⟨server, hserver, rfl⟩ := Option.map_eq_some_iff.mp h
      exact .act a server hserver

/-- Only a call touches the clients. -/
theorem Server.step_clients {s t : Server} {a : ServerAct} (ha : ∀ k, a ≠ .issue k)
    (h : s.step a = some t) : t.clients = s.clients := by
  cases Server.step_cases h with
  | skips k => exact absurd rfl (ha k)
  | issues k => exact absurd rfl (ha k)
  | _ => rfl

/-- What every run keeps: who is in `getIDbytime` has a session, and calls nothing before it has
its identifier. -/
structure Named (sessions : List TimedSession) (s : Clocked) : Prop where
  length : s.server.clients.length = sessions.length
  read : ∀ k t, s.naming k = .read t → ∃ x, sessions[k]? = some x ∧ x.time = t
  converted : ∀ k, s.naming k = .converted → ∃ x, sessions[k]? = some x
  unnamed : ∀ k c, s.naming k ≠ .named → s.server.clients[k]? = some c → c = unnamed

/-- A client that calls has its identifier. -/
theorem Named.issue (h : Named sessions s) {k : Nat} {server : Server}
    (hstep : s.server.step (.issue k) = some server) : s.naming k = .named ∧
      ∃ c, server.clients = s.server.clients.set k c := by
  have hnamed : ∀ c, s.server.clients[k]? = some c → c.todo ≠ [] → s.naming k = .named := by
    intro c hc htodo
    by_contra hno
    rw [h.unnamed k c hno hc] at htodo
    exact htodo rfl
  cases Server.step_cases hstep with
  | skips k id todo pending hk => exact ⟨hnamed _ hk (List.cons_ne_nil _ _), _, rfl⟩
  | issues k id task todo pending system hk =>
      exact ⟨hnamed _ hk (List.cons_ne_nil _ _), _, rfl⟩

/-- A client goes on in `getIDbytime`. -/
theorem Named.moves (h : Named sessions s) {k : Nat} {pc : Naming}
    (hnaming : s'.naming = Function.update s.naming k pc) (hold : s.naming k ≠ .named)
    (hread : ∀ t, pc = .read t → ∃ x, sessions[k]? = some x ∧ x.time = t)
    (hconverted : pc = .converted → ∃ x, sessions[k]? = some x)
    (hlength : s'.server.clients.length = s.server.clients.length)
    (hclients : ∀ j, j ≠ k ∨ pc ≠ .named →
      s'.server.clients[j]? = s.server.clients[j]?) : Named sessions s' := by
  have hself : s'.naming k = pc := by rw [hnaming, Function.update_self]
  have hother : ∀ j, j ≠ k → s'.naming j = s.naming j := fun j hjk => by
    rw [hnaming, Function.update_of_ne hjk]
  refine ⟨hlength.trans h.length, fun j t hj => ?_, fun j hj => ?_, fun j c hj hc => ?_⟩
  · by_cases hjk : j = k
    · subst hjk
      exact hread t (hself.symm.trans hj)
    · exact h.read j t ((hother j hjk).symm.trans hj)
  · by_cases hjk : j = k
    · subst hjk
      exact hconverted (hself.symm.trans hj)
    · exact h.converted j ((hother j hjk).symm.trans hj)
  · by_cases hjk : j = k
    · subst hjk
      rw [hclients j (Or.inr (hself ▸ hj))] at hc
      exact h.unnamed j c hold hc
    · rw [hclients j (Or.inl hjk)] at hc
      exact h.unnamed j c (hother j hjk ▸ hj) hc

theorem Named.step (h : Named sessions s) (hstep : ClockedStep localtime sessions s a s') :
    Named sessions s' := by
  cases hstep with
  | clock => exact ⟨h.length, h.read, h.converted, h.unnamed⟩
  | time k x hpc hx hnow =>
      exact h.moves rfl (by rw [hpc]; exact Naming.noConfusion)
        (fun t ht => ⟨x, hx, by cases ht; exact hnow⟩) Naming.noConfusion rfl fun _ _ => rfl
  | localtime k t hpc =>
      obtain ⟨x, hx, -⟩ := h.read k t hpc
      exact h.moves rfl (by rw [hpc]; exact Naming.noConfusion) (fun _ => Naming.noConfusion)
        (fun _ => ⟨x, hx⟩) rfl fun _ _ => rfl
  | sprintf k x hpc hx =>
      refine h.moves rfl (by rw [hpc]; exact Naming.noConfusion) (fun _ => Naming.noConfusion)
        Naming.noConfusion (List.length_set ..) fun j hj => ?_
      exact List.getElem?_set_ne (hj.resolve_right (not_not_intro rfl)).symm
  | act a server hserver =>
      by_cases ha : ∃ k, a = .issue k
      · obtain ⟨k, rfl⟩ := ha
        obtain ⟨hk, c, hclients⟩ := h.issue hserver
        refine ⟨?_, h.read, h.converted, fun j c' hj hc => ?_⟩
        · show server.clients.length = _
          rw [hclients, List.length_set]
          exact h.length
        · have hjk : j ≠ k := fun heq => hj (heq ▸ hk)
          change server.clients[j]? = some c' at hc
          rw [hclients, List.getElem?_set_ne (Ne.symm hjk)] at hc
          exact h.unnamed j c' hj hc
      · have hsame := Server.step_clients (fun k heq => ha ⟨k, heq⟩) hserver
        exact ⟨hsame ▸ h.length, h.read, h.converted,
          fun j c hj hc => h.unnamed j c hj (hsame ▸ hc)⟩

/-! ### Unovertaken runs -/

/-- The clients, as they will be when those without an identifier have got it. -/
def Clocked.clients (localtime : Nat → Tm) (sessions : List TimedSession) (s : Clocked) :
    List Client :=
  s.server.clients.mapIdx fun k c =>
    if s.naming k = .named then c
    else match sessions[k]? with
      | some x => ⟨(x.recording localtime).id, (x.recording localtime).script, none⟩
      | none => c

/-- In the static `struct tm` is what the client that is about to print has put there. -/
def Owned (localtime : Nat → Tm) (sessions : List TimedSession) (s : Clocked) : Prop :=
  ∀ k x, s.naming k = .converted → sessions[k]? = some x → s.timeNow = localtime x.time

/-- A client that goes on to anything but its `sprintf` leaves the `struct tm` to its owner. -/
theorem Owned.moves (h : Owned localtime sessions s) {k : Nat} {pc : Naming}
    (hpc : pc ≠ .converted) (hnaming : s'.naming = Function.update s.naming k pc)
    (htm : s'.timeNow = s.timeNow) : Owned localtime sessions s' := by
  intro j y hj hy
  rw [hnaming] at hj
  by_cases hjk : j = k
  · subst hjk
    rw [Function.update_self] at hj
    exact absurd hj hpc
  · rw [Function.update_of_ne hjk] at hj
    rw [htm]
    exact h j y hj hy

theorem Owned.step (h : Owned localtime sessions s) (hn : Named sessions s)
    (hunovertaken : Unovertaken s a) (hstep : ClockedStep localtime sessions s a s') :
    Owned localtime sessions s' := by
  cases hstep with
  | clock => exact h
  | time k x hpc hx hnow => exact h.moves Naming.noConfusion rfl rfl
  | localtime k t hpc =>
      intro j y hj hy
      obtain ⟨x, hx, ht⟩ := hn.read k t hpc
      by_cases hjk : j = k
      · subst hjk
        obtain rfl : x = y := Option.some.inj (hx.symm.trans hy)
        rw [ht]
      · -- nobody else is about to print
        change Function.update s.naming k _ j = _ at hj
        rw [Function.update_of_ne hjk] at hj
        exact absurd hj (hunovertaken j)
  | sprintf k x hpc hx => exact h.moves Naming.noConfusion rfl rfl
  | act => exact h

end Clocked

end SpeechStack
