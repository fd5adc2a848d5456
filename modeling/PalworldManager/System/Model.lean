/-
# The system: a web process and its workers

The web process, and any number of worker processes over one database.  A worker
takes the lease (`WorkerHeartbeatPublisher.start`), recovers the jobs that an
earlier one left running, and then calls `process_next` over and over; its
heartbeat is a thread of its own.  It may crash at any point, or leave and give
the lease back.  As a lease may be taken over from a worker that only has not
written its heartbeat in time, several workers may be alive at once.

A step of the system is one transaction of the web process or of a worker, one
call of a worker to the outside with its answer, or an event in the life of a
process.  A `System.Run` records each with the world after it.
-/

import PalworldManager.Worker

namespace PalworldManager

open Effects Text

/-- What is left of a call of `process_next`. -/
abbrev Round := Prog World Label Asked (fun a => Reply a.2) (Except Exn Bool × Unit)

/-- A worker process: it has the lease and is to recover the jobs, it is between
two rounds, or it is in a round, of which `trace` is what happened so far. -/
inductive Process where
  | starting (cfg : WorkerConfig)
  | idle (cfg : WorkerConfig)
  | running (cfg : WorkerConfig) (rest : Round) (trace : List Ev)

/-- The database, the file stores, and the worker processes that are alive. -/
structure System where
  world : World
  process : WorkerId → Option Process

/-- What happens in a step of the system. -/
inductive Occurrence where
  | request (r : WebRequest) (answer : WebResponse)
  | clock
  | boot (w : WorkerId)
  | recover (w : WorkerId)
  | call (w : WorkerId)
  | work (w : WorkerId) (e : Ev)
  | ended (w : WorkerId)
  | heartbeat (w : WorkerId)
  | crash (w : WorkerId)
  | leave (w : WorkerId)

namespace System

/-- The system with another world and another state of one process. -/
def set (S : System) (s : World) (w : WorkerId) (p : Option Process) : System where
  world := s
  process := Function.update S.process w p

/-- The world that was set. -/
@[simp]
theorem set_world (S : System) (s : World) (w : WorkerId) (p : Option Process) :
    (S.set s w p).world = s := rfl

/-- The process that was set. -/
@[simp]
theorem set_process_self (S : System) (s : World) (w : WorkerId) (p : Option Process) :
    (S.set s w p).process w = p := Function.update_self ..

/-- The other processes are as they were. -/
theorem set_process_ne (S : System) (s : World) {w w' : WorkerId} (h : w' ≠ w)
    (p : Option Process) : (S.set s w p).process w' = S.process w' := Function.update_of_ne h ..

/-- The steps of the system. -/
inductive Step [Unicode] : System → Occurrence → System → Prop
  | request (S : System) (r : WebRequest) :
      Step S (.request r (handle S.world r).1) { S with world := (handle S.world r).2 }
  | clock (S : System) (seconds : ℕ) :
      Step S .clock { S with world := { S.world with now := S.world.now + seconds } }
  | boot (S : System) (cfg : WorkerConfig) (s' : World) (hfree : S.process cfg.workerId = none)
      (hlease : recordWorkerStart cfg.workerId S.world = .ok ((), s')) :
      Step S (.boot cfg.workerId) (S.set s' cfg.workerId (some (.starting cfg)))
  | recover (S : System) (w : WorkerId) (cfg : WorkerConfig)
      (hw : S.process w = some (.starting cfg)) :
      Step S (.recover w) (S.set (recoverInterruptedJobs S.world) w (some (.idle cfg)))
  | call (S : System) (w : WorkerId) (cfg : WorkerConfig) (hw : S.process w = some (.idle cfg)) :
      Step S (.call w) (S.set S.world w (some (.running cfg (processNext cfg ()) [])))
  | work (S : System) (w : WorkerId) (cfg : WorkerConfig) (p p' : Round) (tr : List Ev) (e : Ev)
      (s' : World) (hw : S.process w = some (.running cfg p tr))
      (hstep : Prog.Step S.world p e s' p') :
      Step S (.work w e) (S.set s' w (some (.running cfg p' (tr ++ [e]))))
  | ended (S : System) (w : WorkerId) (cfg : WorkerConfig) (b : Bool) (tr : List Ev)
      (hw : S.process w = some (.running cfg (.ret (.ok b, ())) tr)) :
      Step S (.ended w) (S.set S.world w (some (.idle cfg)))
  | heartbeat (S : System) (w : WorkerId) (hw : S.process w ≠ none) :
      Step S (.heartbeat w) { S with world := recordWorkerHeartbeat w S.world }
  | crash (S : System) (w : WorkerId) : Step S (.crash w) (S.set S.world w none)
  | leave (S : System) (w : WorkerId) :
      Step S (.leave w) (S.set (releaseWorkerLease w S.world) w none)

/-- A database as the migrations leave it, before any file is made. -/
structure Initial (s : World) : Prop where
  jobs : s.jobs = Table.empty
  lock : s.lock = none
  backups : s.backups = Table.empty
  localFiles : s.localFiles = fun _ => none
  remoteFiles : s.remoteFiles = fun _ => none

/-- What happened so far, each occurrence with the world after it. -/
abbrev History := List (Occurrence × World)

/-- A condition on the steps of a run. -/
abbrev Policy := System → Occurrence → Prop

/-- The runs from a database `s₀` whose steps all meet a policy. -/
inductive Run [Unicode] (allowed : Policy) (s₀ : World) : History → System → Prop
  | start (h : Initial s₀) : Run allowed s₀ [] ⟨s₀, fun _ => none⟩
  | step {h : History} {S S' : System} {o : Occurrence} : Run allowed s₀ h S → allowed S o →
      Step S o S' → Run allowed s₀ (h ++ [(o, S'.world)]) S'

/-- Every run. -/
def anyPolicy : Policy := fun _ _ => True

end System

/-- The job claimed in a round. -/
def claimedIn (tr : List Ev) : Option JobId :=
  tr.findSome? fun
    | .tx (.claim j) => j
    | _ => none

/-- A round claims one job, and goes on to work on it. -/
theorem claimedIn_append {tr : List Ev} {j : JobId} (h : claimedIn tr = some j) (tr' : List Ev) :
    claimedIn (tr ++ tr') = some j := by
  rw [claimedIn] at h ⊢
  rw [List.findSome?_append, h]
  rfl

end PalworldManager
