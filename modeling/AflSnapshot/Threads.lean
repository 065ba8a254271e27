import AflSnapshot.Snapshot

/-! The loop of `recover_threads_snapshot` (`threads.c`) step by step, while other threads of the group exit. -/

namespace AflSnapshot

/-- The tasks of a thread group, the leader first, and what the loop does to them. -/
structure ThreadGroup where
  threads : List Nat
  pidAlive : Nat → Bool
  /-- How often a task was sent `SIGKILL`. -/
  sigkills : Nat → Nat
  /-- How often a reference to a task was taken, and dropped. -/
  gets : Nat → Nat
  puts : Nat → Nat

/-- The tasks after one in a list. -/
def following (t : Nat) : List Nat → List Nat
  | [] => []
  | u :: l => if u = t then l else following t l

namespace ThreadGroup
variable (leader : Nat) (g : ThreadGroup)

def getTaskStruct (t : Nat) : ThreadGroup := { g with gets := Function.update g.gets t (g.gets t + 1) }

def putTaskStruct (t : Nat) : ThreadGroup := { g with puts := Function.update g.puts t (g.puts t + 1) }

/-- `send_sig(SIGKILL, t, 1)`. -/
def sendSigkill (t : Nat) : ThreadGroup := { g with sigkills := Function.update g.sigkills t (g.sigkills t + 1) }

/-- The thread that runs the loop is left out. -/
def signal (tsk t : Nat) : ThreadGroup := if t ≠ tsk then g.sendSigkill t else g

/-- `next_thread`: the threads of a group are linked in a ring. -/
def nextThread (t : Nat) : Nat := (following t g.threads).headD leader

/-- `next_tid`. -/
def nextTid (start : Nat) : ThreadGroup × Option Nat :=
  let r : ThreadGroup × Option Nat :=
    if g.pidAlive start then
      let pos := g.nextThread leader start
      if pos = leader then (g, none) else (g.getTaskStruct pos, some pos)
    else (g, none)
  (r.1.putTaskStruct start, r.2)

/-- A thread exits. It is unlinked and has no process number any more, unless it is the leader, which stays as a zombie
    until the group is empty. -/
def exit (t : Nat) : ThreadGroup :=
  if t = leader then g
  else { g with threads := g.threads.erase t, pidAlive := Function.update g.pidAlive t false }

end ThreadGroup

/-- The group, and the loop with its `t`; whether `t` has been sent its signal. -/
structure ThreadsLoop where
  group : ThreadGroup
  t : Option Nat
  signalled : Bool

/-- What happens: the loop goes on by one of its two steps, or a thread exits. -/
inductive ThreadsEvent where
  | step
  | exit (t : Nat)
deriving DecidableEq

namespace ThreadsLoop
variable (leader tsk : Nat)

/-- `t = data->tsk->group_leader`, with a reference. -/
def start (g : ThreadGroup) : ThreadsLoop := ⟨g.getTaskStruct leader, some leader, false⟩

/-- The loop goes on: it sends a signal, or moves to the next thread. -/
def step (s : ThreadsLoop) : ThreadsLoop :=
  match s.t with
  | none => s
  | some t =>
    if s.signalled then
      let r := s.group.nextTid leader t
      ⟨r.1, r.2, false⟩
    else { s with group := s.group.signal tsk t, signalled := true }

/-- The thread that runs the loop does not exit meanwhile. -/
def happen (s : ThreadsLoop) : ThreadsEvent → ThreadsLoop
  | .step => s.step leader tsk
  | .exit t => if t ≠ tsk then { s with group := s.group.exit leader t } else s

end ThreadsLoop

/-- The group of a task. -/
def World.threadGroup (w : World) (leader : Nat) : ThreadGroup where
  threads := w.threads leader
  pidAlive t := (w.task t).pidAlive t
  sigkills _ := 0
  gets _ := 0
  puts _ := 0

end AflSnapshot
