import AflSnapshot.Snapshot

/-! The system with its tasks coming and going: a `task_struct` whose task is gone may become that of a new task, and
the hooks look tasks up on every CPU. -/

namespace AflSnapshot
namespace World
variable (w : World)

/-- The task is there, and its `do_exit` has not been passed on to the original. -/
def Running (t : Nat) : Prop := t < w.freshTask ∧ (w.task t).alive = true

instance (t : Nat) : Decidable (w.Running t) := inferInstanceAs (Decidable (_ ∧ _))

/-- `fork` by a single-threaded process whose child gets the `task_struct` `child`. -/
def forkAt (parent child : Nat) : World :=
  { World.fork parent { w with freshTask := child } with freshTask := max w.freshTask (child + 1) }

/-- A new thread in the group of `parent`, which shares its address space and its descriptor table. -/
def cloneAt (parent child : Nat) : World :=
  let task := w.task parent
  { w with
    fs := w.fs.addCount task.files 1
    task := Function.update w.task child { task with sigkill := false }
    freshTask := max w.freshTask (child + 1)
    threads := Function.update w.threads task.groupLeader (w.threads task.groupLeader ++ [child]) }

/-- A hook looks a task up. -/
def lookup (cpu tsk : Nat) : World := w.mapCore fun c => { c with reg := (c.reg.getTaskDataWithCache cpu tsk).1 }

end World

/-- What happens in the system. -/
inductive Deed where
  | move (env : Env) (tsk : Nat) (op : Op)
  | fork (parent child : Nat)
  | clone (parent child : Nat)
  | lookup (cpu tsk : Nat)

/-- A new task gets memory that holds no task; only tasks that are running act. -/
def World.happen (w : World) : Deed → World
  | .move env tsk op => if w.Running tsk then w.step env tsk op else w
  | .fork parent child => if w.Running parent ∧ child ≤ w.freshTask ∧ ¬w.Running child then w.forkAt parent child else w
  | .clone parent child => if w.Running parent ∧ child ≤ w.freshTask ∧ ¬w.Running child then w.cloneAt parent child else w
  | .lookup cpu tsk => w.lookup cpu tsk

end AflSnapshot
