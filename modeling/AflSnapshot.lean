import AflSnapshot.Lib.LinkRing
import AflSnapshot.Lib.Keyed
import AflSnapshot.Lib.Spans
import AflSnapshot.Lib.PageWalk
import AflSnapshot.Lib.Runs
import AflSnapshot.Types
import AflSnapshot.Ranges
import AflSnapshot.Pages
import AflSnapshot.Walk
import AflSnapshot.Sweep
import AflSnapshot.World
import AflSnapshot.Hooks
import AflSnapshot.Kernel
import AflSnapshot.Restore
import AflSnapshot.Files
import AflSnapshot.Snapshot
import AflSnapshot.Theorems.Filter
import AflSnapshot.Theorems.Selection
import AflSnapshot.Theorems.Sweep
import AflSnapshot.Theorems.Registry
import AflSnapshot.Theorems.Records
import AflSnapshot.Theorems.Memory
import AflSnapshot.Theorems.Faults
import AflSnapshot.Theorems.Restorable
import AflSnapshot.Theorems.Restoring
import AflSnapshot.Theorems.Mappings
import AflSnapshot.Theorems.Steady
import AflSnapshot.Theorems.Take
import AflSnapshot.Theorems.Taking
import AflSnapshot.Theorems.Commands
import AflSnapshot.Theorems.Descriptors
import AflSnapshot.Theorems.Sessions
import AflSnapshot.Theorems.Cycles
import AflSnapshot.Theorems.Remaps
import AflSnapshot.Theorems.Protections
import AflSnapshot.Theorems.Reachable
import AflSnapshot.Theorems.OpenFiles
import AflSnapshot.Theorems.TakeFailures
import AflSnapshot.Theorems.Histories
import AflSnapshot.Theorems.Answers
import AflSnapshot.Theorems.MappedBack
import AflSnapshot.Theorems.Interleavings
import AflSnapshot.Theorems.Rearming
import AflSnapshot.Theorems.Sharing
import AflSnapshot.Theorems.Isolation
import AflSnapshot.System
import AflSnapshot.Theorems.Caches
import AflSnapshot.Loading
import AflSnapshot.Starting
import AflSnapshot.Theorems.Breaks
import AflSnapshot.Theorems.Loading
import AflSnapshot.Theorems.Offsets
import AflSnapshot.Theorems.Permissions
import AflSnapshot.Theorems.References
import AflSnapshot.Theorems.Starting
import AflSnapshot.Theorems.Unloading
import AflSnapshot.Theorems.PrivateWrites
import AflSnapshot.Theorems.Objects
import AflSnapshot.Theorems.Threads
import AflSnapshot.Theorems.Joins
import AflSnapshot.Theorems.Listed
import AflSnapshot.Theorems.Progress
import AflSnapshot.Allocated
import AflSnapshot.Theorems.FreedOnce
import AflSnapshot.Theorems.Allocated
import AflSnapshot.Theorems.Checkpoint
import AflSnapshot.Theorems.HookList
import AflSnapshot.Theorems.Lifecycle
import AflSnapshot.Theorems.Represented
import AflSnapshot.Theorems.Simulation
import AflSnapshot.Theorems.Unselected
import AflSnapshot.Lib.Programs
import AflSnapshot.Theorems.Replay
import AflSnapshot.Theorems.Tracking
import AflSnapshot.Theorems.Processes
import AflSnapshot.Theorems.Spared
import AflSnapshot.Theorems.Confined
import AflSnapshot.Theorems.SharedPages
