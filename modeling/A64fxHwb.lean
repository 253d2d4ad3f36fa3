import A64fxHwb.Barrier
import A64fxHwb.Bits
import A64fxHwb.Device
import A64fxHwb.Keyed
import A64fxHwb.Loops
import A64fxHwb.Pool
import A64fxHwb.Runs
import A64fxHwb.Asm
import A64fxHwb.Kernel
import A64fxHwb.Ioctl
import A64fxHwb.Handlers
import A64fxHwb.Main
import A64fxHwb.System
import A64fxHwb.Table
import A64fxHwb.Boot
import A64fxHwb.Topology
import A64fxHwb.Bookkeeping
import A64fxHwb.Effects
import A64fxHwb.Invariant
import A64fxHwb.Micro
import A64fxHwb.Release
import A64fxHwb.Free
import A64fxHwb.Window
import A64fxHwb.Alloc
import A64fxHwb.Steps
import A64fxHwb.Execution
import A64fxHwb.Outcome
import A64fxHwb.Range
import A64fxHwb.Balance
import A64fxHwb.Ownership
import A64fxHwb.Windows
import A64fxHwb.Registers
import A64fxHwb.Deferred
import A64fxHwb.Blades
import A64fxHwb.Withdraw
import A64fxHwb.Failure
import A64fxHwb.Granted
import A64fxHwb.Isolation
import A64fxHwb.Reset
import A64fxHwb.Files
import A64fxHwb.Count
import A64fxHwb.Threads
import A64fxHwb.Owner
import A64fxHwb.Footprint
import A64fxHwb.Locality
import A64fxHwb.Caller
import A64fxHwb.Commute
import A64fxHwb.Live
import A64fxHwb.Harm
import A64fxHwb.Loading
import A64fxHwb.Interleaving
import A64fxHwb.Choice
import A64fxHwb.Masks
import A64fxHwb.Relinquish
import A64fxHwb.Ahead
import A64fxHwb.Elsewhere
import A64fxHwb.Undo
import A64fxHwb.Lease
import A64fxHwb.Manager
import A64fxHwb.Service
import A64fxHwb.Refinement
import A64fxHwb.Conformance
import A64fxHwb.Confinement
import A64fxHwb.Text
import A64fxHwb.Sysfs
import A64fxHwb.Shown
import A64fxHwb.Lifecycle
import A64fxHwb.Leak
import A64fxHwb.Recovery
import A64fxHwb.Scheme
import A64fxHwb.Rendezvous
import A64fxHwb.Picks
import A64fxHwb.Share
import A64fxHwb.Room
import A64fxHwb.Session
import A64fxHwb.Guarded
import A64fxHwb.Concurrent
