/-
The driver as a transition system.

A state is the driver's data with the registers, an event is one call into the
driver by some thread, and a run starts at a successful module load. `handle` is
the entry point of the event; an event that faults has no successor.
-/
import A64fxHwb.Main
import A64fxHwb.Runs

set_option autoImplicit false

namespace A64fxHwb

open Runs

variable {hw : Machine}

/-! ## Events -/

/-- What a thread can ask of the driver. -/
inductive Request
  | open
  | close
  | ioctl (ioc : ioctl_request)

/-- One call into the driver. -/
structure Event (hw : Machine) where
  call : Call hw
  request : Request

/-- A BB_FREE names one of the CMGs of the machine. Nothing in the driver checks
this; with any other number the call indexes past `dev->cmgs`. -/
def Event.CmgInRange (e : Event hw) : Prop :=
  ∀ arg ioc, e.request = .ioctl (.BB_FREE arg) → arg.read = some ioc → ioc.cmg.toNat < MAX_NUM_CMG

/-- The entry point of an event. A RESET has reset the registers of every CPU when it
returns; `Deferred` has the runs in which some CPUs come later. -/
def handle (e : Event hw) (s : Kernel) : Except Fault (Reply × Kernel) :=
  match e.request with
  | .open => oss_a64fx_hwb_open s
  | .close => oss_a64fx_hwb_close e.call s
  | .ioctl ioc => oss_a64fx_hwb_ioctl e.call 0 ioc s

/-! ## Runs -/

/-- The state `s` is what a successful load leaves, from registers that hold
`regs`. -/
def Loaded (l : Load hw) (regs : hwb_regs) (s : Kernel) : Prop :=
  oss_a64fx_hwb_init l (boot regs) = .ok (0, s)

/-- The driver after a load with registers in a state that satisfies `R`. -/
def driver (l : Load hw) (R : hwb_regs → Prop) : TransitionSystem Kernel (Event hw) where
  init s := ∃ regs, R regs ∧ Loaded l regs s
  step s e s' := e.CmgInRange ∧ ∃ reply, handle e s = .ok (reply, s')

/-- The PEs of each CMG fill the slots from 0 up: a CPU that is online at load
has all the places below its own taken by CPUs that are online at load. -/
def Packed (l : Load hw) : Prop :=
  ∀ k, l.online.getLsbD k = true → ∀ p < hw.ppe k,
    ∃ k', l.online.getLsbD k' = true ∧ hw.cmg k' = hw.cmg k ∧ hw.ppe k' = p

end A64fxHwb
