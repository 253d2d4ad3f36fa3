/-
Module load and removal, open, close and the ioctl dispatcher: `a64fx_hwb_main.c`, and what
it uses of `a64fx_hwb_cmg.c`.

The outcomes of the kernel calls that can make `oss_a64fx_hwb_init` fail are the
fields of a `Load`, next to the CPUs that are online while the module is loaded.
The `sysfs` objects it creates hold no state of the driver, so `destroy_cmg` and
the labels that remove them leave the model's state alone.
-/
import A64fxHwb.Handlers

set_option autoImplicit false

namespace A64fxHwb

open BitWord

variable {hw : Machine}

/-! ## Open and close -/

/-- `oss_a64fx_hwb_open`. -/
def oss_a64fx_hwb_open (s : Kernel) : Except Fault (Reply × Kernel) := do
  let s ← spin_lock_dev s
  let s := { s with dev := { s.dev with active_count := s.dev.active_count + 1 } }
  let s ← spin_unlock_dev s
  return ({ err := 0 }, s)

/-- `oss_a64fx_hwb_close`. -/
def oss_a64fx_hwb_close (c : Call hw) (s : Kernel) : Except Fault (Reply × Kernel) := do
  let s ← spin_lock_dev s
  let s ←
    if s.dev.active_count > 0 then
      let s := { s with dev := { s.dev with active_count := s.dev.active_count - 1 } }
      match get_taskmap s.dev c.task with
      | some taskmap =>
        -- a close by another thread of the group leaves the mapping
        if c.task.pid = taskmap.task.pid then unregister_task c taskmap s else pure s
      | none => pure s
    else pure s
  let s ← spin_unlock_dev s
  return ({ err := 0 }, s)

/-! ## The ioctl dispatcher -/

/-- An ioctl number with its argument. -/
inductive ioctl_request
  | GET_PE_INFO (arg : UserArg fujitsu_hwb_ioc_pe_info)
  | BW_ASSIGN (arg : UserArg fujitsu_hwb_ioc_bw_ctl)
  | BW_UNASSIGN (arg : UserArg fujitsu_hwb_ioc_bw_ctl)
  | BB_ALLOC (arg : AllocArg)
  | BB_FREE (arg : UserArg fujitsu_hwb_ioc_bb_ctl)
  | RESET
  | other

/-- `oss_a64fx_hwb_ioctl`; `late` is for the RESET. -/
def oss_a64fx_hwb_ioctl (c : Call hw) (late : cpumask_t) (ioc : ioctl_request) (s : Kernel) :
    Except Fault (Reply × Kernel) :=
  match ioc with
  | .GET_PE_INFO arg => oss_a64fx_hwb_get_peinfo_ioctl c arg s
  | .BW_ASSIGN arg => oss_a64fx_hwb_assign_blade_ioctl c arg s
  | .BW_UNASSIGN arg => oss_a64fx_hwb_unassign_blade_ioctl c arg s
  | .BB_ALLOC arg => oss_a64fx_hwb_allocate_ioctl c arg s
  | .BB_FREE arg => oss_a64fx_hwb_free_ioctl c arg s
  | .RESET => do
    -- the case has no `break` and runs on into the default
    let (_, s) ← oss_a64fx_hwb_reset_ioctl c late s
    return ({ err := -ENOTTY }, s)
  | .other => .ok ({ err := -ENOTTY }, s)

/-! ## Module load -/

/-- The circumstances of a module load. -/
structure Load (hw : Machine) where
  /-- The CPUs online during the load. -/
  online : cpumask_t
  online_present : ∀ k, online.getLsbD k = true → hw.present.getLsbD k = true
  misc_register : ℤ
  device_create_file : ℤ
  kobject_add : Fin MAX_NUM_CMG → ℤ
  sysfs_create_group : Fin MAX_NUM_CMG → ℤ

/-- What `memset(pe_map, -1, ...)` leaves in every entry. -/
def cleared_core_mapping : a64fx_core_mapping where
  cpu_id := -1
  cmg_id := -1
  ppe_id := -1
  bw_map := BitVec.allOnes 64
  win_blades := fun _ => -1

/-- The loop of `memset` calls in `oss_a64fx_hwb_init`. -/
def clear_pe_maps (dev : a64fx_hwb_device) : a64fx_hwb_device :=
  { dev with cmgs := fun i => { dev.cmgs i with pe_map := fun _ => cleared_core_mapping } }

/-- `fill_pe_map`, on one CPU. -/
def fill_pe_map (hw : Machine) (dev : a64fx_hwb_device) (cpu : ℕ) :
    Except Fault a64fx_hwb_device := do
  let (cmg, ppe) := hw.read_peinfo cpu
  let i ← pe_map_ptr ppe
  return dev.with_cmg cmg fun d => d.with_pe i fun p =>
    { p with cpu_id := cpu, cmg_id := cmg.val, ppe_id := ppe, bw_map := 0 }

/-- The number of filled entries of one CMG, as `get_max_pe_per_cmg` counts them. -/
def count_pes (cmg : a64fx_cmg_device) : ℕ :=
  (List.finRange MAX_PE_PER_CMG).countP fun j => decide ((cmg.pe_map j).cpu_id ≥ 0)

/-- `get_max_pe_per_cmg`. -/
def get_max_pe_per_cmg (dev : a64fx_hwb_device) : ℕ × a64fx_hwb_device :=
  let dev := { dev with cmgs := fun i => { dev.cmgs i with num_pes := count_pes (dev.cmgs i) } }
  ((List.finRange MAX_NUM_CMG).foldl (fun maxcount i => max maxcount (dev.cmgs i).num_pes) 0, dev)

/-- The four assignments to the device's limits in `oss_a64fx_hwb_init`. -/
def init_limits (dev : a64fx_hwb_device) : a64fx_hwb_device :=
  let (maxcount, dev) := get_max_pe_per_cmg { dev with num_cmgs := MAX_NUM_CMG }
  { dev with
    max_pe_per_cmg := maxcount
    num_bb_per_cmg := MAX_BB_PER_CMG
    num_bw_per_cmg := MAX_BW_PER_CMG }

/-- `init_cmgmask`. -/
def init_cmgmask (cmg : a64fx_cmg_device) : Except Fault a64fx_cmg_device := do
  let cmgmask ← cmg.slots.foldlM (fun mask i =>
    let cpu := (cmg.pe_map i).cpu_id
    if 0 ≤ cpu ∧ cpu < nr_cpu_ids then pure (cpumask_set_cpu cpu.toNat mask)
    else .error (.cpu_number cpu)) cmg.cmgmask
  return { cmg with cmgmask := cmgmask }

/-- `initialize_cmg`. -/
def initialize_cmg (l : Load hw) (i : Fin MAX_NUM_CMG) (s : Kernel) :
    Except Fault (ℤ × Kernel) := do
  let cmg := { s.dev.cmgs i with bb_active := 0, cmg_id := i.val }
  let locks := { s.locks with cmg_lock := Function.update s.locks.cmg_lock i false }
  let cmg ← init_cmgmask cmg
  let s := { s with dev := s.dev.with_cmg i fun _ => cmg, locks := locks }
  if l.kobject_add i ≠ 0 then return (l.kobject_add i, s)
  else if l.sysfs_create_group i ≠ 0 then return (l.sysfs_create_group i, s)
  else return (0, s)

/-- The loop over `initialize_cmg` in `oss_a64fx_hwb_init`, which a negative
value ends. -/
def initialize_cmgs (l : Load hw) :
    List (Fin MAX_NUM_CMG) → ℤ → Kernel → Except Fault (ℤ × Kernel)
  | [], err, s => .ok (err, s)
  | i :: rest, _, s => do
    let (err, s) ← initialize_cmg l i s
    if err < 0 then return (err, s) else initialize_cmgs l rest err s

structure hwb_ctrl_info where
  el0ae : ℤ
  el1ae : ℤ

/-- `oss_a64fx_hwb_ctrl_func`: it reads the two bits back into its argument. -/
def oss_a64fx_hwb_ctrl_func (x : hwb_ctrl_info × hwb_regs) (cpu : ℕ) :
    hwb_ctrl_info × hwb_regs :=
  let regs := write_hwb_ctrl cpu x.1.el0ae x.1.el1ae x.2
  let (el0ae, el1ae) := read_hwb_ctrl cpu regs
  ({ el0ae := el0ae, el1ae := el1ae }, regs)

/-- `oss_a64fx_hwb_init`. -/
def oss_a64fx_hwb_init (l : Load hw) (s : Kernel) : Except Fault (ℤ × Kernel) := do
  if l.misc_register ≠ 0 then return (l.misc_register, s)
  else if l.device_create_file ≠ 0 then return (l.device_create_file, s)
  else
    let dev ← (for_each_cpu l.online).foldlM (fill_pe_map hw) (clear_pe_maps s.dev)
    let s := { s with dev := init_limits dev }
    let (err, s) ← initialize_cmgs l (List.finRange MAX_NUM_CMG) 0 s
    if err < 0 then return (err, s)
    else
      -- one argument serves all CPUs: each gets what the one before read back
      let (_, regs) := (for_each_cpu l.online).foldl oss_a64fx_hwb_ctrl_func
        ({ el0ae := 1, el1ae := 1 }, s.regs)
      return (err, { s with regs := regs })

/-- `oss_a64fx_hwb_exit`, with the CPUs that are online then. The rest of it removes the
`sysfs` objects and the device. -/
def oss_a64fx_hwb_exit (online : cpumask_t) (s : Kernel) : Kernel :=
  let (_, regs) := (for_each_cpu online).foldl oss_a64fx_hwb_ctrl_func
    ({ el0ae := 0, el1ae := 0 }, s.regs)
  { s with regs := regs }

/-- `oss_a64fx_hwb_device` before any code has run. -/
def oss_a64fx_hwb_device : a64fx_hwb_device where
  num_cmgs := 0
  num_bb_per_cmg := 0
  num_bw_per_cmg := 0
  max_pe_per_cmg := 0
  active_count := 0
  num_tasks := 0
  task_list := []
  cmgs := fun _ =>
    { cmg_id := 0, num_pes := 0, bb_active := 0, cmgmask := 0
      pe_map := fun _ =>
        { cpu_id := 0, cmg_id := 0, ppe_id := 0, bw_map := 0, win_blades := fun _ => 0 } }

/-- The state the module is loaded into; `regs` is what the registers hold then. -/
def boot (regs : hwb_regs) : Kernel where
  dev := oss_a64fx_hwb_device
  regs := regs
  locks := Locks.free
  preempt_count := 0

end A64fxHwb
