/-
The request handlers, the second half of `a64fx_hwb_ioctl.c`.

Each request has a function that does the work under `dev_lock` and an ioctl
entry point that copies its argument from user space before and back after. The
argument structures come from `fujitsu_hpc_ioctl.h`, which is not part of the
repository: `cmg` and `bb` are unsigned bytes, `window` is a signed one. A copy
that faults is a `none` on the way in and a `false` on the way out.
-/
import A64fxHwb.Ioctl

set_option autoImplicit false

namespace A64fxHwb

open BitWord

variable {hw : Machine}

/-! ## The ioctl arguments -/

structure fujitsu_hwb_ioc_pe_info where
  cmg : BitVec 8
  ppe : BitVec 8
  deriving DecidableEq, Repr

structure fujitsu_hwb_ioc_bb_ctl where
  cmg : BitVec 8
  bb : BitVec 8
  deriving DecidableEq, Repr

structure fujitsu_hwb_ioc_bw_ctl where
  bb : BitVec 8
  window : BitVec 8
  deriving DecidableEq, Repr

/-- A user pointer to an argument: what `copy_from_user` reads through it, and
whether `copy_to_user` can write through it. -/
structure UserArg (α : Type) where
  read : Option α
  writable : Bool

/-- What an ioctl leaves behind: its return value, and what it wrote to user
space. -/
structure Reply where
  err : ℤ
  pe_info : Option fujitsu_hwb_ioc_pe_info := none
  bb_ctl : Option fujitsu_hwb_ioc_bb_ctl := none
  bw_ctl : Option fujitsu_hwb_ioc_bw_ctl := none
  deriving DecidableEq, Repr

/-! ## PE information -/

/-- `oss_a64fx_hwb_get_peinfo_ioctl`. -/
def oss_a64fx_hwb_get_peinfo_ioctl (c : Call hw) (arg : UserArg fujitsu_hwb_ioc_pe_info)
    (s : Kernel) : Except Fault (Reply × Kernel) :=
  match arg.read with
  | none => .ok ({ err := -1 }, s)
  | some _ =>
    let (cmg, ppe) := hw.read_peinfo c.cpu
    if arg.writable then
      .ok ({ err := 0, pe_info := some { cmg := cmg.val, ppe := ppe } }, s)
    else .ok ({ err := -1 }, s)

/-! ## BB_ALLOC -/

/-- `oss_a64fx_hwb_allocate` from `cmgdev = &dev->cmgs[cmg]` to its label. -/
def oss_a64fx_hwb_allocate_blade (c : Call hw) (cmg : ℤ) (cpumask : cpumask_t)
    (taskmap : a64fx_task_mapping) (s : Kernel) : Except Fault ((ℤ × Option ℕ) × Kernel) := do
  -- the caller's bound lets `MAX_NUM_CMG` itself pass
  let cmg ← cmgs_ptr cmg
  let bit := firstZero (s.dev.cmgs cmg).bb_active MAX_BB_PER_CMG
  if bit < s.dev.num_bb_per_cmg then
    -- the pointer is not looked at, so a failed `kmalloc` goes unnoticed
    let (_, s) ← register_allocation c cmg taskmap bit cpumask s
    return ((0, some bit), s)
  else return ((-ENODEV, none), s)

/-- The group's mapping, created when there is none yet. -/
def oss_a64fx_hwb_allocate_taskmap (c : Call hw) (s : Kernel) :
    Option a64fx_task_mapping × Kernel :=
  match get_taskmap s.dev c.task with
  | some taskmap => (some taskmap, s)
  | none => new_taskmap c c.task s

/-- `oss_a64fx_hwb_allocate`. The second output is what it stores to `*blade`. -/
def oss_a64fx_hwb_allocate (c : Call hw) (cmg : ℤ) (cpumask : cpumask_t) (s : Kernel) :
    Except Fault ((ℤ × Option ℕ) × Kernel) := do
  if cmg < 0 ∨ cmg > MAX_NUM_CMG then return ((-EINVAL, none), s)
  else
    let s ← spin_lock_dev s
    let (taskmap, s) := oss_a64fx_hwb_allocate_taskmap c s
    let (ret, s) ←
      match taskmap with
      | none => pure ((-1, none), s)
      | some taskmap => oss_a64fx_hwb_allocate_blade c cmg cpumask taskmap s
    let s ← spin_unlock_dev s
    return (ret, s)

/-- The argument of the allocate ioctl: the structure, and the mask behind its
`pemask` pointer. -/
structure AllocArg extends UserArg fujitsu_hwb_ioc_bb_ctl where
  pemask : Option (BitVec 64)

/-- The loop that copies the user's mask into a `struct cpumask`. -/
def clean_cpumask (mask : BitVec 64) : cpumask_t :=
  (for_each_cpu mask).foldl (fun clean cpu => cpumask_set_cpu cpu clean) 0

/-- `oss_a64fx_hwb_allocate_ioctl`. -/
def oss_a64fx_hwb_allocate_ioctl (c : Call hw) (arg : AllocArg) (s : Kernel) :
    Except Fault (Reply × Kernel) := do
  match arg.read, arg.pemask with
  | none, _ => return ({ err := -EINVAL }, s)
  | some _, none => return ({ err := -EINVAL }, s)
  | some _, some mask =>
    let cmg_id := check_cpumask c.online s.dev (clean_cpumask mask)
    if cmg_id < 0 then return ({ err := -EINVAL }, s)
    else
      let ((err, blade), s) ← oss_a64fx_hwb_allocate c cmg_id (clean_cpumask mask) s
      match blade with
      | none => return ({ err := err }, s)
      | some bb_id =>
        if arg.writable then
          return ({ err := 0, bb_ctl := some { cmg := BitVec.ofInt 8 cmg_id, bb := bb_id } }, s)
        else
          -- the blade stays allocated
          return ({ err := -1 }, s)

/-! ## BB_FREE -/

/-- The part of `oss_a64fx_hwb_free` that unassigns the caller's CPU, for a thread
of the group that is not the one in the mapping: `pe` is the CPU's core mapping,
`alloc` the allocation whose `assign_mask` contains it. `ainfo` leaves `window`
to its initialisation. -/
def oss_a64fx_hwb_free_unassign (c : Call hw) (cmg8 : Fin MAX_NUM_CMG)
    (pe : Option (Fin MAX_PE_PER_CMG)) (taskmap : a64fx_task_mapping)
    (alloc : a64fx_task_allocation) (s : Kernel) :
    Except Fault (a64fx_task_allocation × Kernel) := do
  let pe ← pemap_deref pe
  let pemap := (s.dev.cmgs cmg8).pe_map pe
  let ainfo : hwb_assign_info := { cpu := pemap.cpu_id, cmg := alloc.cmg, blade := 0, valid := 0 }
  let ppe ← window_ptr pemap.ppe_id
  let bw_map ← clear_bit (alloc.window ppe) pemap.bw_map
  -- neither index is checked against `A64FX_HWB_UNASSIGNED_WIN`
  let w ← win_blades_ptr (alloc.window ppe)
  let win_blades := Function.update pemap.win_blades w A64FX_HWB_UNASSIGNED_WIN
  let alloc := { alloc with
    window := Function.update alloc.window ppe A64FX_HWB_UNASSIGNED_WIN
    assign_mask := cpumask_clear_cpu c.cpu alloc.assign_mask
    assign_count := alloc.assign_count - 1 }
  let dev := s.dev.with_cmg cmg8 fun d =>
    d.with_pe pe fun p => { p with bw_map := bw_map, win_blades := win_blades }
  let s := { s with dev := dev.store_alloc taskmap alloc }
  return (alloc, smp_call_function_single c pemap.cpu_id (oss_a64fx_hwb_assign_func ainfo) s)

/-- The rest of that branch: the caller's CPU leaves the blade, which is released
with its last CPU. -/
def oss_a64fx_hwb_free_leave (c : Call hw) (cmg : Fin MAX_NUM_CMG)
    (taskmap : a64fx_task_mapping) (alloc : a64fx_task_allocation) (s : Kernel) :
    Except Fault Kernel := do
  let alloc := { alloc with cpumask := cpumask_clear_cpu c.cpu alloc.cpumask }
  let s := { s with dev := s.dev.store_alloc taskmap alloc }
  let info : hwb_allocate_info :=
    { blade := alloc.blade, cmg := alloc.cmg
      ppemask := cpumask_to_ppemask (s.dev.cmgs cmg) alloc.cpumask }
  -- without its last CPU the mask is empty, and the register write refuses it
  let s := smp_call_function_any c (s.dev.cmgs cmg).cmgmask
    (oss_a64fx_hwb_allocate_func hw info) s
  if cpumask_weight alloc.cpumask = 0 then
    let s ← free_allocation c cmg taskmap alloc s
    unregister_if_empty c taskmap s
  else return s

/-- The branch of `oss_a64fx_hwb_free` for a thread of the group that is not the
one in the mapping. -/
def oss_a64fx_hwb_free_withdraw (c : Call hw) (cmg : Fin MAX_NUM_CMG)
    (taskmap : a64fx_task_mapping) (alloc : a64fx_task_allocation) (s : Kernel) :
    Except Fault Kernel := do
  -- no `put_cpu` follows on any path
  let s := get_cpu s
  let (cmg8, ppe8) := hw.read_peinfo c.cpu
  let pe := get_pemap s.dev cmg8 ppe8
  if cpumask_test_cpu c.cpu alloc.cpumask then
    let (alloc, s) ←
      if cpumask_test_cpu c.cpu alloc.assign_mask then
        oss_a64fx_hwb_free_unassign c cmg8 pe taskmap alloc s
      else pure (alloc, s)
    oss_a64fx_hwb_free_leave c cmg taskmap alloc s
  else return s

/-- `oss_a64fx_hwb_free` between its lock and its label, for a group that has a
mapping. -/
def oss_a64fx_hwb_free_blade (c : Call hw) (cmg_id blade : ℤ) (taskmap : a64fx_task_mapping)
    (s : Kernel) : Except Fault (ℤ × Kernel) := do
  let cmg ← cmgs_ptr cmg_id
  match get_allocation (s.dev.cmgs cmg) taskmap blade with
  | none => return (-EINVAL, s)
  | some alloc =>
    if c.task.pid = taskmap.task.pid then
      let s ← free_allocation c cmg taskmap alloc s
      let s ← unregister_if_empty c taskmap s
      return (0, s)
    else if c.task.tgid = taskmap.task.tgid then
      let s ← oss_a64fx_hwb_free_withdraw c cmg taskmap alloc s
      return (0, s)
    else return (-EINVAL, s)

/-- `oss_a64fx_hwb_free`. -/
def oss_a64fx_hwb_free (c : Call hw) (cmg_id blade : ℤ) (s : Kernel) :
    Except Fault (ℤ × Kernel) := do
  let s ← spin_lock_dev s
  let (err, s) ←
    match get_taskmap s.dev c.task with
    | none => pure (-EINVAL, s)
    | some taskmap => oss_a64fx_hwb_free_blade c cmg_id blade taskmap s
  let s ← spin_unlock_dev s
  return (err, s)

/-- `oss_a64fx_hwb_free_ioctl`. -/
def oss_a64fx_hwb_free_ioctl (c : Call hw) (arg : UserArg fujitsu_hwb_ioc_bb_ctl) (s : Kernel) :
    Except Fault (Reply × Kernel) := do
  match arg.read with
  | none => return ({ err := -1 }, s)
  | some ioc =>
    let (err, s) ← oss_a64fx_hwb_free c ioc.cmg.toNat ioc.bb.toNat s
    if err ≠ 0 then return ({ err := err }, s)
    else if arg.writable then return ({ err := 0, bb_ctl := some ioc }, s)
    else return ({ err := -1 }, s)

/-! ## BW_ASSIGN -/

/-- The choice of the window in `oss_a64fx_hwb_assign_blade`. `none` is the exit
with `-EINVAL`. -/
def oss_a64fx_hwb_assign_window (c : Call hw) (window : ℤ) (recorded : ℤ) (bw_map : BitVec 64) :
    Except Fault (Option ℤ) := do
  if window < 0 then
    if recorded = A64FX_HWB_UNASSIGNED_WIN then return some (firstZero bw_map MAX_BW_PER_CMG)
    else
      -- the window this CPU uses already
      let used ← test_bit c recorded bw_map
      if used then return some recorded else return none
  else
    let used ← test_bit c window bw_map
    if used then return none else return some window

/-- `oss_a64fx_hwb_assign_blade` under the CMG's lock: `pe` is the caller's core
mapping and `alloc` the allocation of its group for the blade. -/
def oss_a64fx_hwb_assign_locked (c : Call hw) (cmg : Fin MAX_NUM_CMG)
    (pe : Option (Fin MAX_PE_PER_CMG)) (blade window : ℤ) (taskmap : a64fx_task_mapping)
    (alloc : a64fx_task_allocation) (s : Kernel) : Except Fault ((ℤ × Option ℤ) × Kernel) := do
  let s ← spin_lock_cmg cmg s
  if !cpumask_test_cpu c.cpu alloc.cpumask then
    let s ← spin_unlock_cmg cmg s
    return ((-ENODEV, none), s)
  else
    let pe ← pemap_deref pe
    let pemap := (s.dev.cmgs cmg).pe_map pe
    let ppe ← window_ptr pemap.ppe_id
    let chosen ← oss_a64fx_hwb_assign_window c window (alloc.window ppe) pemap.bw_map
    match chosen with
    | none =>
      let s ← spin_unlock_cmg cmg s
      return ((-EINVAL, none), s)
    | some window =>
      let free ←
        if window ≥ 0 ∧ window < MAX_BW_PER_CMG then do
          let used ← test_bit c window pemap.bw_map
          pure (!used)
        else pure false
      if free then
        let info : hwb_assign_info :=
          { cpu := pemap.cpu_id, window := window, cmg := cmg.val, blade := blade, valid := 1 }
        let s := smp_call_function_single c pemap.cpu_id (oss_a64fx_hwb_assign_func info) s
        let bw_map ← set_bit window pemap.bw_map
        let alloc := { alloc with
          window := Function.update alloc.window ppe window
          assign_mask := cpumask_set_cpu pemap.cpu_id.toNat alloc.assign_mask
          assign_count := alloc.assign_count + 1 }
        let dev := s.dev.with_cmg cmg fun d => d.with_pe pe fun p => { p with bw_map := bw_map }
        let s ← spin_unlock_cmg cmg { s with dev := dev.store_alloc taskmap alloc }
        return ((0, some window), s)
      else
        -- `err` is still `-ENODEV` here, also for a window that is to be reused
        let s ← spin_unlock_cmg cmg s
        return ((-ENODEV, none), s)

/-- `oss_a64fx_hwb_assign_blade` between `get_cpu` and its label. -/
def oss_a64fx_hwb_assign_find (c : Call hw) (blade window : ℤ) (s : Kernel) :
    Except Fault ((ℤ × Option ℤ) × Kernel) :=
  match get_taskmap s.dev c.task with
  | none => .ok ((-ENODEV, none), s)
  | some taskmap =>
    let (cmg, ppe) := hw.read_peinfo c.cpu
    let pe := get_pemap s.dev cmg ppe
    match get_allocation (s.dev.cmgs cmg) taskmap blade with
    | none => .ok ((-ENODEV, none), s)
    | some alloc => oss_a64fx_hwb_assign_locked c cmg pe blade window taskmap alloc s

/-- `oss_a64fx_hwb_assign_blade`. The second output is what it stores to
`*outwindow`. -/
def oss_a64fx_hwb_assign_blade (c : Call hw) (blade window : ℤ) (s : Kernel) :
    Except Fault ((ℤ × Option ℤ) × Kernel) := do
  if cpumask_weight c.cpus_mask > 1 then return ((-EINVAL, none), s)
  else
    let s ← spin_lock_dev s
    let (ret, s) ← oss_a64fx_hwb_assign_find c blade window (get_cpu s)
    let s ← spin_unlock_dev (put_cpu s)
    return (ret, s)

/-- `oss_a64fx_hwb_assign_blade_ioctl`. -/
def oss_a64fx_hwb_assign_blade_ioctl (c : Call hw) (arg : UserArg fujitsu_hwb_ioc_bw_ctl)
    (s : Kernel) : Except Fault (Reply × Kernel) := do
  match arg.read with
  | none => return ({ err := -1 }, s)
  | some ioc =>
    let ((err, win_out), s) ← oss_a64fx_hwb_assign_blade c ioc.bb.toNat ioc.window.toInt s
    if err ≠ 0 then return ({ err := err }, s)
    else if arg.writable then
      let window := BitVec.ofInt 8 (win_out.getD 0)
      return ({ err := 0, bw_ctl := some { ioc with window := window } }, s)
    else return ({ err := -1 }, s)

/-! ## BW_UNASSIGN -/

/-- `oss_a64fx_hwb_unassign_blade` under the CMG's lock, for the window `window`
the allocation records at `ppe`. -/
def oss_a64fx_hwb_unassign_locked (c : Call hw) (cmg : Fin MAX_NUM_CMG) (pe : Fin MAX_PE_PER_CMG)
    (ppe : Fin MAX_PE_PER_CMG) (blade window : ℤ) (taskmap : a64fx_task_mapping)
    (alloc : a64fx_task_allocation) (s : Kernel) : Except Fault (ℤ × Kernel) := do
  let s ← spin_lock_cmg cmg s
  let pemap := (s.dev.cmgs cmg).pe_map pe
  let used ← test_bit c window pemap.bw_map
  let bb := match read_assign_sync_wr c.cpu window s.regs with
    | .ok (_, bb) => bb
    | .error _ => 0
  if used ∧ bb = blade then
    let info : hwb_assign_info :=
      { cpu := pemap.cpu_id, window := window, cmg := cmg.val, blade := 0, valid := 0 }
    -- the source clears the bit before and after the call
    let bw_map ← clear_bit window pemap.bw_map
    let s := smp_call_function_single c pemap.cpu_id (oss_a64fx_hwb_assign_func info) s
    let bw_map ← clear_bit window bw_map
    let alloc := { alloc with
      window := Function.update alloc.window ppe A64FX_HWB_UNASSIGNED_WIN
      assign_mask := cpumask_clear_cpu pemap.cpu_id.toNat alloc.assign_mask
      assign_count := alloc.assign_count - 1 }
    let dev := s.dev.with_cmg cmg fun d => d.with_pe pe fun p => { p with bw_map := bw_map }
    let s ← spin_unlock_cmg cmg { s with dev := dev.store_alloc taskmap alloc }
    return (0, s)
  else
    let s ← spin_unlock_cmg cmg s
    return (-EINVAL, s)

/-- `oss_a64fx_hwb_unassign_blade` between `get_cpu` and its label. The window the
user gives is overwritten by the recorded one before anything reads it. -/
def oss_a64fx_hwb_unassign_find (c : Call hw) (blade : ℤ) (s : Kernel) :
    Except Fault (ℤ × Kernel) :=
  match get_taskmap s.dev c.task with
  | none => .ok (-ENODEV, s)
  | some taskmap =>
    let (cmg, ppe) := hw.read_peinfo c.cpu
    let pe := get_pemap s.dev cmg ppe
    match get_allocation (s.dev.cmgs cmg) taskmap blade with
    | none => .ok (-EINVAL, s)
    | some alloc => do
      let pe ← pemap_deref pe
      let ppe ← window_ptr ((s.dev.cmgs cmg).pe_map pe).ppe_id
      let window := alloc.window ppe
      if window ≥ 0 ∧ window < MAX_BW_PER_CMG then
        oss_a64fx_hwb_unassign_locked c cmg pe ppe blade window taskmap alloc s
      else return (-EINVAL, s)

/-- `oss_a64fx_hwb_unassign_blade`. -/
def oss_a64fx_hwb_unassign_blade (c : Call hw) (blade : ℤ) (s : Kernel) :
    Except Fault (ℤ × Kernel) := do
  if cpumask_weight c.cpus_mask > 1 then return (-EINVAL, s)
  else
    let s ← spin_lock_dev s
    let (err, s) ← oss_a64fx_hwb_unassign_find c blade (get_cpu s)
    let s ← spin_unlock_dev (put_cpu s)
    return (err, s)

/-- `oss_a64fx_hwb_unassign_blade_ioctl`. -/
def oss_a64fx_hwb_unassign_blade_ioctl (c : Call hw) (arg : UserArg fujitsu_hwb_ioc_bw_ctl)
    (s : Kernel) : Except Fault (Reply × Kernel) := do
  match arg.read with
  | none => return ({ err := -1 }, s)
  | some ioc =>
    let (err, s) ← oss_a64fx_hwb_unassign_blade c ioc.bb.toNat s
    if err ≠ 0 then return ({ err := err }, s)
    else if arg.writable then return ({ err := 0, bw_ctl := some ioc }, s)
    else return ({ err := -1 }, s)

/-! ## RESET -/

/-- `asm_reset_func`. -/
def asm_reset_func (hw : Machine) (cpu : ℕ) (regs : hwb_regs) : hwb_regs :=
  let regs := (List.range MAX_BW_PER_CMG).foldl (fun regs (i : ℕ) =>
    (write_bst_sync_wr cpu i 0 (write_assign_sync_wr cpu i 0 0 regs).2).2) regs
  -- these writes are refused, so the blade registers keep their masks
  let regs := (List.range MAX_BB_PER_CMG).foldl (fun regs (i : ℕ) =>
    (write_init_sync_bb hw cpu i 0 regs).2) regs
  write_hwb_ctrl cpu 0 0 regs

/-- The walk of one mapping's allocations in `oss_a64fx_hwb_reset_ioctl`. -/
def reset_allocs (taskmap : a64fx_task_mapping) : a64fx_task_mapping :=
  taskmap.allocs.foldl (fun m alloc =>
    { m with
      allocs := Keyed.erase a64fx_task_allocation.place alloc.place m.allocs
      num_allocs := m.num_allocs - 1 }) taskmap

/-- The walk of `task_list` in `oss_a64fx_hwb_reset_ioctl`. -/
def reset_task_list (dev : a64fx_hwb_device) : a64fx_hwb_device :=
  dev.task_list.foldl (fun dev taskmap =>
    let dev := dev.with_taskmap taskmap reset_allocs
    { dev with
      task_list := Keyed.erase a64fx_task_mapping.group taskmap.group dev.task_list
      num_tasks := dev.num_tasks - 1 }) dev

/-- `oss_a64fx_hwb_reset_ioctl`, which does not wait for `asm_reset_func` on the CPUs
`late`. -/
def oss_a64fx_hwb_reset_ioctl (c : Call hw) (late : cpumask_t) (s : Kernel) :
    Except Fault (Reply × Kernel) := do
  let s ← spin_lock_dev s
  let s := on_each_cpu c (asm_reset_func hw) late s
  let dev := reset_task_list s.dev
  let dev := { dev with
    num_tasks := 0
    active_count := 0
    cmgs := fun i =>
      { dev.cmgs i with
        bb_active := 0
        -- `win_blades` is not part of it
        pe_map := fun j => { (dev.cmgs i).pe_map j with bw_map := 0 } } }
  let s ← spin_unlock_dev { s with dev := dev }
  return ({ err := 0 }, s)

end A64fxHwb
