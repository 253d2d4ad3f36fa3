/-
What the manager does with each request.

`serve` is the driver without its tables: the reply of every request, with its error
code, and what becomes of the leases, said in terms of the book alone. It is a
specification, not a translation. Whatever the driver reads from a bitmap or a register
is a question to the book here: a blade is free when nobody has a lease of its place,
and a window when no lease seats the CPU there.
-/
import A64fxHwb.Manager

set_option autoImplicit false

namespace A64fxHwb

open BitWord Leasing

variable {hw : Machine}

/-- The leases, and the number of open files. -/
structure Manager where
  book : Book ℕ ℕ (ℕ × ℕ) ℕ ℕ
  files : ℤ

/-- The manager a state of the driver stands for. -/
def Kernel.manager (l : Load hw) (s : Kernel) : Manager where
  book := s.dev.book l
  files := s.dev.active_count

/-! ## Masks -/

/-- A mask that asks for a blade of CMG `cmg`: at least two CPUs, all of them online,
none known to sit on another CMG and one known to sit on this one. -/
def Asks (l : Load hw) (online : cpumask_t) (mask : cpumask_t) (cmg : Fin MAX_NUM_CMG) : Prop :=
  2 ≤ cpumask_weight mask ∧ Accepted l online cmg mask

open Classical in
/-- The CMG a mask asks for a blade of. -/
noncomputable def asked (l : Load hw) (online mask : cpumask_t) : Option (Fin MAX_NUM_CMG) :=
  (List.finRange MAX_NUM_CMG).find? fun cmg => decide (Asks l online mask cmg)

theorem asks_of_asked {l : Load hw} {online mask : cpumask_t} {cmg : Fin MAX_NUM_CMG}
    (h : asked l online mask = some cmg) : Asks l online mask cmg := by
  unfold asked at h
  simpa only [decide_eq_true_eq] using List.find?_some h

/-! ## The requests -/

namespace Manager

variable (l : Load hw) (c : Call hw) (m : Manager)

/-- BB_ALLOC on a CMG: the lowest free blade, which is leased if there is memory for it.
The group is enrolled even when there is none to be had. -/
noncomputable def allocate (mask : cpumask_t) (cmg : Fin MAX_NUM_CMG) : (ℤ × Option ℕ) × Manager :=
  if m.book.leader c.task.tgid = none ∧ c.kmalloc_taskmap = false then ((-1, none), m)
  else
    let book := m.book.enrol c.task.tgid c.task.pid
    match lowestFree (fun b => book.lease (cmg.val, b) ≠ none) MAX_BB_PER_CMG with
    | none => ((-ENODEV, none), { m with book := book })
    | some b =>
      let lease : Lease ℕ ℕ ℕ :=
        { group := c.task.tgid, members := { k | mask.getLsbD k = true }, seat := fun _ => none }
      ((0, some b), { m with
        book := if c.kmalloc_alloc then book.grant (cmg.val, b) lease else book })

/-- BB_ALLOC. -/
noncomputable def alloc (arg : AllocArg) : Reply × Manager :=
  match arg.read, arg.pemask with
  | some _, some mask =>
    match asked l c.online mask with
    | none => ({ err := -EINVAL }, m)
    | some cmg =>
      let (ret, m) := m.allocate c mask cmg
      (alloc_reply arg cmg.val ret, m)
  | _, _ => ({ err := -EINVAL }, m)

/-- BB_FREE: the leader gives the place back, another thread of the group takes its CPU
out of it. -/
noncomputable def free (arg : UserArg fujitsu_hwb_ioc_bb_ctl) : Reply × Manager :=
  match arg.read with
  | none => ({ err := -1 }, m)
  | some ioc =>
    let place := (ioc.cmg.toNat, ioc.bb.toNat)
    match m.book.leaseOf c.task.tgid place with
    | none => (free_reply arg ioc (-EINVAL), m)
    | some lease =>
      let book :=
        if m.book.leader c.task.tgid = some c.task.pid then m.book.revoke place
        else m.book.withdraw place lease c.cpu
      (free_reply arg ioc 0, { m with book := book.retire c.task.tgid })

open Classical in
/-- The window for a CPU of the lease: the one that is asked for, or else the first that
is free. A CPU that has one and asks for any is refused. -/
noncomputable def window_for (window : ℤ) (lease : Lease ℕ ℕ ℕ) : Except ℤ ℕ :=
  if window < 0 then
    match lease.seat c.cpu, lowestFree (m.book.InUse c.cpu) MAX_BW_PER_CMG with
    | none, some w => .ok w
    | _, _ => .error (-ENODEV)
  else if m.book.InUse c.cpu window.toNat then .error (-EINVAL)
  else if window < MAX_BW_PER_CMG then .ok window.toNat
  else .error (-ENODEV)

open Classical in
/-- BW_ASSIGN. -/
noncomputable def assign (arg : UserArg fujitsu_hwb_ioc_bw_ctl) : Reply × Manager :=
  match arg.read with
  | none => ({ err := -1 }, m)
  | some ioc =>
    let place := ((hw.cmg c.cpu).val, ioc.bb.toNat)
    if cpumask_weight c.cpus_mask > 1 then (assign_reply arg ioc (-EINVAL, none), m)
    else
      match m.book.leaseOf c.task.tgid place with
      | none => (assign_reply arg ioc (-ENODEV, none), m)
      | some lease =>
        if c.cpu ∈ lease.members then
          match m.window_for c ioc.window.toInt lease with
          | .error err => (assign_reply arg ioc (err, none), m)
          | .ok w => (assign_reply arg ioc (0, some w),
              { m with book := m.book.grant place (lease.seated c.cpu (some w)) })
        else (assign_reply arg ioc (-ENODEV, none), m)

/-- BW_UNASSIGN. -/
def unassign (arg : UserArg fujitsu_hwb_ioc_bw_ctl) : Reply × Manager :=
  match arg.read with
  | none => ({ err := -1 }, m)
  | some ioc =>
    let place := ((hw.cmg c.cpu).val, ioc.bb.toNat)
    if cpumask_weight c.cpus_mask > 1 then (unassign_reply arg ioc (-EINVAL), m)
    else if m.book.leader c.task.tgid = none then (unassign_reply arg ioc (-ENODEV), m)
    else
      match (m.book.leaseOf c.task.tgid place).filter fun lease => (lease.seat c.cpu).isSome with
      | none => (unassign_reply arg ioc (-EINVAL), m)
      | some lease => (unassign_reply arg ioc 0,
          { m with book := m.book.grant place (lease.seated c.cpu none) })

/-- A close: the last thing the leader of a group does. -/
def close : Manager :=
  if m.files > 0 then
    { book :=
        if m.book.leader c.task.tgid = some c.task.pid then m.book.dissolve c.task.tgid else m.book
      files := m.files - 1 }
  else m

end Manager

/-- The PE information of the caller's CPU. -/
def peinfo_reply (c : Call hw) (arg : UserArg fujitsu_hwb_ioc_pe_info) : Reply :=
  if arg.read.isSome ∧ arg.writable = true then
    { err := 0, pe_info := some { cmg := (hw.cmg c.cpu).val, ppe := hw.ppe c.cpu } }
  else { err := -1 }

/-- **The service**: the reply to an event, and the manager after it. -/
noncomputable def serve (l : Load hw) (e : Event hw) (m : Manager) : Reply × Manager :=
  match e.request with
  | .open => ({ err := 0 }, { m with files := m.files + 1 })
  | .close => ({ err := 0 }, m.close e.call)
  | .ioctl (.GET_PE_INFO arg) => (peinfo_reply e.call arg, m)
  | .ioctl (.BB_ALLOC arg) => m.alloc l e.call arg
  | .ioctl (.BB_FREE arg) => m.free e.call arg
  | .ioctl (.BW_ASSIGN arg) => m.assign e.call arg
  | .ioctl (.BW_UNASSIGN arg) => m.unassign e.call arg
  | .ioctl .RESET => ({ err := -ENOTTY }, { book := Book.empty, files := 0 })
  | .ioctl .other => ({ err := -ENOTTY }, m)

end A64fxHwb
