/-
The driver's data, `a64fx_hwb.h`.

The structures keep the names and the fields of the header, less the fields no
modelled function reads: the `kobject`, `miscdevice` and `list_head` members,
`bw_active`, the per-CMG `bw_map` and the allocation's `win_mask` (written
nowhere), and the second generation of structures at the end of the header
(`a64fx_hwb_alloc` and below) that no source file uses.

An intrusive list is a Lean list, its head first; `list_add` is `::`. The two
kinds of lock of the driver, `dev_lock` and one `cmg_lock` for each CMG, are
kept together in `Locks` (`Kernel.lean`) instead of inside the two structures.

CPU numbers are below 64, the width of the `unsigned long` the allocate ioctl
reads its mask into.
-/
import A64fxHwb.Bits
import Mathlib.Data.Fintype.Basic

set_option autoImplicit false

namespace A64fxHwb

open BitWord

/-! ## Constants -/

abbrev MAX_NUM_CMG : ℕ := 4
abbrev MAX_PE_PER_CMG : ℕ := 13
abbrev MAX_BB_PER_CMG : ℕ := 6
abbrev MAX_BW_PER_CMG : ℕ := 4

abbrev A64FX_HWB_UNASSIGNED_WIN : ℤ := -1

abbrev EINVAL : ℤ := 22
abbrev ENODEV : ℤ := 19
abbrev ENOTTY : ℤ := 25

/-- CPU numbers are below this. The kernel counts the CPUs of its machine; here it is the
width of a mask. -/
abbrev nr_cpu_ids : ℕ := 64

/-! ## Kernel bitmaps -/

/-- `struct cpumask`: bit `k` is CPU `k`. -/
abbrev cpumask_t := BitVec nr_cpu_ids

/-- `cpumask_weight`. -/
abbrev cpumask_weight (m : cpumask_t) : ℕ := weight m

/-- `cpumask_test_cpu`. -/
abbrev cpumask_test_cpu (cpu : ℕ) (m : cpumask_t) : Bool := m.getLsbD cpu

/-- `cpumask_set_cpu`. -/
abbrev cpumask_set_cpu (cpu : ℕ) (m : cpumask_t) : cpumask_t := setBit m cpu

/-- `cpumask_clear_cpu`. -/
abbrev cpumask_clear_cpu (cpu : ℕ) (m : cpumask_t) : cpumask_t := clearBit m cpu

/-- The CPUs `for_each_cpu` visits while its body leaves the mask alone. -/
abbrev for_each_cpu (m : cpumask_t) : List ℕ := bits m

/-- `(u8)x`. -/
def u8 (x : ℤ) : ℕ := (x % 256).toNat

theorem u8_natCast {x : ℕ} (h : x < 256) : u8 (x : ℤ) = x := by
  unfold u8
  omega

/-! ## Threads -/

/-- A thread, as far as the driver looks at it. The number `id` stands for the
identity of the `task_struct`: a pid is used again once its thread is gone, an
`id` never is. -/
structure task_struct where
  id : ℕ
  pid : ℕ
  tgid : ℕ
  deriving DecidableEq, Repr

/-! ## The structures of the header -/

structure a64fx_core_mapping where
  cpu_id : ℤ
  cmg_id : ℤ
  ppe_id : ℤ
  bw_map : BitVec 64
  win_blades : Fin MAX_BW_PER_CMG → ℤ
  deriving DecidableEq

structure a64fx_cmg_device where
  cmg_id : ℤ
  num_pes : ℕ
  bb_active : BitVec 64
  cmgmask : cpumask_t
  pe_map : Fin MAX_PE_PER_CMG → a64fx_core_mapping
  deriving DecidableEq

structure a64fx_task_allocation where
  blade : ℕ
  cmg : ℕ
  window : Fin MAX_PE_PER_CMG → ℤ
  assign_count : ℤ
  assign_mask : cpumask_t
  cpumask : cpumask_t
  task : task_struct
  deriving DecidableEq

structure a64fx_task_mapping where
  /-- Allocating task. -/
  task : task_struct
  /-- The allocation list, head first. -/
  allocs : List a64fx_task_allocation
  num_allocs : ℤ
  deriving DecidableEq

structure a64fx_hwb_device where
  num_cmgs : ℕ
  num_bb_per_cmg : ℕ
  num_bw_per_cmg : ℕ
  max_pe_per_cmg : ℕ
  cmgs : Fin MAX_NUM_CMG → a64fx_cmg_device
  active_count : ℤ
  num_tasks : ℤ
  task_list : List a64fx_task_mapping
  deriving DecidableEq

/-! ## The loops over a CMG's table -/

/-- The slots `for (i = 0; i < cmg->num_pes; i++)` visits. -/
def a64fx_cmg_device.slots (cmg : a64fx_cmg_device) : List (Fin MAX_PE_PER_CMG) :=
  (List.finRange MAX_PE_PER_CMG).filter fun i => decide (i.val < cmg.num_pes)

@[simp] theorem a64fx_cmg_device.mem_slots (cmg : a64fx_cmg_device) (i : Fin MAX_PE_PER_CMG) :
    i ∈ cmg.slots ↔ i.val < cmg.num_pes := by
  simp [a64fx_cmg_device.slots]

end A64fxHwb
