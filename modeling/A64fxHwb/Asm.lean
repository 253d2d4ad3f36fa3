/-
The barrier registers, `a64fx_hwb_asm.c` and `a64fx_hwb_asm.h`.

An `MSR`/`MRS` acts on the CPU that executes it, so every accessor takes that
CPU. The window registers, the window's `BST_SYNC` register and the control
register belong to the CPU; a blade register belongs to the CMG, and the CMG an
access reaches is the one the executing CPU sits on. Where a CPU sits is what
its read-only `PEINFO` register says (`Machine`).

The `switch` of each accessor over the register number is an index here; the
numbers outside it are rejected before the `switch` by every accessor except
`read_init_sync_bb`, which then returns the zero it started from.

A `BST_SYNC` register has two sides. What is written to it goes to the blade that the
window is assigned to, what is read from it comes from there. The driver writes it
with the window already invalid, so `write_bst_sync_wr` keeps the value and no more.
-/
import A64fxHwb.Device

set_option autoImplicit false

namespace A64fxHwb

abbrev A64FX_PEINFO_CMG_MASK : BitVec 64 := 0x3
abbrev A64FX_PEINFO_CMG_OFFSET : ℕ := 4
abbrev A64FX_PEINFO_PPE_MASK : BitVec 64 := 0xF
abbrev A64FX_HWB_CTRL_EL0AE_SHIFT : ℕ := 62
abbrev A64FX_HWB_CTRL_EL1AE_SHIFT : ℕ := 63
abbrev A64FX_HWB_INIT_BST_MASK : BitVec 64 := 0x1FFF
abbrev A64FX_HWB_INIT_BST_SHIFT : ℕ := 32
abbrev A64FX_HWB_INIT_LBSY_SHIFT : ℕ := 20
abbrev A64FX_HWB_ASSIGN_BB_MASK : BitVec 64 := 0x7
abbrev A64FX_HWB_ASSIGN_VALID_BIT : ℕ := 63
abbrev A64FX_HWB_SYNC_WINDOW_MASK : BitVec 64 := 0x1

/-! ## Where a CPU sits -/

/-- The CMG field of `PEINFO`. The two-bit mask is what keeps it below
`MAX_NUM_CMG`. -/
def peinfo_cmg (val : BitVec 64) : Fin MAX_NUM_CMG :=
  ⟨((val >>> A64FX_PEINFO_CMG_OFFSET) &&& A64FX_PEINFO_CMG_MASK).toNat, by
    rw [BitVec.toNat_and]
    exact lt_of_le_of_lt Nat.and_le_right (by decide)⟩

/-- The PPE field of `PEINFO`, the physical position of the CPU inside its CMG. -/
def peinfo_ppe (val : BitVec 64) : ℕ := (val &&& A64FX_PEINFO_PPE_MASK).toNat

/-- The machine: which CPUs it has, and the `PEINFO` register of each. Two CPUs
never sit in one place, and a CMG has 13 places. -/
structure Machine where
  peinfo : ℕ → BitVec 64
  present : cpumask_t
  ppe_lt : ∀ k, present.getLsbD k = true → peinfo_ppe (peinfo k) < MAX_PE_PER_CMG
  distinct : ∀ k k', present.getLsbD k = true → present.getLsbD k' = true →
    peinfo_cmg (peinfo k) = peinfo_cmg (peinfo k') →
    peinfo_ppe (peinfo k) = peinfo_ppe (peinfo k') → k = k'

namespace Machine

variable (hw : Machine)

/-- The CMG of a CPU. -/
def cmg (cpu : ℕ) : Fin MAX_NUM_CMG := peinfo_cmg (hw.peinfo cpu)

/-- The place of a CPU inside its CMG. -/
def ppe (cpu : ℕ) : ℕ := peinfo_ppe (hw.peinfo cpu)

/-- `read_peinfo`, and `_oss_a64fx_hwb_get_peinfo` which repeats it. -/
def read_peinfo (cpu : ℕ) : Fin MAX_NUM_CMG × ℕ := (hw.cmg cpu, hw.ppe cpu)

theorem eq_of_place {k k' : ℕ} (hk : hw.present.getLsbD k = true)
    (hk' : hw.present.getLsbD k' = true) (hc : hw.cmg k = hw.cmg k') (hp : hw.ppe k = hw.ppe k') :
    k = k' :=
  hw.distinct k k' hk hk' hc hp

end Machine

/-! ## The register file -/

/-- The registers of the hardware barrier. -/
structure hwb_regs where
  /-- `IMP_BARRIER_CTRL_EL1` of each CPU. -/
  hwb_ctrl : ℕ → BitVec 64
  /-- The blade registers of each CMG. -/
  init_sync_bb : Fin MAX_NUM_CMG → ℕ → BitVec 64
  /-- The window registers of each CPU. -/
  assign_sync_wr : ℕ → ℕ → BitVec 64
  /-- The `BST_SYNC` register behind each window of each CPU. -/
  bst_sync_wr : ℕ → ℕ → BitVec 64

/-- `read_hwb_ctrl`. -/
def read_hwb_ctrl (cpu : ℕ) (regs : hwb_regs) : ℤ × ℤ :=
  let val := regs.hwb_ctrl cpu
  (((val >>> A64FX_HWB_CTRL_EL0AE_SHIFT) &&& 0x1).toNat,
    ((val >>> A64FX_HWB_CTRL_EL1AE_SHIFT) &&& 0x1).toNat)

/-- `write_hwb_ctrl`. -/
def write_hwb_ctrl (cpu : ℕ) (el0ae el1ae : ℤ) (regs : hwb_regs) : hwb_regs :=
  let val := regs.hwb_ctrl cpu
  let val := if el0ae ≠ 0 then BitWord.setBit val A64FX_HWB_CTRL_EL0AE_SHIFT
    else BitWord.clearBit val A64FX_HWB_CTRL_EL0AE_SHIFT
  let val := if el1ae ≠ 0 then BitWord.setBit val A64FX_HWB_CTRL_EL1AE_SHIFT
    else BitWord.clearBit val A64FX_HWB_CTRL_EL1AE_SHIFT
  { regs with hwb_ctrl := Function.update regs.hwb_ctrl cpu val }

/-- `read_init_sync_bb`: the pair (`mask`, `bst`). -/
def read_init_sync_bb (hw : Machine) (cpu : ℕ) (bb : ℤ) (regs : hwb_regs) :
    BitVec 64 × BitVec 64 :=
  -- any other number reads as a register that is zero
  let val := if 0 ≤ bb ∧ bb < MAX_BB_PER_CMG then regs.init_sync_bb (hw.cmg cpu) bb.toNat else 0
  ((val >>> A64FX_HWB_INIT_BST_SHIFT) &&& A64FX_HWB_INIT_BST_MASK,
    val &&& A64FX_HWB_INIT_BST_MASK)

/-- The value `write_init_sync_bb` writes: the mask in the `BST_MASK` field and
every `BST` bit zero. -/
def init_sync_bb_val (bst_mask : BitVec 64) : BitVec 64 :=
  (bst_mask &&& A64FX_HWB_INIT_BST_MASK) <<< A64FX_HWB_INIT_BST_SHIFT

/-- `write_init_sync_bb`. An empty mask is refused. -/
def write_init_sync_bb (hw : Machine) (cpu : ℕ) (blade : ℤ) (bst_mask : BitVec 64)
    (regs : hwb_regs) : ℤ × hwb_regs :=
  if blade < 0 ∨ blade ≥ MAX_BB_PER_CMG ∨ bst_mask = 0 then (-EINVAL, regs)
  else
    (0, { regs with
      -- the register is shared by the CPUs of the CMG that writes it
      init_sync_bb := Function.update regs.init_sync_bb (hw.cmg cpu)
        (Function.update (regs.init_sync_bb (hw.cmg cpu)) blade.toNat
          (init_sync_bb_val bst_mask)) })

/-- `read_assign_sync_wr`: the pair (`valid`, `blade`), or `-EINVAL` with the
two outputs left alone. -/
def read_assign_sync_wr (cpu : ℕ) (window : ℤ) (regs : hwb_regs) : Except ℤ (ℤ × ℤ) :=
  if window < 0 ∨ window ≥ MAX_BW_PER_CMG then .error (-EINVAL)
  else
    let val := regs.assign_sync_wr cpu window.toNat
    .ok (((val >>> A64FX_HWB_ASSIGN_VALID_BIT) &&& 0x1).toNat,
      (val &&& A64FX_HWB_ASSIGN_BB_MASK).toNat)

/-- The value `write_assign_sync_wr` writes. -/
def assign_sync_wr_val (valid blade : ℤ) : BitVec 64 :=
  let val := BitVec.ofNat 64 (u8 blade)
  if valid ≠ 0 then BitWord.setBit val A64FX_HWB_ASSIGN_VALID_BIT
  else BitWord.clearBit val A64FX_HWB_ASSIGN_VALID_BIT

/-- `write_assign_sync_wr`. -/
def write_assign_sync_wr (cpu : ℕ) (window valid blade : ℤ) (regs : hwb_regs) : ℤ × hwb_regs :=
  if window < 0 ∨ window ≥ MAX_BW_PER_CMG ∨ blade < 0 ∨ blade ≥ MAX_BB_PER_CMG then (-EINVAL, regs)
  else
    (0, { regs with
      assign_sync_wr := Function.update regs.assign_sync_wr cpu
        (Function.update (regs.assign_sync_wr cpu) window.toNat (assign_sync_wr_val valid blade)) })

/-- `write_bst_sync_wr`. -/
def write_bst_sync_wr (cpu : ℕ) (window sync : ℤ) (regs : hwb_regs) : ℤ × hwb_regs :=
  if window < 0 ∨ window ≥ MAX_BW_PER_CMG then (-EINVAL, regs)
  else
    let val : BitVec 64 := if sync ≠ 0 then A64FX_HWB_SYNC_WINDOW_MASK else 0
    (0, { regs with
      bst_sync_wr := Function.update regs.bst_sync_wr cpu
        (Function.update (regs.bst_sync_wr cpu) window.toNat val) })

/-! ## The fields the driver reads back -/

/-- The valid bit of a window register. -/
def wr_valid (regs : hwb_regs) (cpu window : ℕ) : Bool :=
  (regs.assign_sync_wr cpu window).getLsbD A64FX_HWB_ASSIGN_VALID_BIT

/-- The blade a window register names. -/
def wr_blade (regs : hwb_regs) (cpu window : ℕ) : ℕ :=
  (regs.assign_sync_wr cpu window &&& A64FX_HWB_ASSIGN_BB_MASK).toNat

/-- The `LBSY` bit of a blade register. -/
def lbsy (regs : hwb_regs) (cmg : Fin MAX_NUM_CMG) (blade : ℕ) : Bool :=
  (regs.init_sync_bb cmg blade).getLsbD A64FX_HWB_INIT_LBSY_SHIFT

/-- `read_bst_sync_wr`, or `-EINVAL` with the output left alone. A window shows the `LBSY`
bit of its blade, and nothing when it is not valid. -/
def read_bst_sync_wr (hw : Machine) (cpu : ℕ) (window : ℤ) (regs : hwb_regs) : Except ℤ ℤ :=
  if window < 0 ∨ window ≥ MAX_BW_PER_CMG then .error (-EINVAL)
  else
    let val : BitVec 64 := if wr_valid regs cpu window.toNat
      then regs.init_sync_bb (hw.cmg cpu) (wr_blade regs cpu window.toNat) >>>
        A64FX_HWB_INIT_LBSY_SHIFT
      else 0
    .ok (val &&& A64FX_HWB_SYNC_WINDOW_MASK).toNat

/-- The `BST_MASK` field of a blade register. -/
def bst_mask (regs : hwb_regs) (cmg : Fin MAX_NUM_CMG) (blade : ℕ) : BitVec 64 :=
  (regs.init_sync_bb cmg blade >>> A64FX_HWB_INIT_BST_SHIFT) &&& A64FX_HWB_INIT_BST_MASK

end A64fxHwb
