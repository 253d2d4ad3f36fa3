/-
The barrier a blade is for, run over the driver.

Once a group has its blade and its CPUs have their windows, the barrier itself is run
without the driver. A CPU reads `LBSY` through its window, writes the inverse as its
`BST` bit, and reads `LBSY` again until it is what it wrote; the blade sets `LBSY` when
all the `BST` bits its mask selects agree. Here these accesses and the requests to the
driver are the moves of one system, in any order, with the accesses of all other CPUs
through windows of their own.

One crew is watched: a group with a blade for a fixed set of CPUs. Its record starts when
the driver gives the blade to the group, and ends with the blade or with the first CPU
that leaves it.
-/
import A64fxHwb.Barrier
import A64fxHwb.Withdraw

set_option autoImplicit false

namespace A64fxHwb

open Barrier BitWord Relation Runs

variable {hw : Machine} {l : Load hw} {c : Call hw} {ok : Kind → Prop} {e : Event hw}
variable {s s' : Kernel} {regs : hwb_regs} {cmg cmg' : Fin MAX_NUM_CMG} {b b' : ℕ}

/-! ## What the blades do -/

/-- The registers with one blade register changed. -/
def hwb_regs.with_bb (regs : hwb_regs) (cmg : Fin MAX_NUM_CMG) (blade : ℕ)
    (f : BitVec 64 → BitVec 64) : hwb_regs :=
  { regs with
    init_sync_bb := Function.update regs.init_sync_bb cmg
      (Function.update (regs.init_sync_bb cmg) blade (f (regs.init_sync_bb cmg blade))) }

/-- What the blade makes of a `BST_SYNC` register that has been written: through a valid
window, its value becomes the `BST` bit of the CPU. -/
def latch (hw : Machine) (cpu window : ℕ) (regs : hwb_regs) : hwb_regs :=
  if wr_valid regs cpu window then
    regs.with_bb (hw.cmg cpu) (wr_blade regs cpu window) fun val =>
      writeBit val (hw.ppe cpu) ((regs.bst_sync_wr cpu window).getLsbD 0)
  else regs

/-- A write of a `BST_SYNC` register. -/
def bst_sync (hw : Machine) (cpu window : ℕ) (sync : ℤ) (regs : hwb_regs) : hwb_regs :=
  latch hw cpu window (write_bst_sync_wr cpu window sync regs).2

/-- The `BST` bits that the mask of a blade selects are all `v`. -/
def Agreed (regs : hwb_regs) (cmg : Fin MAX_NUM_CMG) (blade : ℕ) (v : Bool) : Prop :=
  ∀ p, (bst_mask regs cmg blade).getLsbD p = true → (bst regs cmg blade).getLsbD p = v

/-- The blade sets its `LBSY` bit. -/
def set_lbsy (cmg : Fin MAX_NUM_CMG) (blade : ℕ) (v : Bool) (regs : hwb_regs) : hwb_regs :=
  regs.with_bb cmg blade fun val => writeBit val A64FX_HWB_INIT_LBSY_SHIFT v

/-- The lowest bit of a word, as `& 0x1` gives it. -/
theorem sync_window_mask (val : BitVec 64) :
    decide (((val &&& A64FX_HWB_SYNC_WINDOW_MASK).toNat : ℤ) ≠ 0) = val.getLsbD 0 := by
  have hmask : (val &&& A64FX_HWB_SYNC_WINDOW_MASK).toNat = val.toNat % 2 := by
    rw [BitVec.toNat_and]
    exact Nat.and_one_is_mod _
  rw [hmask, ← BitVec.testBit_toNat, Nat.testBit_zero]
  apply decide_eq_decide.mpr
  omega

section BstSync

variable {k w : ℕ} {sync : ℤ}

end BstSync

/-! ## The crew of a blade -/

/-- A blade that a group of threads has for certain CPUs. -/
structure Crew where
  group : ℕ
  cmg : Fin MAX_NUM_CMG
  blade : ℕ
  mask : cpumask_t

namespace Crew

variable (T : Crew)

def place : ℕ × ℕ := (T.cmg.val, T.blade)

/-- The CPUs the blade is for. -/
abbrev Member : Type := { k : ℕ // T.mask.getLsbD k = true }

/-- The group holds the blade for these CPUs. -/
def Has (s : Kernel) : Prop :=
  ∃ a, Held s.dev T.group a ∧ a.place = T.place ∧ a.cpumask = T.mask

/-- The window `w` of CPU `k` is recorded for the blade. -/
def Window (l : Load hw) (s : Kernel) (k w : ℕ) : Prop :=
  ∃ a, Held s.dev T.group a ∧ a.place = T.place ∧ Records l a k w

instance (s : Kernel) : Decidable (T.Has s) :=
  decidable_of_iff (∃ m ∈ s.dev.task_list, m.group = T.group ∧
    ∃ a ∈ m.allocs, a.place = T.place ∧ a.cpumask = T.mask) <| by
      constructor
      · rintro ⟨m, hm, hg, a, ha, hp, hmask⟩
        exact ⟨a, ⟨m, hm, hg, ha⟩, hp, hmask⟩
      · rintro ⟨a, ⟨m, hm, hg, ha⟩, hp, hmask⟩
        exact ⟨m, hm, hg, a, ha, hp, hmask⟩

instance (l : Load hw) (s : Kernel) (k w : ℕ) : Decidable (T.Window l s k w) :=
  decidable_of_iff (∃ m ∈ s.dev.task_list, m.group = T.group ∧
    ∃ a ∈ m.allocs, a.place = T.place ∧ Records l a k w) <| by
      constructor
      · rintro ⟨m, hm, hg, a, ha, hp, hr⟩
        exact ⟨a, ⟨m, hm, hg, ha⟩, hp, hr⟩
      · rintro ⟨a, ⟨m, hm, hg, ha⟩, hp, hr⟩
        exact ⟨m, hm, hg, a, ha, hp, hr⟩

/-- The record of the barrier after a request. It starts when the blade was free before,
and goes on while the group has it for all its CPUs. -/
def follow (s s' : Kernel) (o : Option (Team T.Member)) : Option (Team T.Member) :=
  if T.Has s' then
    if T.Has s then o
    else if s.dev.bb T.cmg T.blade = false then some .start
    else none
  else none

/-- The blade as a barrier: the `BST` bits of the CPUs and `LBSY`. -/
def view (hw : Machine) (regs : hwb_regs) (t : Team T.Member) : Barrier.State T.Member where
  team := t
  bit k := (bst regs T.cmg T.blade).getLsbD (hw.ppe k)
  sense := lbsy regs T.cmg T.blade

end Crew

/-! ## The system -/

/-- What can happen next. -/
inductive Act (hw : Machine)
  /-- A request to the driver. -/
  | request (e : Event hw)
  /-- A CPU of the crew reads `LBSY`. -/
  | look (k : ℕ)
  /-- It writes its `BST` bit. -/
  | arrive (k : ℕ)
  /-- It finds `LBSY` to be what it wrote. -/
  | pass (k : ℕ)
  /-- A CPU writes the `BST_SYNC` register of one of its windows. -/
  | write (k w : ℕ) (sync : ℤ)
  /-- A blade sets its `LBSY` bit. -/
  | settle (cmg : Fin MAX_NUM_CMG) (b : ℕ) (v : Bool)

/-- The driver and the registers, with the record of the crew's barrier. -/
structure Site (T : Crew) where
  kernel : Kernel
  watch : Option (Team T.Member)

/-- The state with other registers. -/
def Kernel.with_regs (s : Kernel) (regs : hwb_regs) : Kernel := { s with regs := regs }

/-- One move. -/
inductive Site.Step (l : Load hw) (T : Crew) (x : Site T) : Act hw → Site T → Prop
  | request (e : Event hw) (reply : Reply) (s' : Kernel) (hrange : e.CmgInRange)
      (h : handle e x.kernel = .ok (reply, s')) :
      Step l T x (.request e) ⟨s', T.follow x.kernel s' x.watch⟩
  | look (k : T.Member) (t : Team T.Member) (w : ℕ) (sync : ℤ) (ht : x.watch = some t)
      (hwin : T.Window l x.kernel k w) (hstage : t.stage k = .working)
      (hread : read_bst_sync_wr hw k w x.kernel.regs = .ok sync) :
      Step l T x (.look k) ⟨x.kernel, some (t.looked k (decide (sync ≠ 0)))⟩
  | arrive (k : T.Member) (t : Team T.Member) (w : ℕ) (v : Bool) (ht : x.watch = some t)
      (hwin : T.Window l x.kernel k w) (hstage : t.stage k = .ready v) :
      Step l T x (.arrive k)
        ⟨x.kernel.with_regs (bst_sync hw k w v.toInt x.kernel.regs), some (t.arrived k v)⟩
  | pass (k : T.Member) (t : Team T.Member) (w : ℕ) (sync : ℤ) (ht : x.watch = some t)
      (hwin : T.Window l x.kernel k w) (hstage : t.stage k = .waiting (decide (sync ≠ 0)))
      (hread : read_bst_sync_wr hw k w x.kernel.regs = .ok sync) :
      Step l T x (.pass k) ⟨x.kernel, some (t.passed k)⟩
  | write (k w : ℕ) (sync : ℤ) (hk : l.online.getLsbD k = true) (hw4 : w < MAX_BW_PER_CMG) :
      Step l T x (.write k w sync)
        ⟨x.kernel.with_regs (bst_sync hw k w sync x.kernel.regs), x.watch⟩
  | settle (cmg : Fin MAX_NUM_CMG) (b : ℕ) (v : Bool) (h : Agreed x.kernel.regs cmg b v) :
      Step l T x (.settle cmg b v)
        ⟨x.kernel.with_regs (set_lbsy cmg b v x.kernel.regs), x.watch⟩

end A64fxHwb
