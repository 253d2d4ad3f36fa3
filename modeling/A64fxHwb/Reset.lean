/-
What RESET leaves, compared with a fresh load.

The lists and the bitmaps are empty afterwards and the window registers of the
online CPUs are invalid, as after a load. The rest is not: the blade registers
keep their masks, since an empty mask is refused; the access bits are cleared
where a load sets them; and the call returns `-ENOTTY`, since its case in the
dispatcher has no `break`.
-/
import A64fxHwb.Blades

set_option autoImplicit false

namespace A64fxHwb

open BitWord Runs

variable {hw : Machine} {l : Load hw} {c : Call hw} {R : hwb_regs → Prop}
variable {s s' : Kernel} {e : Event hw} {regs : hwb_regs}

/-! ## A freshly loaded state -/

/-- What a sequence of calls returns, one after the other. -/
def replies : List (Event hw) → Kernel → Except Fault (List Reply)
  | [], _ => .ok []
  | e :: es, s => do
    let (reply, s) ← handle e s
    let rest ← replies es s
    return reply :: rest

/-- The call has returned 0, and the device is as a load leaves it: nothing is
taken, no window register is valid, no blade register has a mask, access is
enabled on the CPUs that are online, and all that follows returns what it
returns after a load. -/
structure FreshlyLoaded (l : Load hw) (e : Event hw) (reply : Reply) (s : Kernel) : Prop where
  err : reply.err = 0
  task_list : s.dev.task_list = []
  bb_active : ∀ c, (s.dev.cmgs c).bb_active = 0
  bw_map : ∀ c j, ((s.dev.cmgs c).pe_map j).bw_map = 0
  windows : ∀ k, e.call.online.getLsbD k = true → ∀ w < MAX_BW_PER_CMG, wr_valid s.regs k w = false
  blades : ∀ c, ∀ b < MAX_BB_PER_CMG, bst_mask s.regs c b = 0
  access : ∀ k, e.call.online.getLsbD k = true → read_hwb_ctrl k s.regs = (1, 1)
  results : ∀ regs t, AllInvalid regs → AllDisarmed regs → Loaded l regs t →
    ∀ es : List (Event hw), replies es s = replies es t

/-- What a reset does, to the last register. -/
structure ResetOutcome (e : Event hw) (s s' : Kernel) : Prop where
  dev : s'.dev = s.dev.reset
  init_sync_bb : s'.regs.init_sync_bb = s.regs.init_sync_bb
  assign_sync_wr : ∀ k w, s'.regs.assign_sync_wr k w =
    if e.call.online.getLsbD k = true ∧ w < MAX_BW_PER_CMG then 0 else s.regs.assign_sync_wr k w
  access : ∀ k, e.call.online.getLsbD k = true → read_hwb_ctrl k s'.regs = (0, 0)
  locks : s'.locks = s.locks
  preempt_count : s'.preempt_count = s.preempt_count

/-! ## The control register -/

/-- One bit of a word, shifted down and masked. -/
theorem toNat_shiftRight_and_one (v : BitVec 64) (i : ℕ) :
    ((v >>> i) &&& 0x1).toNat = (v.getLsbD i).toNat := by
  rw [BitVec.toNat_and, BitVec.toNat_ushiftRight, show (0x1 : BitVec 64).toNat = 1 from rfl,
    Nat.and_one_is_mod, Nat.shiftRight_eq_div_pow, BitVec.getLsbD, Nat.toNat_testBit]

/-- What is written to the control register is read back. -/
theorem read_write_hwb_ctrl (cpu : ℕ) (el0ae el1ae : ℤ) (regs : hwb_regs) :
    read_hwb_ctrl cpu (write_hwb_ctrl cpu el0ae el1ae regs) =
      (if el0ae ≠ 0 then 1 else 0, if el1ae ≠ 0 then 1 else 0) := by
  -- the two bits are different ones
  have h01 : A64FX_HWB_CTRL_EL0AE_SHIFT ≠ A64FX_HWB_CTRL_EL1AE_SHIFT := by decide
  have hlt : A64FX_HWB_CTRL_EL0AE_SHIFT < 64 ∧ A64FX_HWB_CTRL_EL1AE_SHIFT < 64 := by decide
  unfold read_hwb_ctrl write_hwb_ctrl
  simp only [Function.update_self, toNat_shiftRight_and_one]
  generalize A64FX_HWB_CTRL_EL0AE_SHIFT = i at h01 hlt ⊢
  generalize A64FX_HWB_CTRL_EL1AE_SHIFT = j at h01 hlt ⊢
  by_cases h0 : el0ae ≠ 0
  · by_cases h1 : el1ae ≠ 0
    · simp only [if_pos h0, if_pos h1, getLsbD_setBit, hlt.1, hlt.2, h01, h01.symm]
      simp
    · simp only [if_pos h0, if_neg h1, getLsbD_setBit, getLsbD_clearBit, hlt.1, h01, h01.symm]
      simp
  · by_cases h1 : el1ae ≠ 0
    · simp only [if_neg h0, if_pos h1, getLsbD_setBit, getLsbD_clearBit, hlt.2, h01, h01.symm]
      simp
    · simp only [if_neg h0, if_neg h1, getLsbD_clearBit, h01, h01.symm]
      simp

theorem read_hwb_ctrl_congr {regs' : hwb_regs} {k : ℕ} (h : regs'.hwb_ctrl k = regs.hwb_ctrl k) :
    read_hwb_ctrl k regs' = read_hwb_ctrl k regs := by
  unfold read_hwb_ctrl
  rw [h]

/-- A write on one CPU leaves the others alone. -/
theorem read_write_hwb_ctrl_of_ne {k cpu : ℕ} (hne : k ≠ cpu) (el0ae el1ae : ℤ)
    (regs : hwb_regs) :
    read_hwb_ctrl k (write_hwb_ctrl cpu el0ae el1ae regs) = read_hwb_ctrl k regs := by
  apply read_hwb_ctrl_congr
  unfold write_hwb_ctrl
  simp only [Function.update_of_ne hne]

theorem read_asm_reset_func (cpu k : ℕ) (regs : hwb_regs) :
    read_hwb_ctrl k (asm_reset_func hw cpu regs) =
      if k = cpu then (0, 0) else read_hwb_ctrl k regs := by
  rw [asm_reset_func_eq]
  by_cases hk : k = cpu
  · subst hk
    rw [if_pos rfl, read_write_hwb_ctrl]
    rfl
  · rw [if_neg hk, read_write_hwb_ctrl_of_ne hk]
    exact read_hwb_ctrl_congr rfl

/-- **A reset disables access on every CPU that is online.** -/
theorem reset_access {k : ℕ} (hk : c.online.getLsbD k = true) (s : Kernel) :
    read_hwb_ctrl k (on_each_cpu c (asm_reset_func hw) 0 s).regs = (0, 0) := by
  -- the bits are clear once CPU `k` has been visited, and stay so
  have hwalk : ∀ (ks : List ℕ) (regs : hwb_regs), (k ∈ ks ∨ read_hwb_ctrl k regs = (0, 0)) →
      read_hwb_ctrl k (ks.foldl (fun regs cpu => asm_reset_func hw cpu regs) regs) = (0, 0) := by
    intro ks
    induction ks with
    | nil =>
        intro regs h
        exact h.resolve_left List.not_mem_nil
    | cons cpu ks ih =>
        intro regs h
        rw [List.foldl_cons]
        apply ih
        rw [read_asm_reset_func]
        by_cases hcpu : k = cpu
        · rw [if_pos hcpu]
          exact Or.inr rfl
        · rw [if_neg hcpu]
          exact h.imp_left fun hmem => (List.mem_cons.mp hmem).resolve_left hcpu
  exact hwalk _ _ (Or.inl (mem_for_each_cpu_on_time.mpr ⟨hk, BitVec.getLsbD_zero⟩))

/-- **A load enables it** on every CPU that is online. -/
theorem Loaded.access {k : ℕ} (h : Loaded l regs s) (hk : l.online.getLsbD k = true) :
    read_hwb_ctrl k s.regs = (1, 1) := by
  -- each CPU reads back the two ones it was given, so the next one gets them too
  have hwalk : ∀ (ks : List ℕ) (regs : hwb_regs), (k ∈ ks ∨ read_hwb_ctrl k regs = (1, 1)) →
      read_hwb_ctrl k (ks.foldl oss_a64fx_hwb_ctrl_func
        ({ el0ae := 1, el1ae := 1 }, regs)).2 = (1, 1) := by
    intro ks
    induction ks with
    | nil =>
        intro regs h
        exact h.resolve_left List.not_mem_nil
    | cons cpu ks ih =>
        intro regs h
        have hone : oss_a64fx_hwb_ctrl_func ({ el0ae := 1, el1ae := 1 }, regs) cpu =
            ({ el0ae := 1, el1ae := 1 }, write_hwb_ctrl cpu 1 1 regs) := by
          unfold oss_a64fx_hwb_ctrl_func
          simp only [read_write_hwb_ctrl]
          rfl
        rw [List.foldl_cons, hone]
        apply ih
        by_cases hcpu : k = cpu
        · subst hcpu
          exact Or.inr (read_write_hwb_ctrl k 1 1 regs)
        · rw [read_write_hwb_ctrl_of_ne hcpu]
          exact h.imp_left fun hmem => (List.mem_cons.mp hmem).resolve_left hcpu
  obtain ⟨err, t, -, -, rfl⟩ := h.initialized
  exact hwalk _ _ (Or.inl ((mem_bits _ k).mpr hk))

/-! ## The event -/

/-- RESET from the dispatcher. -/
theorem reset_event (hlock : s.locks = Locks.free) (he : e.request = .ioctl .RESET) :
    ∃ s', handle e s = .ok ({ err := -ENOTTY }, s') ∧ ResetOutcome e s s' := by
  refine ⟨{ on_each_cpu e.call (asm_reset_func hw) 0 s with dev := s.dev.reset }, ?_,
    rfl, reset_init_sync_bb 0 s, reset_assign_sync_wr_online s, fun k hk => reset_access hk s,
    rfl, rfl⟩
  unfold handle oss_a64fx_hwb_ioctl
  simp only [he, reset_eq hlock, Loops.ok_bind]
  rfl

/-- **A reset never brings the freshly loaded state back**: the call fails, and
access is disabled on the CPU it is made on. -/
theorem reset_not_fresh (h : (driver l R).Reachable s) (he : e.request = .ioctl .RESET) :
    ∃ reply s', handle e s = .ok (reply, s') ∧ ResetOutcome e s s' ∧ reply.err = -ENOTTY ∧
      read_hwb_ctrl e.call.cpu s'.regs = (0, 0) ∧ ¬FreshlyLoaded l e reply s' := by
  obtain ⟨-, hlock⟩ := reachable_inv h
  obtain ⟨s', hok, hout⟩ := reset_event hlock he
  have haccess := hout.access e.call.cpu e.call.cpu_online
  refine ⟨_, s', hok, hout, rfl, haccess, fun hfresh => ?_⟩
  have henabled := hfresh.access e.call.cpu e.call.cpu_online
  rw [haccess] at henabled
  exact absurd henabled (by decide)

/-- A reset after one BB_ALLOC. -/
theorem reset_not_fresh_blade : ∃ reply s',
    handle (Quad.reset Quad.first 0) (after Quad.load [Quad.alloc Quad.first 0 0x3]) =
      .ok (reply, s') ∧
    ResetOutcome (Quad.reset Quad.first 0) (after Quad.load [Quad.alloc Quad.first 0 0x3]) s' ∧
    reply.err = -ENOTTY ∧ read_hwb_ctrl 0 s'.regs = (0, 0) ∧
    ¬FreshlyLoaded Quad.load (Quad.reset Quad.first 0) reply s' :=
  reset_not_fresh (e := Quad.reset Quad.first 0)
    (reachable_after (R := fun _ => True) trivial (by decide +kernel) (by decide)) rfl

/-- The blade that nobody holds any more still waits for two PEs, and no CPU can
use the barrier from user space. -/
theorem reset_keeps_mask :
    (driver Quad.load fun _ => True).Reachable (after Quad.load [Quad.alloc Quad.first 0 0x3]) ∧
    ∃ s', handle (Quad.reset Quad.first 0) (after Quad.load [Quad.alloc Quad.first 0 0x3]) =
        .ok ({ err := -ENOTTY }, s') ∧
      bst_mask s'.regs 0 0 = 0x3 ∧ read_hwb_ctrl 0 s'.regs = (0, 0) ∧
      ¬FreshlyLoaded Quad.load (Quad.reset Quad.first 0) { err := -ENOTTY } s' := by
  have hreach : (driver Quad.load fun _ => True).Reachable
      (after Quad.load [Quad.alloc Quad.first 0 0x3]) :=
    reachable_after trivial (by decide +kernel) (by decide)
  obtain ⟨s', hok, hout⟩ := reset_event (e := Quad.reset Quad.first 0) (reachable_inv hreach).2 rfl
  refine ⟨hreach, s', hok, ?_, hout.access 0 (by decide), fun hfresh => ?_⟩
  · unfold bst_mask
    rw [hout.init_sync_bb]
    decide +kernel
  · have herr := hfresh.err
    exact absurd herr (by decide)

end A64fxHwb
