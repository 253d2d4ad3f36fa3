/-
Which window a BW_ASSIGN hands out.

For a PE that has no window of the blade the driver takes the lowest free window, or
the one that was asked for if that is free (`assign_right_window`). For a PE that has
one, the branch "reuse window" chooses it again, but the check behind the choice wants
a window whose bit is clear, and the bit of a window in use is not: the call is refused
(`reuse_refused`). The lemmas are about every reachable state, so about whatever the
other groups have on the PE.
-/
import A64fxHwb.Caller
import A64fxHwb.Execution

set_option autoImplicit false

namespace A64fxHwb

open BitWord Runs

variable {hw : Machine} {l : Load hw} {R : hwb_regs → Prop} {c : Call hw} {s : Kernel}
variable {a : a64fx_task_allocation} {blade r : ℤ}

/-! ## What the caller asks for -/

/-- `a` is the allocation of the caller's group for blade `blade` on the CMG of the
caller's CPU, and the CPU is one of the blade's. -/
structure Joins (c : Call hw) (blade : ℤ) (s : Kernel) (a : a64fx_task_allocation) : Prop where
  held : Held s.dev c.task.tgid a
  cmg : a.cmg = (hw.cmg c.cpu).val
  blade : (a.blade : ℤ) = blade
  member : a.cpumask.getLsbD c.cpu = true

/-- The window to hand out on the caller's PE: a free one, which is the lowest if none is
asked for, and else the one asked for. -/
structure RightWindow (c : Call hw) (s : Kernel) (r : ℤ) (w : ℕ) : Prop where
  lt : w < MAX_BW_PER_CMG
  free : s.dev.bw (hw.cmg c.cpu) (hw.slot c.cpu) w = false
  asked : 0 ≤ r → r = w
  lowest : r < 0 → ∀ i < w, s.dev.bw (hw.cmg c.cpu) (hw.slot c.cpu) i = true

/-- A call that succeeds with window `w` and takes it: the state is changed in the window's
bit, in the allocation and in the register, which then is valid for the blade. -/
structure HandsOut (c : Call hw) (blade r : ℤ) (s : Kernel) (a : a64fx_task_allocation) (w : ℕ) :
    Prop where
  result : oss_a64fx_hwb_assign_blade c blade r s =
    .ok ((0, some w), (⟨true, a.blade, w⟩ : WindowWrite).apply c s)
  valid : wr_valid ((⟨true, a.blade, w⟩ : WindowWrite).apply c s).regs c.cpu w = true
  names : (wr_blade ((⟨true, a.blade, w⟩ : WindowWrite).apply c s).regs c.cpu w : ℤ) = blade

/-- A call that returns a negative value and changes nothing. -/
def Refuses (c : Call hw) (blade r : ℤ) (s : Kernel) : Prop :=
  ∃ err < 0, ∃ out, oss_a64fx_hwb_assign_blade c blade r s = .ok ((err, out), s)

/-- BW_ASSIGN picks the right window. -/
structure PicksWindow (c : Call hw) (blade r : ℤ) (s : Kernel) : Prop where
  returns : ∃ x, oss_a64fx_hwb_assign_blade c blade r s = .ok x
  missing : (∀ a, ¬Joins c blade s a) → Refuses c blade r s
  fresh : ∀ a, Joins c blade s a → a.window (hw.slot c.cpu) = A64FX_HWB_UNASSIGNED_WIN →
    (∀ w, RightWindow c s r w → HandsOut c blade r s a w) ∧
      ((∀ w, ¬RightWindow c s r w) → Refuses c blade r s)
  reuse : ∀ a (w : ℕ), Joins c blade s a → a.window (hw.slot c.cpu) = w → r < 0 →
    oss_a64fx_hwb_assign_blade c blade r s = .ok ((0, some (w : ℤ)), s)

/-! ## What it gets -/

/-- The search of the driver finds the blade. -/
theorem Joins.finds (hi : Inv l s.dev) (hpin : cpumask_weight c.cpus_mask ≤ 1)
    (h : Joins c blade s a) : ∃ m, FindsBlade c blade s m a := by
  obtain ⟨m, hm, hg, ha⟩ := h.held
  refine ⟨m, hpin, hi.lists.get_taskmap hm hg, ?_⟩
  rw [← h.blade]
  exact get_allocation_of_mem hi.table hi.lists hm ha h.cmg

/-- A search that ends at an allocation one cannot join ends at somebody else's CPUs. -/
theorem not_member_of_not_joins (hi : Inv l s.dev) {m : a64fx_task_mapping}
    (h : FindsBlade c blade s m a) (hno : ¬Joins c blade s a) :
    a.cpumask.getLsbD c.cpu = false := by
  obtain ⟨hm, hg, ha, hc, hb⟩ := h.mem hi
  exact Bool.eq_false_iff.mpr fun hmem => hno ⟨⟨m, hm, hg, ha⟩, hc, hb, hmem⟩

theorem refuses_of_not_joins (hi : Inv l s.dev) (hlock : s.locks = Locks.free) (r : ℤ)
    (hno : ∀ a, ¬Joins c blade s a) : Refuses c blade r s := by
  by_cases hfind : ∃ m a, FindsBlade c blade s m a
  · obtain ⟨m, a, hfind⟩ := hfind
    obtain ⟨err, herr, heq⟩ := assign_not_member hlock r hfind
      (not_member_of_not_joins hi hfind (hno a))
    exact ⟨err, herr, none, heq⟩
  · obtain ⟨err, herr, heq⟩ := assign_not_found hlock r fun m a h => hfind ⟨m, a, h⟩
    exact ⟨err, herr, none, heq⟩

/-- Without a window of the blade on the PE, the driver's choice is the right window. -/
theorem chooses_iff_right (hnone : a.window (hw.slot c.cpu) = A64FX_HWB_UNASSIGNED_WIN) (w : ℕ) :
    Chooses c s a r w ↔ RightWindow c s r w := by
  constructor
  · rintro ⟨hlt, hfree, rfl | ⟨hneg, -, rfl⟩⟩
    · exact ⟨hlt, hfree, fun _ => rfl, fun hneg => by omega⟩
    · exact ⟨hlt, hfree, fun hpos => by omega, fun _ i hi => (firstZero_spec hlt).2 i hi⟩
  · rintro ⟨hlt, hfree, hasked, hlowest⟩
    refine ⟨hlt, hfree, ?_⟩
    by_cases hneg : r < 0
    swap
    · exact Or.inl (hasked (not_lt.mp hneg))
    refine Or.inr ⟨hneg, hnone, ?_⟩
    have hfirst := firstZero_lt_iff.mpr ⟨w, hlt, hfree⟩
    obtain ⟨hclear, hset⟩ := firstZero_spec hfirst
    -- neither is below the other
    by_contra hne
    rcases lt_or_gt_of_ne hne with hbelow | habove
    · have hbit := hlowest hneg _ hbelow
      rw [a64fx_hwb_device.bw, hclear] at hbit
      exact Bool.noConfusion hbit
    · have hbit := hset w habove
      rw [a64fx_hwb_device.bw] at hfree
      rw [hfree] at hbit
      exact Bool.noConfusion hbit

/-- There is one right window at most. -/
theorem RightWindow.unique {w w' : ℕ} (h : RightWindow c s r w) (h' : RightWindow c s r w') :
    w = w' := by
  by_cases hneg : r < 0
  · rcases lt_trichotomy w w' with hlt | heq | hgt
    · have hbit := h'.lowest hneg w hlt
      rw [h.free] at hbit
      exact Bool.noConfusion hbit
    · exact heq
    · have hbit := h.lowest hneg w' hgt
      rw [h'.free] at hbit
      exact Bool.noConfusion hbit
  · have heq := (h.asked (not_lt.mp hneg)).symm.trans (h'.asked (not_lt.mp hneg))
    omega

/-- The register a taken window is written to. -/
theorem wr_of_taken (w : ℕ) {b : ℕ} (hb : b < MAX_BB_PER_CMG) :
    wr_valid ((⟨true, b, w⟩ : WindowWrite).apply c s).regs c.cpu w = true ∧
      wr_blade ((⟨true, b, w⟩ : WindowWrite).apply c s).regs c.cpu w = b := by
  have hval : ((⟨true, b, w⟩ : WindowWrite).apply c s).regs.assign_sync_wr c.cpu w =
      assign_sync_wr_val 1 b := by
    simp only [WindowWrite.apply, WindowWrite.registers, Function.update_self, cond_true]
  have hbits : ∀ b : Fin 6, (assign_sync_wr_val 1 b.val).getLsbD A64FX_HWB_ASSIGN_VALID_BIT = true ∧
      (assign_sync_wr_val 1 b.val &&& A64FX_HWB_ASSIGN_BB_MASK).toNat = b.val := by decide
  unfold wr_valid wr_blade
  rw [hval]
  exact hbits ⟨b, hb⟩

/-- **A PE without a window of the blade is handed the right window**, if there is one. -/
theorem assign_right_window (hi : Inv l s.dev) (hlock : s.locks = Locks.free)
    (hpin : cpumask_weight c.cpus_mask ≤ 1) (hr : r < 64) (hon : l.online.getLsbD c.cpu = true)
    (hj : Joins c blade s a) (hnone : a.window (hw.slot c.cpu) = A64FX_HWB_UNASSIGNED_WIN) :
    (∀ w, RightWindow c s r w → HandsOut c blade r s a w) ∧
      ((∀ w, ¬RightWindow c s r w) → Refuses c blade r s) := by
  obtain ⟨m, hfind⟩ := hj.finds hi hpin
  obtain ⟨hm, hg, ha, hc, -⟩ := hfind.mem hi
  have hblade := (hi.sane _ a hj.held).blade_lt
  have hout := assign_blade_outcome hi hlock r hfind hj.member hon
  unfold Refuses
  generalize hres : oss_a64fx_hwb_assign_blade c blade r s = result at hout ⊢
  cases hout with
  | taken w hch =>
      have hright := (chooses_iff_right hnone w).mp hch
      refine ⟨fun w' hright' => ?_, fun hno => absurd hright (hno w)⟩
      -- a right window is the one that was taken
      rw [hright'.unique hright]
      obtain ⟨hvalid, hnames⟩ := wr_of_taken (c := c) (s := s) w hblade
      refine ⟨?_, hvalid, ?_⟩
      · rw [hres, taken_eq_apply hi.lists hm hg ha hc hblade hright.lt]
      · rw [hnames]
        exact hj.blade
  | failed err herr hno _ =>
      refine ⟨fun w hright => ?_, fun _ => ?_⟩
      · exact absurd ((chooses_iff_right hnone w).mpr hright) (hno w)
      · exact ⟨err, herr, none, rfl⟩
  | trapped hge _ => omega

/-- **A PE that has a window of the blade is not handed it again.** -/
theorem reuse_refused (hi : Inv l s.dev) (hlock : s.locks = Locks.free)
    (hpin : cpumask_weight c.cpus_mask ≤ 1) (hneg : r < 0) (hon : l.online.getLsbD c.cpu = true)
    (hj : Joins c blade s a) (hrec : a.window (hw.slot c.cpu) ≠ A64FX_HWB_UNASSIGNED_WIN) :
    Refuses c blade r s := by
  obtain ⟨m, hfind⟩ := hj.finds hi hpin
  have hout := assign_blade_outcome hi hlock r hfind hj.member hon
  unfold Refuses
  generalize oss_a64fx_hwb_assign_blade c blade r s = result at hout ⊢
  cases hout with
  | taken w hch =>
      -- a window is taken only if it was asked for, or none was recorded
      rcases hch.choice with heq | ⟨-, hnone, -⟩
      · omega
      · exact absurd hnone hrec
  | failed err herr _ _ => exact ⟨err, herr, none, rfl⟩
  | trapped hge _ => omega

/-- A call that is not trapped beyond the word returns on a PE of the table. -/
theorem assign_returns (hi : Inv l s.dev) (hlock : s.locks = Locks.free)
    (hpin : cpumask_weight c.cpus_mask ≤ 1) (hr : r < 64)
    (hon : ∀ a, Joins c blade s a → l.online.getLsbD c.cpu = true) :
    ∃ x, oss_a64fx_hwb_assign_blade c blade r s = .ok x := by
  by_cases hjoins : ∃ a, Joins c blade s a
  · obtain ⟨a, hj⟩ := hjoins
    obtain ⟨m, hfind⟩ := hj.finds hi hpin
    have hout := assign_blade_outcome hi hlock r hfind hj.member (hon a hj)
    generalize oss_a64fx_hwb_assign_blade c blade r s = result at hout ⊢
    cases hout with
    | taken w _ => exact ⟨_, rfl⟩
    | failed err _ _ _ => exact ⟨_, rfl⟩
    | trapped hge _ => omega
  · obtain ⟨err, -, out, heq⟩ := refuses_of_not_joins hi hlock r fun a hj => hjoins ⟨a, hj⟩
    exact ⟨_, heq⟩

/-! ## When it is the right one -/

/-- What a right choice takes: a PE in the table, and no window of the blade on it if none
is asked for. -/
theorem PicksWindow.unrecorded (hi : Inv l s.dev) (hlock : s.locks = Locks.free)
    (hpin : cpumask_weight c.cpus_mask ≤ 1) (h : PicksWindow c blade r s)
    (hj : Joins c blade s a) : l.online.getLsbD c.cpu = true ∧
      (r < 0 → a.window (hw.slot c.cpu) = A64FX_HWB_UNASSIGNED_WIN) := by
  have hon : l.online.getLsbD c.cpu = true := by
    by_contra hoff
    obtain ⟨m, hfind⟩ := hj.finds hi hpin
    obtain ⟨x, hok⟩ := h.returns
    rw [assign_no_entry hi.table hlock r hfind hj.member (Bool.not_eq_true _ ▸ hoff)] at hok
    cases hok
  refine ⟨hon, fun hneg => ?_⟩
  by_contra hrec
  obtain ⟨w, -, -, -, hw⟩ :=
    ((hi.sane _ a hj.held).records_or_none hon hj.cmg.symm).resolve_right hrec
  obtain ⟨err, herr, out, heq⟩ := reuse_refused hi hlock hpin hneg hon hj hrec
  have hzero := heq.symm.trans (h.reuse a w hj hw hneg)
  simp only [Except.ok.injEq, Prod.mk.injEq] at hzero
  omega

/-- **When BW_ASSIGN picks the right window.** -/
theorem picks_window_iff (h : (driver l R).Reachable s) (c : Call hw)
    (hpin : cpumask_weight c.cpus_mask ≤ 1) (blade : ℤ) {r : ℤ} (hr : r < 64) :
    PicksWindow c blade r s ↔ ∀ a, Joins c blade s a → l.online.getLsbD c.cpu = true ∧
      (r < 0 → a.window (hw.slot c.cpu) = A64FX_HWB_UNASSIGNED_WIN) := by
  obtain ⟨hi, hlock⟩ := reachable_inv h
  constructor
  · exact fun hp a hj => hp.unrecorded hi hlock hpin hj
  · intro hcond
    refine ⟨assign_returns hi hlock hpin hr fun a hj => (hcond a hj).1,
      refuses_of_not_joins hi hlock r, fun a hj hnone => ?_, fun a w hj hrec hneg => ?_⟩
    · exact assign_right_window hi hlock hpin hr (hcond a hj).1 hj hnone
    · have hnone : a.window (hw.slot c.cpu) = -1 := (hcond a hj).2 hneg
      omega

/-- The first BW_ASSIGN of a blade. -/
theorem picks_window_quad : PicksWindow (Quad.call Quad.first 0) 0 (-1)
    (after Quad.load [Quad.alloc Quad.first 0 0x3]) := by
  have hreach : (driver Quad.load fun _ => True).Reachable
      (after Quad.load [Quad.alloc Quad.first 0 0x3]) :=
    reachable_after trivial (by decide +kernel) (by decide)
  refine (picks_window_iff hreach _ (by decide) 0 (by decide)).mpr fun a hj => ?_
  have hnone : ∀ m ∈ (after Quad.load [Quad.alloc Quad.first 0 0x3]).dev.task_list,
      ∀ a ∈ m.allocs, a.window (Quad.machine.slot 0) = A64FX_HWB_UNASSIGNED_WIN := by
    decide +kernel
  obtain ⟨m, hm, -, ha⟩ := hj.held
  exact ⟨by decide, fun _ => hnone m hm a ha⟩

/-- The same call again: the window it has is not handed out. -/
theorem second_assign_refused : (driver Quad.load fun _ => True).Reachable
      (after Quad.load [Quad.alloc Quad.first 0 0x3, Quad.assign Quad.first 0 0 0xFF]) ∧
    ¬PicksWindow (Quad.call Quad.first 0) 0 (-1)
      (after Quad.load [Quad.alloc Quad.first 0 0x3, Quad.assign Quad.first 0 0 0xFF]) := by
  have hreach : (driver Quad.load fun _ => True).Reachable
      (after Quad.load [Quad.alloc Quad.first 0 0x3, Quad.assign Quad.first 0 0 0xFF]) :=
    reachable_after trivial (by decide +kernel) (by decide)
  refine ⟨hreach, fun hp => ?_⟩
  have hrec : ∃ m ∈ (after Quad.load [Quad.alloc Quad.first 0 0x3,
      Quad.assign Quad.first 0 0 0xFF]).dev.task_list, m.group = 10 ∧
      ∃ a ∈ m.allocs, a.cmg = 0 ∧ a.blade = 0 ∧ a.cpumask.getLsbD 0 = true ∧
        a.window (Quad.machine.slot 0) = 0 := by
    decide +kernel
  obtain ⟨m, hm, hg, a, ha, hc, hb, hmem, hw⟩ := hrec
  obtain ⟨hi, hlock⟩ := reachable_inv hreach
  have hj : Joins (Quad.call Quad.first 0) 0 (after Quad.load [Quad.alloc Quad.first 0 0x3,
      Quad.assign Quad.first 0 0 0xFF]) a :=
    ⟨⟨m, hm, hg, ha⟩, hc, by rw [hb]; rfl, hmem⟩
  have hnone := (hp.unrecorded hi hlock (by decide) hj).2 (by decide)
  exact absurd (hw.symm.trans hnone) (by decide)

end A64fxHwb
