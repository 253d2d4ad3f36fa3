/-
What a BB_ALLOC that returns 0 has allocated.

With a blade free and the group's mapping at hand, `oss_a64fx_hwb_allocate` returns
0 and hands out the lowest blade that is free. It gets there without looking at
what `register_allocation` returns, which is a null pointer both after a success
and after a failed `kmalloc`; in the second case nothing has been allocated.
-/
import A64fxHwb.Failure

set_option autoImplicit false

namespace A64fxHwb

open BitWord Relation Runs

variable {hw : Machine} {l : Load hw} {c : Call hw} {R : hwb_regs → Prop}
variable {s s' t : Kernel} {m : a64fx_task_mapping} {cmg : Fin MAX_NUM_CMG} {mask : cpumask_t}

/-! ## A real allocation -/

/-- The mask has at least two CPUs, all of them online, in the table and on the CMG. -/
structure ValidMask (l : Load hw) (c : Call hw) (cmg : Fin MAX_NUM_CMG) (mask : cpumask_t) :
    Prop where
  weight : 2 ≤ cpumask_weight mask
  online : ∀ k, mask.getLsbD k = true → c.online.getLsbD k = true
  known : ∀ k, mask.getLsbD k = true → l.online.getLsbD k = true
  cmg : ∀ k, mask.getLsbD k = true → hw.cmg k = cmg

/-- The allocation `a` is the only difference to the state before: it is for the
blade `b`, which is the lowest that was inactive, it has the CPUs of the mask and no
window, and the register of the blade selects these CPUs and has no `BST` bit. -/
structure Grants (c : Call hw) (cmg : Fin MAX_NUM_CMG) (mask : cpumask_t) (b : ℕ)
    (a : a64fx_task_allocation) (s s' : Kernel) : Prop where
  inactive : b < MAX_BB_PER_CMG ∧ s.dev.bb cmg b = false
  lowest : ∀ b' < b, s.dev.bb cmg b' = true
  place : a.place = (cmg.val, b)
  cpumask : a.cpumask = mask
  window : ∀ j, a.window j = A64FX_HWB_UNASSIGNED_WIN
  assign_mask : a.assign_mask = 0
  assign_count : a.assign_count = 0
  held : ∀ g x, Held s'.dev g x ↔ Held s.dev g x ∨ (g = c.task.tgid ∧ x = a)
  new : ∀ g x, Held s.dev g x → x.place ≠ a.place
  selects : Selects hw s'.regs a
  bst : bst s'.regs cmg b = 0
  others : ∀ cmg' b', ¬(cmg' = cmg ∧ b' = b) →
    s'.regs.init_sync_bb cmg' b' = s.regs.init_sync_bb cmg' b' ∧
      s'.dev.bb cmg' b' = s.dev.bb cmg' b'
  bw : ∀ cmg j w, s'.dev.bw cmg j w = s.dev.bw cmg j w
  windows : s'.regs.assign_sync_wr = s.regs.assign_sync_wr ∧
    s'.regs.bst_sync_wr = s.regs.bst_sync_wr

/-- `oss_a64fx_hwb_allocate` returns 0 exactly if there is an allocation to show for
it, and it fails when all blades are active. -/
def ReallyAllocates (c : Call hw) (cmg : Fin MAX_NUM_CMG) (mask : cpumask_t) (s : Kernel) : Prop :=
  ∃ err blade s', oss_a64fx_hwb_allocate c cmg.val mask s = .ok ((err, blade), s') ∧
    (err = 0 ↔ ∃ b a, blade = some b ∧ Grants c cmg mask b a s s') ∧
    (AllActive s cmg → err < 0)

/-- There is a blade and a mapping, but no memory for the allocation. -/
def NoMemoryLeft (c : Call hw) (cmg : Fin MAX_NUM_CMG) (s : Kernel) : Prop :=
  c.kmalloc_alloc = false ∧ ¬AllActive s cmg ∧
    (get_taskmap s.dev c.task ≠ none ∨ c.kmalloc_taskmap = true)

/-! ## The outcome -/

theorem ValidMask.accepted (h : ValidMask l c cmg mask) : Accepted l c.online cmg mask := by
  refine ⟨h.online, fun k hk _ => h.cmg k hk, ?_⟩
  have hne : mask ≠ 0 := by
    intro h0
    have hweight := h.weight
    have hzero : cpumask_weight (0 : cpumask_t) = 0 := weight_zero
    rw [h0, hzero] at hweight
    omega
  obtain ⟨k, hk⟩ := exists_getLsbD_of_ne_zero hne
  exact ⟨k, hk, h.known k hk⟩

/-- **Taking a blade grants it**, whether the mapping was there or has just been
created. -/
theorem grants_allocated (hi : Inv l s.dev) (hmask : ValidMask l c cmg mask)
    (hmap : Mapped c s m t)
    (hbit : firstZero (s.dev.cmgs cmg).bb_active MAX_BB_PER_CMG < MAX_BB_PER_CMG) :
    Grants c cmg mask (firstZero (s.dev.cmgs cmg).bb_active MAX_BB_PER_CMG)
      (init_allocation (t.dev.cmgs cmg) m
        (firstZero (s.dev.cmgs cmg).bb_active MAX_BB_PER_CMG) mask) s
      (allocated c m cmg (firstZero (s.dev.cmgs cmg).bb_active MAX_BB_PER_CMG) mask t) := by
  obtain ⟨hfree, hlow⟩ := firstZero_spec hbit
  generalize firstZero (s.dev.cmgs cmg).bb_active MAX_BB_PER_CMG = b at hbit hfree hlow ⊢
  have hit := hmap.inv hi
  obtain ⟨hm, hg⟩ := hmap.mem
  obtain ⟨hc, hbl⟩ := init_allocation_spec hit.table cmg m hbit mask
  have hplace : (init_allocation (t.dev.cmgs cmg) m b mask).place = (cmg.val, b) := Prod.ext hc hbl
  have hb6 : b < 6 := hbit
  obtain ⟨k, hk, hload⟩ := hmask.accepted.known
  -- the registers before are those of `s`
  have hregs := hmap.regs
  have hbb : ∀ cmg' b', t.dev.bb cmg' b' = s.dev.bb cmg' b' := fun cmg' b' => by
    rw [a64fx_hwb_device.bb, hmap.cmgs, ← a64fx_hwb_device.bb]
  refine ⟨⟨hbit, hfree⟩, hlow, hplace, rfl, fun _ => rfl, rfl, rfl, fun g x => ?_,
    fun g x hx hp => ?_, ?_, ?_, fun cmg' b' hne => ⟨?_, ?_⟩, fun cmg' j w => ?_, ?_, ?_⟩
  · refine (held_hold_alloc hit.lists hm rfl g x).trans ?_
    rw [hmap.held, hg]
  · exact hi.fresh_place hfree hx (hp.trans hplace)
  · have harm := selects_arm (a := init_allocation (t.dev.cmgs cmg) m b mask) (c := c) hit.table
      hc (by rw [hbl]; exact hbit)
      (fun k hk => ⟨hmask.known k hk, by rw [hc, hmask.cmg k hk]⟩) hk hload (hmask.cmg k hk)
      (hmask.online k hk)
    rw [hbl] at harm
    exact harm
  · -- a value that is written has no `BST` bit
    have hwrites : Writes l c cmg mask :=
      ⟨⟨k, hload, hmask.cmg k hk, hmask.online k hk⟩, k, hk, hload, hmask.cmg k hk⟩
    have hval := (arm_blade_init_sync_bb (c := c) (s := t) cmg hit.table hbit mask).1 hwrites
    refine (eq_zero_iff _).mpr fun p => ?_
    have hreg : (allocated c m cmg b mask t).regs.init_sync_bb cmg b =
        init_sync_bb_val (cpumask_to_ppemask (t.dev.cmgs cmg) mask) := hval
    rw [getLsbD_bst, hreg]
    by_cases hp : p < 13
    · rw [getLsbD_init_sync_bb_val_low _ hp, Bool.false_and]
    · rw [decide_eq_false hp, Bool.and_false]
  · rw [← hregs]
    exact arm_blade_of_ne hit.table _ hne
  · rw [← hbb]
    apply Bool.eq_iff_iff.mpr
    refine (bb_hold_alloc (by omega) cmg' b').trans ?_
    rw [hbl]
    exact ⟨fun h => h.resolve_right hne, Or.inl⟩
  · refine (bw_hold_alloc cmg' j w).trans ?_
    rw [a64fx_hwb_device.bw, hmap.cmgs, ← a64fx_hwb_device.bw]
  · rw [← hregs]
    exact arm_blade_assign_sync_wr _ _ _ _
  · rw [← hregs]
    exact arm_blade_bst_sync_wr _ _ _ _

/-- **When an allocation really allocates**: unless a blade is free and the mapping is
there, and the memory for the allocation itself is not. -/
theorem really_allocates_iff (h : (driver l R).Reachable s) (hmask : ValidMask l c cmg mask) :
    ReallyAllocates c cmg mask s ↔ ¬NoMemoryLeft c cmg s := by
  obtain ⟨hi, hlock⟩ := reachable_inv h
  unfold ReallyAllocates
  rcases mapped_or_no_memory c s with ⟨m, t, hmap⟩ | ⟨hget, hmem⟩
  swap
  · -- no mapping: it fails, and hands out nothing
    have hok := allocate_no_memory (congrArg Locks.dev_lock hlock) cmg mask hget hmem
    refine iff_of_true ⟨_, _, _, hok, ⟨fun h0 => absurd h0 (by decide), ?_⟩, fun _ => by decide⟩ ?_
    · rintro ⟨b, a, hblade, -⟩
      cases hblade
    · rintro ⟨-, -, hsome | hmem'⟩
      · exact hsome hget
      · rw [hmem] at hmem'
        exact Bool.noConfusion hmem'
  have hmapping := hmap.mapping
  have hok := allocate_eq hi hlock cmg mask hmap
  unfold allocate_outcome at hok
  rw [hmap.cmgs] at hok
  by_cases hall : AllActive s cmg
  · have hbit : ¬firstZero (s.dev.cmgs cmg).bb_active MAX_BB_PER_CMG < MAX_BB_PER_CMG :=
      fun h => (not_allActive_iff s cmg).mpr h hall
    simp only [if_neg hbit] at hok
    refine iff_of_true ⟨_, _, _, hok, ⟨fun h0 => absurd h0 (by decide), ?_⟩, fun _ => by decide⟩
      fun hno => hno.2.1 hall
    rintro ⟨b, a, hblade, -⟩
    cases hblade
  have hbit := (not_allActive_iff s cmg).mp hall
  simp only [if_pos hbit] at hok
  cases hmem : c.kmalloc_alloc with
  | true =>
      rw [if_pos hmem] at hok
      refine iff_of_true ⟨_, _, _, hok, ⟨fun _ => ?_, fun _ => rfl⟩, fun h => absurd h hall⟩ ?_
      · exact ⟨_, _, rfl, grants_allocated hi hmask hmap hbit⟩
      · rintro ⟨hnone, -⟩
        rw [hmem] at hnone
        exact Bool.noConfusion hnone
  | false =>
      -- it returns 0, and the group holds nothing more than before
      rw [if_neg (by rw [hmem]; exact Bool.false_ne_true)] at hok
      refine iff_of_false ?_ fun hno => hno ⟨hmem, hall, hmapping⟩
      rintro ⟨err, blade, s', hok', hiff, -⟩
      rw [hok] at hok'
      cases hok'
      obtain ⟨b, a, -, hgrants⟩ := hiff.mp rfl
      have hheld := (hgrants.held c.task.tgid a).mpr (Or.inr ⟨rfl, rfl⟩)
      exact hgrants.new _ a ((hmap.held _ _).mp hheld) rfl

theorem quad_valid_mask (b : Bool) : ValidMask Quad.load
    { Quad.call Quad.first 0 with kmalloc_alloc := b } 0 0x3 := by
  have hcpus : ∀ k : Fin 64, (0x3 : cpumask_t).getLsbD k = true →
      (0xF : cpumask_t).getLsbD k = true ∧ Quad.machine.cmg k = 0 := by
    decide +kernel
  have hall : ∀ k, (0x3 : cpumask_t).getLsbD k = true →
      (0xF : cpumask_t).getLsbD k = true ∧ Quad.machine.cmg k = 0 :=
    fun k hk => hcpus ⟨k, BitVec.lt_of_getLsbD hk⟩ hk
  exact ⟨by decide, fun k hk => (hall k hk).1, fun k hk => (hall k hk).1, fun k hk => (hall k hk).2⟩

/-- With memory, CPUs 0 and 1 get a blade. -/
theorem really_allocates_quad :
    ReallyAllocates (Quad.call Quad.first 0) 0 0x3 (after Quad.load []) := by
  have hreach : (driver Quad.load fun _ => True).Reachable (after Quad.load []) :=
    reachable_after trivial (by decide +kernel) (by decide)
  refine (really_allocates_iff hreach (quad_valid_mask true)).mpr ?_
  rintro ⟨hmem, -⟩
  exact Bool.noConfusion hmem

/-- Without memory for the allocation the call returns 0 and hands out blade 0, and
nobody holds a blade. -/
theorem granted_without_memory :
    (driver Quad.load fun _ => True).Reachable (after Quad.load []) ∧
      ValidMask Quad.load { Quad.call Quad.first 0 with kmalloc_alloc := false } 0 0x3 ∧
      ¬ReallyAllocates { Quad.call Quad.first 0 with kmalloc_alloc := false } 0 0x3
        (after Quad.load []) := by
  refine ⟨reachable_after trivial (by decide +kernel) (by decide), quad_valid_mask false, ?_⟩
  rintro ⟨err, blade, s', hok, hiff, -⟩
  have hrun : (match oss_a64fx_hwb_allocate
      { Quad.call Quad.first 0 with kmalloc_alloc := false } (0 : Fin MAX_NUM_CMG).val 0x3
      (after Quad.load []) with
    | .ok x => decide (x.1 = (0, some 0) ∧ x.2.dev.allocs = [])
    | .error _ => false) = true := by
    decide +kernel
  rw [hok] at hrun
  obtain ⟨hret, hnone⟩ := of_decide_eq_true hrun
  cases hret
  obtain ⟨b, a, -, hgrants⟩ := hiff.mp rfl
  have hheld := (hgrants.held _ a).mpr (Or.inr ⟨rfl, rfl⟩)
  have hmem := mem_allocs.mpr ⟨_, hheld⟩
  rw [hnone] at hmem
  cases hmem

end A64fxHwb
