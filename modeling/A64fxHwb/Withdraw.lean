/-
What a withdrawing thread does to the others of its blade.

A BB_FREE by a thread that is not the one in the mapping takes the caller's CPU out
of the blade and writes the blade's register again, with the mask of the CPUs that
are left. The mask field comes out right for every CPU that stays. The same write
sets all `BST` bits to zero, and with them the bits of the CPUs that have already
arrived at the barrier. Nothing else of the others is touched.
-/
import A64fxHwb.Blades
import A64fxHwb.Outcome

set_option autoImplicit false

namespace A64fxHwb

open BitWord Relation Runs

variable {hw : Machine} {l : Load hw} {c : Call hw} {ok : Kind → Prop} {R : hwb_regs → Prop}
variable {s s' t : Kernel} {e : Event hw} {m : a64fx_task_mapping} {a x y : a64fx_task_allocation}
variable {cmg : Fin MAX_NUM_CMG} {g : ℕ}

/-! ## The two fields of a blade register -/

/-- The `BST` field of a blade register. -/
def bst (regs : hwb_regs) (cmg : Fin MAX_NUM_CMG) (blade : ℕ) : BitVec 64 :=
  regs.init_sync_bb cmg blade &&& A64FX_HWB_INIT_BST_MASK

/-- The CPUs that arrive at a barrier set `BST` bits behind the driver's back: the
state with the field of one blade replaced. -/
def Kernel.with_bst (s : Kernel) (cmg : Fin MAX_NUM_CMG) (blade : ℕ) (arrived : BitVec 64) :
    Kernel :=
  { s with
    regs := { s.regs with
      init_sync_bb := Function.update s.regs.init_sync_bb cmg
        (Function.update (s.regs.init_sync_bb cmg) blade
          ((s.regs.init_sync_bb cmg blade &&& ~~~A64FX_HWB_INIT_BST_MASK) |||
            (arrived &&& A64FX_HWB_INIT_BST_MASK))) } }

theorem getLsbD_bst (regs : hwb_regs) (cmg : Fin MAX_NUM_CMG) (b p : ℕ) :
    (bst regs cmg b).getLsbD p = ((regs.init_sync_bb cmg b).getLsbD p && decide (p < 13)) := by
  rw [bst, BitVec.getLsbD_and, getLsbD_init_bst_mask]

theorem getLsbD_bst_mask (regs : hwb_regs) (cmg : Fin MAX_NUM_CMG) (b p : ℕ) :
    (bst_mask regs cmg b).getLsbD p =
      ((regs.init_sync_bb cmg b).getLsbD (32 + p) && decide (p < 13)) := by
  rw [bst_mask, BitVec.getLsbD_and, BitVec.getLsbD_ushiftRight, getLsbD_init_bst_mask]

/-- Arrivals are what the field says, -/
theorem getLsbD_bst_with_bst (s : Kernel) (cmg : Fin MAX_NUM_CMG) (b : ℕ) (arrived : BitVec 64)
    (p : ℕ) : (bst (s.with_bst cmg b arrived).regs cmg b).getLsbD p =
      (arrived.getLsbD p && decide (p < 13)) := by
  rw [getLsbD_bst, Kernel.with_bst]
  simp only [Function.update_self, BitVec.getLsbD_or, BitVec.getLsbD_and, BitVec.getLsbD_not,
    getLsbD_init_bst_mask]
  by_cases hp : p < 13
  · simp [hp]
  · simp [hp]

/-- and leave the mask alone. -/
theorem bst_mask_with_bst (s : Kernel) (cmg : Fin MAX_NUM_CMG) (b : ℕ) (arrived : BitVec 64)
    (cmg' : Fin MAX_NUM_CMG) (b' : ℕ) :
    bst_mask (s.with_bst cmg b arrived).regs cmg' b' = bst_mask s.regs cmg' b' := by
  by_cases hc : cmg' = cmg
  · subst hc
    by_cases hb : b' = b
    · subst hb
      refine BitVec.eq_of_getLsbD_eq fun p _ => ?_
      rw [getLsbD_bst_mask, getLsbD_bst_mask, Kernel.with_bst]
      simp only [Function.update_self, BitVec.getLsbD_or, BitVec.getLsbD_and, BitVec.getLsbD_not,
        getLsbD_init_bst_mask]
      -- the fields do not overlap
      by_cases hp : p < 13
      · have hge : ¬32 + p < 13 := by omega
        have hlt : 32 + p < 64 := by omega
        simp [hge, hlt]
      · simp [hp]
    · unfold bst_mask Kernel.with_bst
      simp only [Function.update_self, Function.update_of_ne hb]
  · unfold bst_mask Kernel.with_bst
    simp only [Function.update_of_ne hc]

/-- A value that is written has no `BST` bit. -/
theorem getLsbD_init_sync_bb_val_low (mask : BitVec 64) {p : ℕ} (hp : p < 13) :
    (init_sync_bb_val mask).getLsbD p = false := by
  have hlt : p < A64FX_HWB_INIT_BST_SHIFT := by
    show p < 32
    omega
  unfold init_sync_bb_val
  rw [BitVec.getLsbD_shiftLeft, decide_eq_true hlt]
  simp

/-! ## When the register is written -/

/-- The driver's write of a blade register reaches the register: a CPU of the table
is online on the CMG, and the mask has a CPU of the table there. -/
def Writes (l : Load hw) (c : Call hw) (cmg : Fin MAX_NUM_CMG) (mask : cpumask_t) : Prop :=
  (∃ k, l.online.getLsbD k = true ∧ hw.cmg k = cmg ∧ c.online.getLsbD k = true) ∧
    ∃ k, mask.getLsbD k = true ∧ l.online.getLsbD k = true ∧ hw.cmg k = cmg

theorem ppemask_ne_zero_iff (ht : Table l s.dev) (cmg : Fin MAX_NUM_CMG) (mask : cpumask_t) :
    cpumask_to_ppemask (s.dev.cmgs cmg) mask ≠ 0 ↔
      ∃ k, mask.getLsbD k = true ∧ l.online.getLsbD k = true ∧ hw.cmg k = cmg := by
  constructor
  · intro hne
    obtain ⟨p, hp⟩ := exists_getLsbD_of_ne_zero hne
    obtain ⟨k, hk, hon, hc, -⟩ := (getLsbD_cpumask_to_ppemask ht cmg mask p).mp hp
    exact ⟨k, hk, hon, hc⟩
  · rintro ⟨k, hk, hon, hc⟩ h0
    have hbit := (getLsbD_cpumask_to_ppemask ht cmg mask (hw.ppe k)).mpr ⟨k, hk, hon, hc, rfl⟩
    rw [h0] at hbit
    simp at hbit

/-- The register of the blade that is armed. -/
theorem arm_blade_init_sync_bb (cmg : Fin MAX_NUM_CMG) (ht : Table l s.dev) {b : ℕ}
    (hb : b < MAX_BB_PER_CMG) (mask : cpumask_t) :
    (Writes l c cmg mask →
        (arm_blade c cmg b (cpumask_to_ppemask (s.dev.cmgs cmg) mask) s).regs.init_sync_bb cmg b =
          init_sync_bb_val (cpumask_to_ppemask (s.dev.cmgs cmg) mask)) ∧
      (¬Writes l c cmg mask →
        arm_blade c cmg b (cpumask_to_ppemask (s.dev.cmgs cmg) mask) s = s) := by
  constructor
  · rintro ⟨⟨k, hon, hc, hcall⟩, hknown⟩
    exact arm_blade_self ht hb ((ppemask_ne_zero_iff ht cmg mask).mpr hknown) hon hc hcall
  · intro hno
    by_cases hzero : cpumask_to_ppemask (s.dev.cmgs cmg) mask = 0
    · rw [hzero]
      exact arm_blade_zero cmg b s
    · -- nobody is there to write
      have hknown := (ppemask_ne_zero_iff ht cmg mask).mp hzero
      have hnobody : (s.dev.cmgs cmg).cmgmask &&& c.online = 0 := by
        by_contra hsome
        obtain ⟨k, hk⟩ := exists_getLsbD_of_ne_zero hsome
        rw [BitVec.getLsbD_and, Bool.and_eq_true] at hk
        obtain ⟨hon, hc⟩ := (ht.cmgmask cmg k).mp hk.1
        exact hno ⟨⟨k, hon, hc, hk.2⟩, hknown⟩
      unfold arm_blade smp_call_function_any
      simp only [if_pos hnobody]

/-- Bit `p` of the mask field after the write. -/
theorem getLsbD_bst_mask_arm (ht : Table l s.dev) {b : ℕ} (hb : b < MAX_BB_PER_CMG)
    {mask : cpumask_t} (hwrites : Writes l c cmg mask) (p : ℕ) :
    (bst_mask (arm_blade c cmg b (cpumask_to_ppemask (s.dev.cmgs cmg) mask) s).regs
        cmg b).getLsbD p = true ↔
      ∃ k, mask.getLsbD k = true ∧ l.online.getLsbD k = true ∧ hw.cmg k = cmg ∧ hw.ppe k = p := by
  have hval := (arm_blade_init_sync_bb (c := c) cmg ht hb mask).1 hwrites
  unfold bst_mask
  rw [hval, getLsbD_init_sync_bb_val, Bool.and_eq_true, getLsbD_cpumask_to_ppemask ht,
    decide_eq_true_eq]
  constructor
  · exact fun h => h.1
  · rintro ⟨k, hk, hon, hc, rfl⟩
    exact ⟨⟨k, hk, hon, hc, rfl⟩, hw.ppe_lt k (l.online_present k hon)⟩

/-! ## The register of a live blade

CPUs that came online after the load may be in a blade's mask. They are in no table,
and no register selects them. -/

/-- The CPUs of the blade are CPUs of the machine, and its register selects those of
the table among them and no CPU that is not in the table. -/
structure Covers (l : Load hw) (regs : hwb_regs) (a : a64fx_task_allocation) : Prop where
  present : ∀ k, a.cpumask.getLsbD k = true → hw.present.getLsbD k = true
  cmg : ∀ k, a.cpumask.getLsbD k = true → l.online.getLsbD k = true → (hw.cmg k).val = a.cmg
  selected : ∀ cmg : Fin MAX_NUM_CMG, cmg.val = a.cmg → ∀ k, a.cpumask.getLsbD k = true →
    l.online.getLsbD k = true → (bst_mask regs cmg a.blade).getLsbD (hw.ppe k) = true
  known : ∀ cmg : Fin MAX_NUM_CMG, cmg.val = a.cmg → ∀ p,
    (bst_mask regs cmg a.blade).getLsbD p = true →
      ∃ k, l.online.getLsbD k = true ∧ hw.cmg k = cmg ∧ hw.ppe k = p

/-- Fewer CPUs of the same blade, with the same mask in the register. -/
theorem Covers.mono {regs regs' : hwb_regs} (h : Covers l regs a) (hp : x.place = a.place)
    (hmask : ∀ k, x.cpumask.getLsbD k = true → a.cpumask.getLsbD k = true)
    (hregs : ∀ cmg : Fin MAX_NUM_CMG, cmg.val = a.cmg →
      bst_mask regs' cmg a.blade = bst_mask regs cmg a.blade) : Covers l regs' x := by
  have hcx : x.cmg = a.cmg := congrArg Prod.fst hp
  have hbx : x.blade = a.blade := congrArg Prod.snd hp
  refine ⟨fun k hk => h.present k (hmask k hk), fun k hk hon => ?_, fun cmg hc k hk hon => ?_,
    fun cmg hc p hbit => ?_⟩
  · rw [hcx]
    exact h.cmg k (hmask k hk) hon
  · rw [hbx, hregs cmg (hc.trans hcx)]
    exact h.selected cmg (hc.trans hcx) k (hmask k hk) hon
  · rw [hbx, hregs cmg (hc.trans hcx)] at hbit
    exact h.known cmg (hc.trans hcx) p hbit

/-- A register that is written covers the CPUs of the mask. -/
theorem covers_arm (ht : Table l s.dev) (hc : a.cmg = cmg.val) (hb : a.blade < MAX_BB_PER_CMG)
    (hpresent : ∀ k, a.cpumask.getLsbD k = true → hw.present.getLsbD k = true)
    (hcmg : ∀ k, a.cpumask.getLsbD k = true → l.online.getLsbD k = true → (hw.cmg k).val = a.cmg)
    (hwrites : Writes l c cmg a.cpumask) :
    Covers l (arm_blade c cmg a.blade (cpumask_to_ppemask (s.dev.cmgs cmg) a.cpumask) s).regs
      a := by
  have hbits := getLsbD_bst_mask_arm (c := c) ht hb hwrites
  refine ⟨hpresent, hcmg, fun cmg' hc' k hk hon => ?_, fun cmg' hc' p hbit => ?_⟩
  · have hcc : cmg' = cmg := Fin.ext (hc'.trans hc)
    rw [hcc, hbits]
    exact ⟨k, hk, hon, Fin.ext ((hcmg k hk hon).trans hc), rfl⟩
  · have hcc : cmg' = cmg := Fin.ext (hc'.trans hc)
    rw [hcc, hbits] at hbit
    obtain ⟨k, -, hon, hck, hp⟩ := hbit
    exact ⟨k, hon, hck.trans hcc.symm, hp⟩

theorem bst_mask_congr {regs regs' : hwb_regs} {cmg : Fin MAX_NUM_CMG} {b : ℕ}
    (h : regs'.init_sync_bb cmg b = regs.init_sync_bb cmg b) :
    bst_mask regs' cmg b = bst_mask regs cmg b := by
  unfold bst_mask
  rw [h]

/-- **Every small step keeps the live blades covered.** -/
theorem Micro.covers (hi : Inv l s.dev) (h : Micro l c ok s s')
    (hall : ∀ g a, Held s.dev g a → Covers l s.regs a) (g : ℕ) (x : a64fx_task_allocation)
    (hx : Held s'.dev g x) : Covers l s'.regs x := by
  cases h.blade_step hi hx with
  | same a _ ha hp hmask hregs =>
      refine (hall g a ha).mono hp (fun k hk => ?_) fun cmg hc => bst_mask_congr (hregs cmg hc)
      rw [← hmask]
      exact hk
  | armed m cmg b mask hb hmask hregs =>
      obtain ⟨hc, hbl⟩ := init_allocation_spec hi.table cmg m hb mask
      obtain ⟨k, hk, hload⟩ := hmask.known
      have hwrites : Writes l c cmg mask :=
        ⟨⟨k, hload, hmask.cmg k hk hload, hmask.online k hk⟩, k, hk, hload,
          hmask.cmg k hk hload⟩
      have harm := covers_arm (a := init_allocation (s.dev.cmgs cmg) m b mask) (c := c)
        hi.table hc (by rw [hbl]; exact hb)
        (fun k hk => c.online_present k (hmask.online k hk))
        (fun k hk hload => by rw [hc, hmask.cmg k hk hload]) hwrites
      rw [hregs]
      rw [hbl] at harm
      exact harm
  | left cmg a ha hc hmem hrest hregs =>
      have hcov := hall g a ha
      have hsub : ∀ k, (a.leave c.cpu).cpumask.getLsbD k = true →
          a.cpumask.getLsbD k = true := by
        intro k hk
        rw [a64fx_task_allocation.getLsbD_leave, Bool.and_eq_true] at hk
        exact hk.1
      rw [hregs]
      by_cases hwrites : Writes l c cmg (a.leave c.cpu).cpumask
      · exact covers_arm (a := a.leave c.cpu) hi.table hc (hi.sane _ a ha).blade_lt
          (fun k hk => hcov.present k (hsub k hk)) (fun k hk => hcov.cmg k (hsub k hk)) hwrites
      · -- the register keeps the mask it had
        have hsame := (arm_blade_init_sync_bb (c := c) (s := s) cmg hi.table
          (hi.sane _ a ha).blade_lt (a.leave c.cpu).cpumask).2 hwrites
        refine hcov.mono (a.place_leave c.cpu) hsub fun cmg' hc' => bst_mask_congr ?_
        rw [Fin.ext (hc'.trans hc), hsame]

theorem covers_of_run (h : (driver l R).Reachable s) (g : ℕ) (a : a64fx_task_allocation)
    (ha : Held s.dev g a) : Covers l s.regs a := by
  refine run_invariant (P := fun s => ∀ g a, Held s.dev g a → Covers l s.regs a) ?_ ?_ h g a ha
  · intro regs s _ hload g a ha
    rw [hload.spec.1] at ha
    exact absurd ha (not_held_loaded hload.packed g a)
  · intro s e _ t t' hi hall hm
    exact hm.covers hi hall

/-! ## The state a withdrawal leaves -/

/-- The caller's CPU has given its window back, if it had one, and `y` is what the
allocation `a` is then. The entries of the other CPUs are what they were. -/
structure Unassigned (c : Call hw) (g : ℕ) (a y : a64fx_task_allocation) (s t : Kernel) : Prop where
  held : Held t.dev g y
  place : y.place = a.place
  cpumask : y.cpumask = a.cpumask
  assign_mask : ∀ k, k ≠ c.cpu → y.assign_mask.getLsbD k = a.assign_mask.getLsbD k
  window : ∀ k, hw.present.getLsbD k = true → (hw.cmg k).val = a.cmg → k ≠ c.cpu →
    y.window (hw.slot k) = a.window (hw.slot k)
  init_sync_bb : t.regs.init_sync_bb = s.regs.init_sync_bb
  bst_sync_wr : t.regs.bst_sync_wr = s.regs.bst_sync_wr
  assign_sync_wr : ∀ k, k ≠ c.cpu → t.regs.assign_sync_wr k = s.regs.assign_sync_wr k
  locks : t.locks = s.locks

theorem set_wr_bst_sync_wr (cpu window valid blade : ℤ) (s : Kernel) :
    (set_wr c cpu window valid blade s).regs.bst_sync_wr = s.regs.bst_sync_wr := by
  unfold set_wr smp_call_function_single write_assign_sync_wr
  split_ifs
  all_goals rfl

theorem arm_blade_bst_sync_wr (cmg : Fin MAX_NUM_CMG) (blade : ℤ) (mask : BitVec 64)
    (s : Kernel) : (arm_blade c cmg blade mask s).regs.bst_sync_wr = s.regs.bst_sync_wr := by
  unfold arm_blade smp_call_function_any write_init_sync_bb
  split_ifs
  all_goals rfl

/-- **What a withdrawal comes to** when another CPU is left in the blade. -/
theorem free_withdraw_kept (cmg : Fin MAX_NUM_CMG) {tm : a64fx_task_mapping} (hi : Inv l s.dev)
    (hg : tm.group = c.task.tgid) (ha : Held s.dev tm.group a)
    (hmem : a.cpumask.getLsbD c.cpu = true)
    (hothers : ∃ k, k ≠ c.cpu ∧ a.cpumask.getLsbD k = true) :
    ∃ y t, oss_a64fx_hwb_free_withdraw c cmg tm a s = .ok (with_left c cmg tm y t) ∧
      Inv l t.dev ∧ Unassigned c tm.group a y s t := by
  have hrest := leave_cpumask_ne_zero hothers
  have hweight : ∀ y : a64fx_task_allocation, y.cpumask = a.cpumask →
      ¬cpumask_weight (y.leave c.cpu).cpumask = 0 := by
    intro y hy h
    refine hrest ((weight_eq_zero_iff _).mp ?_)
    rw [← h, a64fx_task_allocation.leave, a64fx_task_allocation.leave, hy]
  by_cases hassign : a.assign_mask.getLsbD c.cpu = true
  · -- the window goes first, with a write to the caller's register 0
    obtain ⟨w, hw4, hr⟩ := (hi.sane _ a ha).recorded hassign
    obtain ⟨wb, hun⟩ := free_unassign_ok (c := c) (s := get_cpu s) hi.table tm hr hw4
    have hmicro : Micro l c (fun _ => True) (get_cpu s)
        { set_wr c c.cpu 0 0 0 (get_cpu s) with
          dev := (get_cpu s).dev.give_window tm (hw.cmg c.cpu) (hw.slot c.cpu) w wb
            (a.give (hw.slot c.cpu) c.cpu) } := by
      refine .give_window tm a c.cpu w 0 wb hg ha hr ?_
      exact Or.inr ⟨rfl, trivial⟩
    refine ⟨a.give (hw.slot c.cpu) c.cpu, _, ?_, Micro.inv (s := get_cpu s) hi hmicro, ?_⟩
    · unfold oss_a64fx_hwb_free_withdraw
      have hpe : get_pemap (get_cpu s).dev (hw.cmg c.cpu) (hw.ppe c.cpu) =
          some (hw.slot c.cpu) := get_pemap_online hi.table hr.1
      simp only [Machine.read_peinfo, cpumask_test_cpu, hmem, if_true, hassign, hpe, hun,
        Loops.ok_bind]
      rw [free_leave_eq, if_neg (hweight (a.give (hw.slot c.cpu) c.cpu) rfl)]
    · refine ⟨?_, a.place_give (hw.slot c.cpu) c.cpu, rfl, fun k hk => ?_,
        fun k hp hck hk => ?_, set_wr_init_sync_bb _ _ _ _ _, set_wr_bst_sync_wr _ _ _ _ _,
        fun k hk => ?_, rfl⟩
      · exact (hi.held_store ha (a.place_give (hw.slot c.cpu) c.cpu) _ _).mpr (Or.inr ⟨rfl, rfl⟩)
      · simp only [a64fx_task_allocation.give, getLsbD_clearBit, decide_eq_false hk.symm,
          Bool.not_false, Bool.and_true]
      · -- another CPU of the CMG sits in another slot
        refine Function.update_of_ne (fun hslot => hk ?_) _ _
        exact hw.eq_of_slot hp (l.online_present _ hr.1) (Fin.ext (hck.trans hr.2.1.symm)) hslot
      · have hregs := set_wr_assign_sync_wr (c := c) (w := 0) (b := 0) c.cpu_online (by decide)
          (by decide) 0 (get_cpu s)
        exact (congrFun hregs k).trans (Function.update_of_ne hk _ _)
  · have hfree := Bool.eq_false_iff.mpr hassign
    refine ⟨a, get_cpu s, ?_, hi, ha, rfl, rfl, fun _ _ => rfl, fun _ _ _ _ => rfl,
      rfl, rfl, fun _ _ => rfl, rfl⟩
    unfold oss_a64fx_hwb_free_withdraw
    simp only [Machine.read_peinfo, cpumask_test_cpu, hmem, if_true, hfree, Bool.false_eq_true,
      if_false, pure_bind]
    rw [free_leave_eq, if_neg (hweight _ rfl)]

/-! ## The claim of the others -/

/-- The blade has lost the caller's CPU and no other, and for every CPU that is left
all that its barrier depends on is what it was: its bit in `BST_MASK`, its `BST`
bit, its window, whether it has one, and its window registers. -/
structure KeepsOthers (c : Call hw) (cmg : Fin MAX_NUM_CMG) (a x : a64fx_task_allocation)
    (s s' : Kernel) : Prop where
  place : x.place = a.place
  cpumask : ∀ k, x.cpumask.getLsbD k = true ↔ a.cpumask.getLsbD k = true ∧ k ≠ c.cpu
  bst_mask : ∀ k, x.cpumask.getLsbD k = true → hw.cmg k = cmg →
    (bst_mask s'.regs cmg a.blade).getLsbD (hw.ppe k) =
      (bst_mask s.regs cmg a.blade).getLsbD (hw.ppe k)
  bst : ∀ k, x.cpumask.getLsbD k = true → hw.cmg k = cmg →
    (bst s'.regs cmg a.blade).getLsbD (hw.ppe k) = (bst s.regs cmg a.blade).getLsbD (hw.ppe k)
  window : ∀ k, x.cpumask.getLsbD k = true → hw.cmg k = cmg →
    x.window (hw.slot k) = a.window (hw.slot k)
  assign_mask : ∀ k, x.cpumask.getLsbD k = true →
    x.assign_mask.getLsbD k = a.assign_mask.getLsbD k
  assign_sync_wr : ∀ k, x.cpumask.getLsbD k = true →
    s'.regs.assign_sync_wr k = s.regs.assign_sync_wr k
  bst_sync_wr : ∀ k, x.cpumask.getLsbD k = true → s'.regs.bst_sync_wr k = s.regs.bst_sync_wr k

/-- The BB_FREE of the blade of `a` returns 0 and keeps the others. -/
def Undisturbed (e : Event hw) (cmg : Fin MAX_NUM_CMG) (g : ℕ) (a : a64fx_task_allocation)
    (s : Kernel) : Prop :=
  ∃ reply s' x, handle e s = .ok (reply, s') ∧ reply.err = 0 ∧ Held s'.dev g x ∧
    KeepsOthers e.call cmg a x s s'

/-- One of the CPUs that are left has arrived at the barrier. -/
def OthersArrived (c : Call hw) (cmg : Fin MAX_NUM_CMG) (a : a64fx_task_allocation)
    (s : Kernel) : Prop :=
  ∃ k, k ≠ c.cpu ∧ a.cpumask.getLsbD k = true ∧ hw.cmg k = cmg ∧
    (bst s.regs cmg a.blade).getLsbD (hw.ppe k) = true

/-- The state of the registers after a withdrawal, seen from the blade. -/
structure Rewritten (l : Load hw) (c : Call hw) (cmg : Fin MAX_NUM_CMG)
    (a : a64fx_task_allocation) (s s' : Kernel) : Prop where
  kept : ¬Writes l c cmg (a.leave c.cpu).cpumask →
    s'.regs.init_sync_bb cmg a.blade = s.regs.init_sync_bb cmg a.blade
  cleared : Writes l c cmg (a.leave c.cpu).cpumask →
    ∀ p, (bst s'.regs cmg a.blade).getLsbD p = false
  mask : Writes l c cmg (a.leave c.cpu).cpumask → ∀ p,
    (bst_mask s'.regs cmg a.blade).getLsbD p = true ↔
      ∃ k, (a.leave c.cpu).cpumask.getLsbD k = true ∧ l.online.getLsbD k = true ∧
        hw.cmg k = cmg ∧ hw.ppe k = p

/-- The mask field keeps the bit of every CPU that stays, written or not. -/
theorem Rewritten.bst_mask (h : Rewritten l c cmg a s s') (hcov : Covers l s.regs a)
    (hc : cmg.val = a.cmg) {k : ℕ} (hk : a.cpumask.getLsbD k = true) (hne : k ≠ c.cpu)
    (hck : hw.cmg k = cmg) : (A64fxHwb.bst_mask s'.regs cmg a.blade).getLsbD (hw.ppe k) =
      (A64fxHwb.bst_mask s.regs cmg a.blade).getLsbD (hw.ppe k) := by
  by_cases hwrites : Writes l c cmg (a.leave c.cpu).cpumask
  swap
  · unfold A64fxHwb.bst_mask
    rw [h.kept hwrites]
  have hstay : (a.leave c.cpu).cpumask.getLsbD k = true := by
    rw [a64fx_task_allocation.getLsbD_leave, hk, decide_eq_false hne.symm]
    rfl
  apply Bool.eq_iff_iff.mpr
  rw [h.mask hwrites]
  constructor
  · -- what is selected now is in the table, and alone in its place
    rintro ⟨k', hk', hon, hck', hp⟩
    rw [a64fx_task_allocation.getLsbD_leave, Bool.and_eq_true] at hk'
    have hkk : k' = k := hw.eq_of_place (l.online_present k' hon) (hcov.present k hk)
      (hck'.trans hck.symm) hp
    rw [hkk] at hon
    exact hcov.selected cmg hc k hk hon
  · intro hbit
    obtain ⟨k', hon, hck', hp⟩ := hcov.known cmg hc _ hbit
    have hkk : k' = k := hw.eq_of_place (l.online_present k' hon) (hcov.present k hk)
      (hck'.trans hck.symm) hp
    rw [hkk] at hon
    exact ⟨k, hstay, hon, hck, rfl⟩

/-- The CPUs that are left are those of the blade but the caller's. -/
theorem Unassigned.stay (h : Unassigned c g a y s t) (k : ℕ) :
    (y.leave c.cpu).cpumask.getLsbD k = true ↔ a.cpumask.getLsbD k = true ∧ k ≠ c.cpu := by
  rw [a64fx_task_allocation.getLsbD_leave, h.cpumask, Bool.and_eq_true, Bool.not_eq_true',
    decide_eq_false_iff_not, ne_eq, @eq_comm ℕ c.cpu k]

/-- With the caller out of the blade, its register is written or not. -/
theorem Unassigned.rewritten {L : Locks} (h : Unassigned c g a y { s with locks := L } t)
    (ht : Table l t.dev) (hb : a.blade < MAX_BB_PER_CMG) (L' : Locks) :
    Rewritten l c cmg a s { with_left c cmg m y t with locks := L' } := by
  have hblade : y.blade = a.blade := congrArg Prod.snd h.place
  have hmask : (y.leave c.cpu).cpumask = (a.leave c.cpu).cpumask := by
    rw [a64fx_task_allocation.leave, a64fx_task_allocation.leave, h.cpumask]
  have harm := arm_blade_init_sync_bb (c := c) (s := t) cmg ht hb (a.leave c.cpu).cpumask
  have hreg : (with_left c cmg m y t).regs =
      (arm_blade c cmg a.blade
        (cpumask_to_ppemask (t.dev.cmgs cmg) (a.leave c.cpu).cpumask) t).regs := by
    rw [with_left, hblade, hmask]
  refine ⟨fun hno => ?_, fun hwrites p => ?_, fun hwrites p => ?_⟩
  · show (with_left c cmg m y t).regs.init_sync_bb cmg a.blade = _
    rw [hreg, harm.2 hno]
    exact congrFun (congrFun h.init_sync_bb cmg) a.blade
  · show (bst (with_left c cmg m y t).regs cmg a.blade).getLsbD p = false
    rw [hreg, getLsbD_bst, harm.1 hwrites]
    by_cases hp : p < 13
    · rw [getLsbD_init_sync_bb_val_low _ hp, Bool.false_and]
    · rw [decide_eq_false hp, Bool.and_false]
  · show (bst_mask (with_left c cmg m y t).regs cmg a.blade).getLsbD p = true ↔ _
    rw [hreg]
    exact getLsbD_bst_mask_arm ht hb hwrites p

/-- The others keep everything if they keep their `BST` bits. -/
theorem Unassigned.keepsOthers {L : Locks} (h : Unassigned c g a y { s with locks := L } t)
    (ht : Table l t.dev) (hb : a.blade < MAX_BB_PER_CMG) (hc : a.cmg = cmg.val)
    (hcov : Covers l s.regs a) (L' : Locks)
    (hbst : ∀ k, k ≠ c.cpu → a.cpumask.getLsbD k = true → hw.cmg k = cmg →
      (bst (with_left c cmg m y t).regs cmg a.blade).getLsbD (hw.ppe k) =
        (bst s.regs cmg a.blade).getLsbD (hw.ppe k)) :
    KeepsOthers c cmg a (y.leave c.cpu) s { with_left c cmg m y t with locks := L' } := by
  have hstay := h.stay
  refine ⟨(y.place_leave c.cpu).trans h.place, hstay, fun k hk hck => ?_, fun k hk hck => ?_,
    fun k hk hck => ?_, fun k hk => ?_, fun k hk => ?_, fun k hk => ?_⟩
  · obtain ⟨hka, hne⟩ := (hstay k).mp hk
    exact (h.rewritten (m := m) ht hb L').bst_mask hcov hc.symm hka hne hck
  · obtain ⟨hka, hne⟩ := (hstay k).mp hk
    exact hbst k hne hka hck
  · obtain ⟨hka, hne⟩ := (hstay k).mp hk
    exact h.window k (hcov.present k hka) (by rw [hck, hc]) hne
  · exact h.assign_mask k ((hstay k).mp hk).2
  · have hregs := arm_blade_assign_sync_wr (c := c) cmg y.blade
      (cpumask_to_ppemask (t.dev.cmgs cmg) (y.leave c.cpu).cpumask) t
    exact (congrFun hregs k).trans (h.assign_sync_wr k ((hstay k).mp hk).2)
  · have hregs := arm_blade_bst_sync_wr (c := c) cmg y.blade
      (cpumask_to_ppemask (t.dev.cmgs cmg) (y.leave c.cpu).cpumask) t
    exact (congrFun hregs k).trans (congrFun h.bst_sync_wr k)

/-- **What a withdrawal does to its blade**: everything the others need is kept, but
for the `BST` field, which is cleared when the register is written. -/
theorem withdrawal_outcome (hi : Inv l s.dev) (hlock : s.locks = Locks.free)
    {arg : UserArg fujitsu_hwb_ioc_bb_ctl} (he : e.request = .ioctl (.BB_FREE arg))
    (hf : FreesBlade e s m cmg a) (hpid : e.call.task.pid ≠ m.task.pid)
    (hmem : a.cpumask.getLsbD e.call.cpu = true)
    (hothers : ∃ k, k ≠ e.call.cpu ∧ a.cpumask.getLsbD k = true) :
    ∃ reply s' x, handle e s = .ok (reply, s') ∧ (reply.err = 0 ↔ arg.writable = true) ∧
      Held s'.dev m.group x ∧ x.place = a.place ∧
      (∀ k, x.cpumask.getLsbD k = true ↔ a.cpumask.getLsbD k = true ∧ k ≠ e.call.cpu) ∧
      Rewritten l e.call cmg a s s' ∧
      (Covers l s.regs a → (∀ k, k ≠ e.call.cpu → a.cpumask.getLsbD k = true → hw.cmg k = cmg →
        (bst s'.regs cmg a.blade).getLsbD (hw.ppe k) =
          (bst s.regs cmg a.blade).getLsbD (hw.ppe k)) → KeepsOthers e.call cmg a x s s') := by
  obtain ⟨arg', ioc, he', hread, hcmg, hget, halloc⟩ := hf
  rw [he] at he'
  cases he'
  obtain ⟨hm, hg⟩ := mem_of_get_taskmap hget
  obtain ⟨ha, hc, hb⟩ := get_allocation_eq_some hi.table halloc
  have hblt : a.blade < MAX_BB_PER_CMG := (hi.sane _ a ⟨m, hm, rfl, ha⟩).blade_lt
  obtain ⟨y, t, hwith, hit, hun⟩ := free_withdraw_kept (c := e.call) cmg
    (s := { s with locks := Locks.dev_held }) hi hg ⟨m, hm, rfl, ha⟩ hmem hothers
  have hfree := free_other_eq hi hlock hm hg ha hc hpid hwith hun.locks
  rw [hb, ← hcmg] at hfree
  refine ⟨_, _, y.leave e.call.cpu, free_event_eq he hread hfree, ?_, ?_,
    (y.place_leave e.call.cpu).trans hun.place, hun.stay, hun.rewritten hit.table hblt _,
    fun hcov hbst => hun.keepsOthers hit.table hblt hc hcov _ hbst⟩
  · unfold free_reply
    by_cases hw' : arg.writable = true
    · simp [hw']
    · simp [hw']
  · exact (hit.held_store hun.held (y.place_leave e.call.cpu) _ _).mpr (Or.inr ⟨rfl, rfl⟩)

/-- **When a withdrawing thread does not disturb the others**: unless the blade's
register is written while one of them has arrived. The register is written whenever
a CPU of the table is among those that are left and one of the CMG is online. -/
theorem withdrawal_undisturbed_iff (h : (driver l R).Reachable s) (arrived : BitVec 64)
    {arg : UserArg fujitsu_hwb_ioc_bb_ctl} (he : e.request = .ioctl (.BB_FREE arg))
    (hf : FreesBlade e s m cmg a) (hpid : e.call.task.pid ≠ m.task.pid)
    (hmem : a.cpumask.getLsbD e.call.cpu = true)
    (hothers : ∃ k, k ≠ e.call.cpu ∧ a.cpumask.getLsbD k = true) :
    Undisturbed e cmg m.group a (s.with_bst cmg a.blade arrived) ↔
      arg.writable = true ∧ ¬(Writes l e.call cmg (a.leave e.call.cpu).cpumask ∧
        OthersArrived e.call cmg a (s.with_bst cmg a.blade arrived)) := by
  obtain ⟨hi, hlock⟩ := reachable_inv h
  obtain ⟨hm, -, ha, hc⟩ := freesBlade_mem hi hf
  have hcov : Covers l (s.with_bst cmg a.blade arrived).regs a :=
    (covers_of_run h m.group a ⟨m, hm, rfl, ha⟩).mono rfl (fun _ hk => hk)
      fun cmg' _ => bst_mask_with_bst s cmg a.blade arrived cmg' a.blade
  obtain ⟨reply, s', x, hok, herr, hx, -, -, hrew, hkeeps⟩ :=
    withdrawal_outcome (s := s.with_bst cmg a.blade arrived) hi hlock he hf hpid hmem hothers
  constructor
  · rintro ⟨reply', t, y, hok', hzero, -, hkept⟩
    rw [hok] at hok'
    cases hok'
    refine ⟨herr.mp hzero, ?_⟩
    rintro ⟨hwrites, k, hne, hk, hck, hbit⟩
    -- the bit of an arrived CPU is cleared
    have hsame := hkept.bst k ((hkept.cpumask k).mpr ⟨hk, hne⟩) hck
    rw [hrew.cleared hwrites, hbit] at hsame
    exact Bool.noConfusion hsame
  · rintro ⟨hwritable, hno⟩
    refine ⟨reply, s', x, hok, herr.mpr hwritable, hx, hkeeps hcov fun k hne hk hck => ?_⟩
    by_cases hwrites : Writes l e.call cmg (a.leave e.call.cpu).cpumask
    · rw [hrew.cleared hwrites]
      by_contra hbit
      refine hno ⟨hwrites, k, hne, hk, hck, ?_⟩
      exact Bool.eq_true_of_not_eq_false fun hclear => hbit hclear.symm
    · unfold bst
      rw [hrew.kept hwrites]

/-- The second thread of a process, on CPU 1, asks for the blade of CPUs 0 to 2 to be
freed. -/
theorem quad_second_frees : ∃ m a,
    FreesBlade (Quad.free Quad.second 1 0) (after Quad.load [Quad.alloc Quad.first 0 0x7]) m 0 a ∧
      (Quad.free Quad.second 1 0).call.task.pid ≠ m.task.pid ∧ a.cpumask = 0x7 ∧ a.blade = 0 := by
  refine ⟨(get_taskmap _ _).get ?_, (get_allocation _ _ _).get ?_,
    ⟨_, _, rfl, rfl, rfl, (Option.some_get _).symm, (Option.some_get _).symm⟩, ?_⟩
  all_goals decide +kernel

/-- Nobody has arrived: CPU 1 leaves, and CPUs 0 and 2 keep their barrier. -/
theorem withdrawal_undisturbed_quad : ∃ m a,
    FreesBlade (Quad.free Quad.second 1 0) (after Quad.load [Quad.alloc Quad.first 0 0x7]) m 0 a ∧
      Undisturbed (Quad.free Quad.second 1 0) 0 m.group a
        ((after Quad.load [Quad.alloc Quad.first 0 0x7]).with_bst 0 a.blade 0) := by
  obtain ⟨m, a, hfrees, hpid, hmask, -⟩ := quad_second_frees
  have hreach : (driver Quad.load fun _ => True).Reachable
      (after Quad.load [Quad.alloc Quad.first 0 0x7]) :=
    reachable_after trivial (by decide +kernel) (by decide)
  have hmem : ∀ k < 3, a.cpumask.getLsbD k = true := by
    rw [hmask]
    decide
  refine ⟨m, a, hfrees, (withdrawal_undisturbed_iff hreach 0 rfl hfrees hpid (hmem 1 (by decide))
    ⟨0, by decide, hmem 0 (by decide)⟩).mpr ⟨rfl, ?_⟩⟩
  rintro ⟨-, k, -, -, -, hbit⟩
  rw [getLsbD_bst_with_bst] at hbit
  simp at hbit

/-- CPU 0 has arrived when CPU 1 leaves, and its `BST` bit is gone afterwards. -/
theorem withdrawal_clears_arrival :
    (driver Quad.load fun _ => True).Reachable (after Quad.load [Quad.alloc Quad.first 0 0x7]) ∧
      ∃ m a, FreesBlade (Quad.free Quad.second 1 0)
          (after Quad.load [Quad.alloc Quad.first 0 0x7]) m 0 a ∧
        (Quad.free Quad.second 1 0).call.task.pid ≠ m.task.pid ∧ a.cpumask = 0x7 ∧
        ¬Undisturbed (Quad.free Quad.second 1 0) 0 m.group a
          ((after Quad.load [Quad.alloc Quad.first 0 0x7]).with_bst 0 a.blade 0x1) := by
  obtain ⟨m, a, hfrees, hpid, hmask, hblade⟩ := quad_second_frees
  refine ⟨reachable_after trivial (by decide +kernel) (by decide), m, a, hfrees, hpid, hmask, ?_⟩
  rintro ⟨reply, s', x, hok, -, -, hkept⟩
  have hcpu : x.cpumask.getLsbD 0 = true := by
    refine (hkept.cpumask 0).mpr ⟨?_, by decide⟩
    rw [hmask]
    decide
  have hsame := hkept.bst 0 hcpu rfl
  rw [hblade] at hok hsame
  -- both sides are computed
  have harrived : (bst ((after Quad.load [Quad.alloc Quad.first 0 0x7]).with_bst 0 0 0x1).regs
      0 0).getLsbD (Quad.machine.ppe 0) = true := by
    decide +kernel
  have hrun : (match handle (Quad.free Quad.second 1 0)
      ((after Quad.load [Quad.alloc Quad.first 0 0x7]).with_bst 0 0 0x1) with
    | .ok x => (bst x.2.regs 0 0).getLsbD (Quad.machine.ppe 0)
    | .error _ => true) = false := by
    decide +kernel
  rw [hok] at hrun
  simp only at hrun
  rw [harrived, hrun] at hsame
  exact Bool.noConfusion hsame

end A64fxHwb
