/-
The blade registers: which CPUs a blade waits for.

The register of a blade is written when the blade is allocated and when a CPU
withdraws from it, and then holds the places of the blade's CPUs. It is not
written when the blade is given back, since the writer refuses an empty mask
(`arm_blade_zero`): a blade that was allocated once stays armed for the CPUs it
was last allocated with.
-/
import A64fxHwb.Registers

set_option autoImplicit false

namespace A64fxHwb

open BitWord Runs

variable {hw : Machine} {l : Load hw} {c : Call hw} {ok : Kind → Prop} {R : hwb_regs → Prop}
variable {s s' : Kernel} {e : Event hw}

/-! ## The mask field -/

theorem getLsbD_init_bst_mask (p : ℕ) : A64FX_HWB_INIT_BST_MASK.getLsbD p = decide (p < 13) := by
  have h : ∀ p : Fin 64, A64FX_HWB_INIT_BST_MASK.getLsbD p.val = decide (p.val < 13) := by decide
  by_cases hp : p < 64
  · exact h ⟨p, hp⟩
  · rw [BitVec.getLsbD_of_ge _ p (by omega)]
    have hp13 : ¬p < 13 := by omega
    rw [decide_eq_false hp13]

/-- Bit `p` of the mask field of the value that is written. -/
theorem getLsbD_init_sync_bb_val (mask : BitVec 64) (p : ℕ) :
    ((init_sync_bb_val mask >>> A64FX_HWB_INIT_BST_SHIFT) &&& A64FX_HWB_INIT_BST_MASK).getLsbD p =
      (mask.getLsbD p && decide (p < 13)) := by
  unfold init_sync_bb_val
  rw [BitVec.getLsbD_and, BitVec.getLsbD_ushiftRight, BitVec.getLsbD_shiftLeft, BitVec.getLsbD_and,
    getLsbD_init_bst_mask]
  by_cases hp : p < 13
  · -- inside the field the two shifts cancel
    have hlt : A64FX_HWB_INIT_BST_SHIFT + p < 64 := by
      show 32 + p < 64
      omega
    have hge : ¬A64FX_HWB_INIT_BST_SHIFT + p < A64FX_HWB_INIT_BST_SHIFT := by omega
    rw [decide_eq_true hlt, decide_eq_false hge, Nat.add_sub_cancel_left, getLsbD_init_bst_mask,
      decide_eq_true hp]
    simp
  · rw [getLsbD_init_bst_mask, decide_eq_false hp, Bool.and_false, Bool.and_false]

/-! ## What the writes do -/

/-- The CPU that is picked sits on the CMG. -/
theorem any_cmg (ht : Table l s.dev) {cmg : Fin MAX_NUM_CMG}
    (h : (s.dev.cmgs cmg).cmgmask &&& c.online ≠ 0) :
    hw.cmg (c.any ((s.dev.cmgs cmg).cmgmask &&& c.online)) = cmg := by
  have hmem := c.any_mem _ h
  rw [BitVec.getLsbD_and, Bool.and_eq_true] at hmem
  exact ((ht.cmgmask cmg _).mp hmem.1).2

/-- Arming one blade leaves the registers of the others alone. -/
theorem arm_blade_of_ne (ht : Table l s.dev) {cmg cmg' : Fin MAX_NUM_CMG} {b b' : ℕ}
    (mask : BitVec 64) (hne : ¬(cmg' = cmg ∧ b' = b)) :
    (arm_blade c cmg b mask s).regs.init_sync_bb cmg' b' = s.regs.init_sync_bb cmg' b' := by
  unfold arm_blade smp_call_function_any write_init_sync_bb
  by_cases h : (s.dev.cmgs cmg).cmgmask &&& c.online = 0
  · simp only [if_pos h]
  · by_cases hr : (b : ℤ) < 0 ∨ (b : ℤ) ≥ MAX_BB_PER_CMG ∨ mask = 0
    · simp only [if_neg h, if_pos hr]
    · simp only [if_neg h, if_neg hr, any_cmg ht h, Int.toNat_natCast]
      by_cases hc : cmg' = cmg
      · subst hc
        rw [Function.update_self, Function.update_of_ne]
        exact fun hb => hne ⟨rfl, hb⟩
      · rw [Function.update_of_ne hc]

/-- Arming a blade of a CMG with a CPU online writes its register. -/
theorem arm_blade_self (ht : Table l s.dev) {cmg : Fin MAX_NUM_CMG} {b : ℕ}
    (hb : b < MAX_BB_PER_CMG) {mask : BitVec 64} (hmask : mask ≠ 0) {k : ℕ}
    (hk : l.online.getLsbD k = true) (hc : hw.cmg k = cmg) (hon : c.online.getLsbD k = true) :
    (arm_blade c cmg b mask s).regs.init_sync_bb cmg b = init_sync_bb_val mask := by
  -- CPU `k` itself could be picked
  have hsome : (s.dev.cmgs cmg).cmgmask &&& c.online ≠ 0 := by
    intro h0
    have hbit := (eq_zero_iff _).mp h0 k
    rw [BitVec.getLsbD_and, (ht.cmgmask cmg k).mpr ⟨hk, hc⟩, hon] at hbit
    exact Bool.noConfusion hbit
  have hrange : ¬((b : ℤ) < 0 ∨ (b : ℤ) ≥ MAX_BB_PER_CMG ∨ mask = 0) := by
    rintro (h | h | h)
    · omega
    · have hb6 : b < 6 := hb
      have h6 : (b : ℤ) ≥ 6 := h
      omega
    · exact hmask h
  unfold arm_blade smp_call_function_any write_init_sync_bb
  simp only [if_neg hsome, if_neg hrange, any_cmg ht hsome, Int.toNat_natCast, Function.update_self]

/-- A reset writes no blade register. -/
theorem reset_init_sync_bb (late : cpumask_t) (s : Kernel) :
    (on_each_cpu c (asm_reset_func hw) late s).regs.init_sync_bb = s.regs.init_sync_bb := by
  have hwalk : ∀ (ks : List ℕ) (regs : hwb_regs),
      (ks.foldl (fun regs cpu => asm_reset_func hw cpu regs) regs).init_sync_bb =
        regs.init_sync_bb := by
    intro ks
    induction ks with
    | nil => intro regs; rfl
    | cons k ks ih =>
        intro regs
        rw [List.foldl_cons, ih, asm_reset_func_eq]
        rfl
  exact hwalk _ _

/-! ## A small step and a blade register -/

/-- **When a blade register changes**: the blade is taken, or a CPU of the
caller's group leaves it. Either way its bit is set afterwards. -/
theorem Micro.init_sync_bb (hi : Inv l s.dev) (h : Micro l c ok s s') (cmg : Fin MAX_NUM_CMG)
    (b : ℕ) : s'.regs.init_sync_bb cmg b = s.regs.init_sync_bb cmg b ∨
      (s'.dev.bb cmg b = true ∧ (s.dev.bb cmg b = false ∨
        ∃ a, Held s.dev c.task.tgid a ∧ a.cmg = cmg.val ∧ a.blade = b)) := by
  cases h with
  | take_blade m cmg' b' mask hm hg hb hfree =>
      by_cases hcb : cmg = cmg' ∧ b = b'
      · obtain ⟨rfl, rfl⟩ := hcb
        obtain ⟨-, hbl⟩ := init_allocation_spec hi.table cmg m hb mask
        have hb6 : b < 6 := hb
        refine Or.inr ⟨(bb_hold_alloc ?_ cmg b).mpr (Or.inr ⟨rfl, hbl.symm⟩), Or.inl hfree⟩
        omega
      · exact Or.inl (arm_blade_of_ne hi.table _ hcb)
  | take_window tm a k w => exact Or.inl (by rw [set_wr_init_sync_bb])
  | give_window tm a k w wr => exact Or.inl (by rw [set_wr_init_sync_bb])
  | leave_blade tm cmg' a hg ha hc =>
      by_cases hcb : cmg = cmg' ∧ b = a.blade
      · obtain ⟨rfl, rfl⟩ := hcb
        exact Or.inr ⟨hi.bb_of_held ha hc, Or.inr ⟨a, hg ▸ ha, hc, rfl⟩⟩
      · exact Or.inl (arm_blade_of_ne hi.table _ hcb)
  | reset => exact Or.inl (by rw [reset_init_sync_bb])
  | _ => exact Or.inl rfl

/-! ## The CPUs of a blade -/

/-- No blade is ever without CPUs. -/
theorem Micro.cpumask_ne_zero (hi : Inv l s.dev) (h : Micro l c ok s s')
    (hall : ∀ g a, Held s.dev g a → a.cpumask ≠ 0) (g : ℕ) (x : a64fx_task_allocation)
    (hx : Held s'.dev g x) : x.cpumask ≠ 0 := by
  cases h.held hi hx with
  | kept _ hx => exact hall g x hx
  | made m cmg b mask hm hg hb hmask =>
      -- the check has found a CPU of the table in the mask
      intro h0
      obtain ⟨k, hk, -⟩ := hmask.known
      have hclear := (eq_zero_iff _).mp h0 k
      rw [show (init_allocation (s.dev.cmgs cmg) m b mask).cpumask = mask from rfl, hk] at hclear
      exact Bool.noConfusion hclear
  | took a k w hg ha => exact hall g a ha
  | gave a k w hg ha hr => exact hall g a ha
  | left a hg ha hfree hrest => exact hrest

theorem cpumask_ne_zero (h : (driver l R).Reachable s) (g : ℕ)
    (a : a64fx_task_allocation) (ha : Held s.dev g a) : a.cpumask ≠ 0 := by
  refine run_invariant (P := fun s => ∀ g a, Held s.dev g a → a.cpumask ≠ 0) ?_ ?_ h g a ha
  · intro regs s _ hload g a ha
    rw [hload.spec.1] at ha
    exact absurd ha (not_held_loaded hload.packed g a)
  · intro s e _ t t' hi hP hm
    exact hm.cpumask_ne_zero hi hP

/-- Every CPU that is online during the call was so at load. -/
def Event.OnlineLoaded (l : Load hw) (e : Event hw) : Prop :=
  ∀ k, e.call.online.getLsbD k = true → l.online.getLsbD k = true

/-- With no CPU online that was not at load, a blade's CPUs are all in the table,
on the blade's CMG. -/
theorem Micro.cpus (hi : Inv l s.dev) (h : Micro l c ok s s')
    (hon : ∀ k, c.online.getLsbD k = true → l.online.getLsbD k = true)
    (hall : ∀ g a, Held s.dev g a → ∀ k, a.cpumask.getLsbD k = true →
      l.online.getLsbD k = true ∧ (hw.cmg k).val = a.cmg) (g : ℕ) (x : a64fx_task_allocation)
    (hx : Held s'.dev g x) (k : ℕ) (hk : x.cpumask.getLsbD k = true) :
    l.online.getLsbD k = true ∧ (hw.cmg k).val = x.cmg := by
  cases h.held hi hx with
  | kept _ hx => exact hall g x hx k hk
  | made m cmg b mask hm hg hb hmask =>
      have hmem : mask.getLsbD k = true := hk
      have hload := hon k (hmask.online k hmem)
      rw [(init_allocation_spec hi.table cmg m hb mask).1, hmask.cmg k hmem hload]
      exact ⟨hload, rfl⟩
  | took a k' w hg ha => exact hall g a ha k hk
  | gave a k' w hg ha hr => exact hall g a ha k hk
  | left a hg ha hfree hrest =>
      rw [a64fx_task_allocation.getLsbD_leave, Bool.and_eq_true] at hk
      exact hall g a ha k hk.1

/-! ## The register of a live blade -/

/-- How a live blade and its register come out of a small step: both as they were, or
with the register written for the CPUs of a new blade, or for the ones the caller has
left behind. -/
inductive BladeStep (l : Load hw) (c : Call hw) (s s' : Kernel) (g : ℕ) :
    a64fx_task_allocation → Prop
  | same (a x : a64fx_task_allocation) (ha : Held s.dev g a) (hp : x.place = a.place)
      (hmask : x.cpumask = a.cpumask)
      (hregs : ∀ cmg : Fin MAX_NUM_CMG, cmg.val = a.cmg →
        s'.regs.init_sync_bb cmg a.blade = s.regs.init_sync_bb cmg a.blade) :
      BladeStep l c s s' g x
  | armed (m : a64fx_task_mapping) (cmg : Fin MAX_NUM_CMG) (b : ℕ) (mask : cpumask_t)
      (hb : b < MAX_BB_PER_CMG) (hmask : Accepted l c.online cmg mask)
      (hregs : s'.regs = (arm_blade c cmg b (cpumask_to_ppemask (s.dev.cmgs cmg) mask) s).regs) :
      BladeStep l c s s' g (init_allocation (s.dev.cmgs cmg) m b mask)
  | left (cmg : Fin MAX_NUM_CMG) (a : a64fx_task_allocation) (ha : Held s.dev g a)
      (hc : a.cmg = cmg.val) (hmem : a.cpumask.getLsbD c.cpu = true)
      (hrest : (a.leave c.cpu).cpumask ≠ 0)
      (hregs : s'.regs = (arm_blade c cmg a.blade
        (cpumask_to_ppemask (s.dev.cmgs cmg) (a.leave c.cpu).cpumask) s).regs) :
      BladeStep l c s s' g (a.leave c.cpu)

theorem Micro.blade_step (hi : Inv l s.dev) (h : Micro l c ok s s') {g : ℕ}
    {x : a64fx_task_allocation} (hx : Held s'.dev g x) : BladeStep l c s s' g x := by
  have hsame : Held s.dev g x → s'.regs = s.regs → BladeStep l c s s' g x := fun hold hregs =>
    .same x x hold rfl rfl fun _ _ => by rw [hregs]
  cases h with
  | locks L n => exact hsame hx rfl
  | count n => exact hsame hx rfl
  | map_group hnew => exact hsame ((held_map_group _ g x).mp hx) rfl
  | unmap_group m hm hg hempty =>
      exact hsame ((held_unmap_group hi.lists hm hempty g x).mp hx) rfl
  | take_blade m cmg b mask hm hg hb hfree hmask =>
      rcases (held_hold_alloc hi.lists hm rfl g x).mp hx with hold | ⟨rfl, rfl⟩
      · -- another blade: its register is not the one that is written
        refine .same x x hold rfl rfl fun cmg' hc' => arm_blade_of_ne hi.table _ ?_
        rintro ⟨rfl, hb'⟩
        exact hi.fresh_place hfree hold (Prod.ext hc'.symm hb')
      · exact .armed m cmg b mask hb hmask rfl
  | give_blade tm cmg a hg ha => exact hsame ((hi.held_drop ha g x).mp hx).1 rfl
  | take_window tm a k w hg ha =>
      have hregs := set_wr_init_sync_bb (c := c) k w 1 a.blade s
      rcases (hi.held_store ha (a.place_take (hw.slot k) k w) g x).mp hx with ⟨hold, -⟩ | ⟨rfl, rfl⟩
      · exact .same x x hold rfl rfl fun _ _ => by rw [hregs]
      · exact .same a _ ha rfl rfl fun _ _ => by rw [hregs]
  | give_window tm a k w wr wb hg ha hr =>
      have hregs := set_wr_init_sync_bb (c := c) k wr 0 0 s
      rcases (hi.held_store ha (a.place_give (hw.slot k) k) g x).mp hx with ⟨hold, -⟩ | ⟨rfl, rfl⟩
      · exact .same x x hold rfl rfl fun _ _ => by rw [hregs]
      · exact .same a _ ha rfl rfl fun _ _ => by rw [hregs]
  | leave_blade tm cmg a hg ha hc hmem hfree hrest =>
      rcases (hi.held_store ha (a.place_leave c.cpu) g x).mp hx with ⟨hold, hne⟩ | ⟨rfl, rfl⟩
      · -- the write is to the register of the blade that is left
        refine .same x x hold rfl rfl fun cmg' hc' => arm_blade_of_ne hi.table _ ?_
        rintro ⟨rfl, hb'⟩
        exact hne (Prod.ext (hc'.symm.trans hc.symm) hb')
      · exact .left cmg a ha hc hmem hrest rfl
  | reset => exact absurd hx (not_held_reset _ g x)

/-- The mask field of the blade's register has the places of its CPUs. -/
def Selects (hw : Machine) (regs : hwb_regs) (a : a64fx_task_allocation) : Prop :=
  ∀ cmg : Fin MAX_NUM_CMG, cmg.val = a.cmg → ∀ p,
    (bst_mask regs cmg a.blade).getLsbD p = true ↔
      ∃ k, a.cpumask.getLsbD k = true ∧ hw.ppe k = p

/-- Only the blade's own register and its CPUs matter. -/
theorem Selects.congr {regs regs' : hwb_regs} {a x : a64fx_task_allocation}
    (h : Selects hw regs a) (hp : x.place = a.place) (hmask : x.cpumask = a.cpumask)
    (hregs : ∀ cmg : Fin MAX_NUM_CMG, cmg.val = a.cmg →
      regs'.init_sync_bb cmg a.blade = regs.init_sync_bb cmg a.blade) : Selects hw regs' x := by
  intro cmg hc p
  have hcx : x.cmg = a.cmg := congrArg Prod.fst hp
  have hbx : x.blade = a.blade := congrArg Prod.snd hp
  have hca : cmg.val = a.cmg := hc.trans hcx
  have hsel := h cmg hca p
  unfold bst_mask at hsel ⊢
  rw [hbx, hmask, hregs cmg hca]
  exact hsel

/-- A mask whose CPUs are on the CMG is what its translation selects. -/
theorem selects_arm (ht : Table l s.dev) {cmg : Fin MAX_NUM_CMG} {a : a64fx_task_allocation}
    (hc : a.cmg = cmg.val) (hb : a.blade < MAX_BB_PER_CMG)
    (hcpus : ∀ k, a.cpumask.getLsbD k = true → l.online.getLsbD k = true ∧ (hw.cmg k).val = a.cmg)
    {k₀ : ℕ} (hk₀ : a.cpumask.getLsbD k₀ = true) {k₁ : ℕ} (hload : l.online.getLsbD k₁ = true)
    (hcmg : hw.cmg k₁ = cmg) (hon : c.online.getLsbD k₁ = true) :
    Selects hw
      (arm_blade c cmg a.blade (cpumask_to_ppemask (s.dev.cmgs cmg) a.cpumask) s).regs a := by
  have hbits := getLsbD_cpumask_to_ppemask ht cmg a.cpumask
  have hmem : ∀ k, a.cpumask.getLsbD k = true → l.online.getLsbD k = true ∧ hw.cmg k = cmg := by
    intro k hk
    obtain ⟨hload, hcm⟩ := hcpus k hk
    exact ⟨hload, Fin.ext (hcm.trans hc)⟩
  -- the write is not refused: CPU `k₀` is translated
  have hne : cpumask_to_ppemask (s.dev.cmgs cmg) a.cpumask ≠ 0 := by
    intro h0
    have hclear := (eq_zero_iff _).mp h0 (hw.ppe k₀)
    rw [(hbits (hw.ppe k₀)).mpr ⟨k₀, hk₀, (hmem k₀ hk₀).1, (hmem k₀ hk₀).2, rfl⟩] at hclear
    exact Bool.noConfusion hclear
  intro cmg' hc' p
  have hcc : cmg' = cmg := Fin.ext (hc'.trans hc)
  subst hcc
  unfold bst_mask
  rw [arm_blade_self ht hb hne hload hcmg hon, getLsbD_init_sync_bb_val, Bool.and_eq_true,
    decide_eq_true_eq, hbits]
  constructor
  · rintro ⟨⟨k, hk, -, -, hp⟩, -⟩
    exact ⟨k, hk, hp⟩
  · rintro ⟨k, hk, rfl⟩
    obtain ⟨hload', hcm⟩ := hmem k hk
    exact ⟨⟨k, hk, hload', hcm, rfl⟩, hw.ppe_lt k (l.online_present k hload')⟩

/-- **Every small step keeps the registers of the live blades right.** -/
theorem Micro.selects (hi : Inv l s.dev) (h : Micro l c ok s s')
    (hon : ∀ k, c.online.getLsbD k = true → l.online.getLsbD k = true)
    (hcpus : ∀ g a, Held s.dev g a → ∀ k, a.cpumask.getLsbD k = true →
      l.online.getLsbD k = true ∧ (hw.cmg k).val = a.cmg)
    (hsel : ∀ g a, Held s.dev g a → Selects hw s.regs a) (g : ℕ) (x : a64fx_task_allocation)
    (hx : Held s'.dev g x) : Selects hw s'.regs x := by
  have hcpus' := h.cpus hi hon hcpus g x hx
  cases h.blade_step hi hx with
  | same a _ ha hp hmask hregs => exact (hsel g a ha).congr hp hmask hregs
  | armed m cmg b mask hb hmask hregs =>
      obtain ⟨hc, hbl⟩ := init_allocation_spec hi.table cmg m hb mask
      obtain ⟨k, hk, hload⟩ := hmask.known
      have harm := selects_arm (a := init_allocation (s.dev.cmgs cmg) m b mask) (c := c)
        hi.table hc (by rw [hbl]; exact hb) hcpus' hk hload (hmask.cmg k hk hload)
        (hmask.online k hk)
      rw [hregs]
      rw [hbl] at harm
      exact harm
  | left cmg a ha hc hmem hrest hregs =>
      -- the CPU that leaves is online on the CMG, so the write is carried out
      obtain ⟨hload, hcm⟩ := hcpus g a ha c.cpu hmem
      obtain ⟨k, hk⟩ := exists_getLsbD_of_ne_zero hrest
      rw [hregs]
      exact selects_arm (a := a.leave c.cpu) hi.table hc (hi.sane _ a ha).blade_lt
        hcpus' hk hload (Fin.ext (hcm.trans hc)) c.cpu_online

/-- The blade has CPUs, all of them on its CMG and each in a place of its own, and
its register selects exactly them. -/
structure BladeArmed (hw : Machine) (regs : hwb_regs) (a : a64fx_task_allocation) : Prop where
  nonempty : a.cpumask ≠ 0
  cmg : ∀ k, a.cpumask.getLsbD k = true → (hw.cmg k).val = a.cmg
  below : ∀ k, a.cpumask.getLsbD k = true → hw.ppe k < MAX_PE_PER_CMG
  distinct : ∀ k k', a.cpumask.getLsbD k = true → a.cpumask.getLsbD k' = true →
    hw.ppe k = hw.ppe k' → k = k'
  selects : Selects hw regs a

/-- **A live blade's register selects exactly its CPUs**, in every run in which no
CPU is online that was not at load. -/
theorem blades_armed (h : (driver l R).ReachableVia (fun _ e => e.OnlineLoaded l) s) :
    ∀ a ∈ s.dev.allocs, BladeArmed hw s.regs a := by
  intro a ha
  obtain ⟨g, ha⟩ := mem_allocs.mp ha
  have hboth := run_invariant (P := fun s =>
      (∀ g a, Held s.dev g a → ∀ k, a.cpumask.getLsbD k = true →
        l.online.getLsbD k = true ∧ (hw.cmg k).val = a.cmg) ∧
      ∀ g a, Held s.dev g a → Selects hw s.regs a) ?_ ?_ h
  · obtain ⟨hcpus, hsel⟩ := hboth
    refine ⟨cpumask_ne_zero h.reachable g a ha, fun k hk => (hcpus g a ha k hk).2, ?_, ?_,
      hsel g a ha⟩
    · intro k hk
      exact hw.ppe_lt k (l.online_present k (hcpus g a ha k hk).1)
    · intro k k' hk hk' hp
      obtain ⟨hload, hcm⟩ := hcpus g a ha k hk
      obtain ⟨hload', hcm'⟩ := hcpus g a ha k' hk'
      exact hw.eq_of_place (l.online_present k hload) (l.online_present k' hload')
        (Fin.ext (hcm.trans hcm'.symm)) hp
  · intro regs s _ hload
    rw [hload.spec.1]
    exact ⟨fun g a ha => absurd ha (not_held_loaded hload.packed g a),
      fun g a ha => absurd ha (not_held_loaded hload.packed g a)⟩
  · intro s e hon t t' hi hP hm
    exact ⟨hm.cpus hi hon hP.1, hm.selects hi hon hP.1 hP.2⟩

/-- The second thread leaves with CPU 1, and CPUs 0 and 2 stay selected. -/
theorem blades_armed_after_leave : ∃ a ∈ (after Quad.load [Quad.alloc Quad.first 0 0x7,
      Quad.free Quad.second 1 0]).dev.allocs, a.cpumask = 0x5 ∧
    BladeArmed Quad.machine (after Quad.load [Quad.alloc Quad.first 0 0x7,
      Quad.free Quad.second 1 0]).regs a := by
  have hlive : ∃ a ∈ (after Quad.load [Quad.alloc Quad.first 0 0x7,
      Quad.free Quad.second 1 0]).dev.allocs, a.cpumask = 0x5 := by
    decide +kernel
  obtain ⟨a, ha, hcpus⟩ := hlive
  refine ⟨a, ha, hcpus, blades_armed (R := fun _ => True) (reachableVia_after trivial ?_ ?_ ?_)
    a ha⟩
  · decide +kernel
  · decide
  · intro e he s k hk
    have honline : ∀ e ∈ [Quad.alloc Quad.first 0 0x7, Quad.free Quad.second 1 0],
        e.call.online = 0xF := by decide
    rw [honline e he] at hk
    exact hk

/-! ## The register of a free blade -/

/-- The registers of the blades that are not taken are disarmed. -/
def Disarmed (s : Kernel) : Prop :=
  ∀ cmg b, b < MAX_BB_PER_CMG → s.dev.bb cmg b = false → bst_mask s.regs cmg b = 0

/-- A blade is given back by the small step that says so, and by no other. -/
theorem Micro.bb_of_not_release (hi : Inv l s.dev) (h : Micro l c ok s s') (hno : ¬ok .release)
    {cmg : Fin MAX_NUM_CMG} {b : ℕ} (hbit : s.dev.bb cmg b = true) : s'.dev.bb cmg b = true := by
  cases h with
  | take_blade m cmg' b' mask hm hg hb hfree =>
      obtain ⟨-, hbl⟩ := init_allocation_spec hi.table cmg' m hb mask
      have hb6 : b' < 6 := hb
      exact (bb_hold_alloc (by omega) cmg b).mpr (Or.inl hbit)
  | give_blade tm cmg' a hg ha hc hempty hok => exact absurd hok hno
  | take_window tm a k w => exact (bb_take_window (hw.slot k) w cmg b).trans hbit
  | give_window tm a k w wr wb => exact (bb_give_window (hw.slot k) w wb cmg b).trans hbit
  | reset hreset hok =>
      -- with no release allowed nothing is held, so no bit was set
      obtain ⟨g, a, ha, -⟩ := hi.blades_covered (cmg.val, b) ⟨cmg, rfl, hbit⟩
      exact absurd ha (hok.resolve_left hno g a)
  | _ => exact hbit

theorem Micro.disarmed (hi : Inv l s.dev) (h : Micro l c ok s s') (hno : ¬ok .release)
    (hd : Disarmed s) : Disarmed s' := by
  intro cmg b hb hfree
  have hold : s.dev.bb cmg b = false := by
    apply Bool.eq_false_iff.mpr
    intro hbit
    rw [h.bb_of_not_release hi hno hbit] at hfree
    exact Bool.noConfusion hfree
  rcases h.init_sync_bb hi cmg b with hregs | ⟨hbit, -⟩
  · -- the register was not written, and the blade was free before
    unfold bst_mask
    rw [hregs]
    exact hd cmg b hb hold
  · rw [hbit] at hfree
    exact Bool.noConfusion hfree

/-- All blade registers are zero. -/
def AllDisarmed (regs : hwb_regs) : Prop := ∀ cmg b, regs.init_sync_bb cmg b = 0

theorem disarmed_of_run
    (h : (driver l AllDisarmed).ReachableVia (fun s e => ¬Releases e s) s) : Disarmed s := by
  refine run_invariant ?_ ?_ h
  · intro regs s hR hload cmg b _ _
    unfold bst_mask
    rw [hload.spec.2.1, hR cmg b]
    decide
  · intro s e hno t t' hi hd hm
    exact hm.disarmed hi hno hd

/-- A blade that is free with its register as it was when it was live. -/
theorem not_disarmed_of_freed (hi : Inv l s.dev) (hi' : Inv l s'.dev) {g : ℕ}
    {a : a64fx_task_allocation} (ha : Held s.dev g a) (harmed : BladeArmed hw s.regs a)
    (hregs : s'.regs.init_sync_bb = s.regs.init_sync_bb)
    (hgone : ∀ g x, Held s'.dev g x → x.place ≠ a.place) : ¬Disarmed s' := by
  intro hd
  have hs := hi.sane g a ha
  obtain ⟨cmg, hc⟩ : ∃ cmg : Fin MAX_NUM_CMG, cmg.val = a.cmg := ⟨⟨a.cmg, hs.cmg_lt⟩, rfl⟩
  have hfree : s'.dev.bb cmg a.blade = false := by
    apply Bool.eq_false_iff.mpr
    intro hbit
    obtain ⟨g', x, hx, hp⟩ := hi'.blades_covered (cmg.val, a.blade) ⟨cmg, rfl, hbit⟩
    exact hgone g' x hx (hp.trans (Prod.ext hc rfl))
  -- yet the register still selects a CPU
  obtain ⟨k, hk⟩ := exists_getLsbD_of_ne_zero harmed.nonempty
  have hbit := (harmed.selects cmg hc (hw.ppe k)).mpr ⟨k, hk, rfl⟩
  have hzero := hd cmg a.blade hs.blade_lt hfree
  unfold bst_mask at hbit hzero
  rw [hregs] at hzero
  rw [hzero] at hbit
  simp at hbit

/-- **Every release leaves its blade armed.** -/
theorem not_disarmed_of_releases (h : (driver l R).ReachableVia (fun _ e => e.OnlineLoaded l) s)
    (hstep : (driver l R).step s e s') (hrel : Releases e s) : ¬Disarmed s' := by
  obtain ⟨hi, hlock⟩ := reachable_inv h.reachable
  have hi' := (reachable_inv (.step h.reachable trivial hstep)).1
  have harmed : ∀ g a, Held s.dev g a → BladeArmed hw s.regs a := fun g a ha =>
    blades_armed h a (mem_allocs.mpr ⟨g, ha⟩)
  obtain ⟨-, reply, hok⟩ := hstep
  rcases hrel with ⟨m, cmg, a, hfrees, hlast⟩ | ⟨he, hcount, m, hget, hpid, hne⟩ | ⟨he, g, a, ha⟩
  · -- a BB_FREE, as the thread in the mapping or with the last CPU
    obtain ⟨hm, -, ha, -⟩ := freesBlade_mem hi hfrees
    have hheld : Held s.dev m.group a := ⟨m, hm, rfl, ha⟩
    have hdrop : Dropped a s s' := by
      by_cases hpid : e.call.task.pid = m.task.pid
      · exact freesBlade_owner hi hlock hfrees hpid hok
      · obtain ⟨hmem, hzero⟩ := hlast.resolve_left hpid
        exact (freesBlade_other hi hlock hfrees hpid hok).dropped hmem hzero
    exact not_disarmed_of_freed hi hi' hheld (harmed _ a hheld) hdrop.init_sync_bb
      fun g x hx => ((hdrop.held g x).mp hx).2
  · -- a close by the thread in the mapping
    obtain ⟨hm, hg⟩ := mem_of_get_taskmap hget
    obtain ⟨a, ha⟩ := List.exists_mem_of_ne_nil _ hne
    have hheld : Held s.dev m.group a := ⟨m, hm, rfl, ha⟩
    obtain ⟨t, hclose, -, -, hregs, -, hlist⟩ := close_spec (c := e.call) (fun _ => True) hi hlock
      trivial fun _ _ _ _ _ => Or.inr trivial
    rw [if_pos ⟨hcount, m, hm, hg, hpid⟩] at hlist
    unfold handle at hok
    rw [he, hclose] at hok
    cases hok
    refine not_disarmed_of_freed hi hi' hheld (harmed _ a hheld) hregs ?_
    -- a holder of the place would be the mapping that went
    rintro g x ⟨m', hm', -, hx⟩ hp
    rw [hlist, Keyed.mem_erase hi.lists.groups] at hm'
    exact hm'.2 ((hi.unique ⟨m', hm'.1, rfl, hx⟩ hheld hp).1.trans hg)
  · -- a reset
    unfold handle oss_a64fx_hwb_ioctl at hok
    simp only [he, reset_eq hlock, Loops.ok_bind] at hok
    cases hok
    exact not_disarmed_of_freed hi hi' ha (harmed g a ha) (reset_init_sync_bb 0 s)
      fun g x hx => absurd hx (not_held_reset _ g x)

/-- **The registers of the free blades stay disarmed** in the runs in which no
blade is given back, and every release ends that. -/
theorem free_blades_disarmed :
    (∀ s, (driver l AllDisarmed).ReachableVia (fun s e => ¬Releases e s) s → Disarmed s) ∧
      ∀ s e s', (driver l AllDisarmed).ReachableVia (fun _ e => e.OnlineLoaded l) s →
        (driver l AllDisarmed).step s e s' → Releases e s → ¬Disarmed s' :=
  ⟨fun _ h => disarmed_of_run h,
    fun _ _ _ h hstep hrel => not_disarmed_of_releases h hstep hrel⟩

/-- A BB_ALLOC leaves the free blades disarmed, the BB_FREE after it does not. -/
theorem free_blades_disarmed_alloc_free :
    Disarmed (after Quad.load [Quad.alloc Quad.first 0 0x3]) ∧
    ¬Disarmed (after Quad.load [Quad.alloc Quad.first 0 0x3, Quad.free Quad.first 0 0]) := by
  obtain ⟨hkept, hlost⟩ := free_blades_disarmed (l := Quad.load)
  have hplain : ∀ e ∈ [Quad.alloc Quad.first 0 0x3], e.plain = true ∧ e.call.online = 0xF := by
    decide
  refine ⟨hkept _ (reachableVia_after (fun _ _ => rfl) ?_ ?_ ?_),
    hlost (after Quad.load [Quad.alloc Quad.first 0 0x3]) (Quad.free Quad.first 0 0) _
      (reachableVia_after (fun _ _ => rfl) ?_ ?_ ?_) (step_after ?_ ?_) ?_⟩
  · decide +kernel
  · decide
  · intro e he s
    exact not_makes_of_plain (hplain e he).1 s .release (by decide)
  · decide +kernel
  · decide
  · intro e he s k hk
    rw [(hplain e he).2] at hk
    exact hk
  · decide +kernel
  · decide
  · refine Or.inl ⟨(get_taskmap _ _).get ?_, 0, (get_allocation _ _ _).get ?_,
      ⟨_, _, rfl, rfl, rfl, (Option.some_get _).symm, (Option.some_get _).symm⟩, Or.inl ?_⟩
    all_goals decide +kernel

/-- The register of a blade that was freed by its owner still selects two PEs. -/
theorem freed_blade_armed :
    (driver Quad.load AllDisarmed).Reachable (after Quad.load
      [Quad.open Quad.first 0, Quad.alloc Quad.first 0 0x3, Quad.free Quad.first 0 0]) ∧
    ¬Disarmed (after Quad.load
      [Quad.open Quad.first 0, Quad.alloc Quad.first 0 0x3, Quad.free Quad.first 0 0]) := by
  refine ⟨reachable_after (fun _ _ => rfl) (by decide +kernel) (by decide), fun hd => ?_⟩
  have hzero := hd 0 0 (by decide) (by decide +kernel)
  revert hzero
  decide +kernel

end A64fxHwb
