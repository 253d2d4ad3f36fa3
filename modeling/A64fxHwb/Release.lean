/-
Giving a blade back: `free_allocation`, `unregister_task`, and what close and
BB_FREE do on top of them.

`free_allocation` walks the allocation's `assign_mask`, gives back the window of
each CPU in it, and unlinks the allocation. Under the base invariant nothing in
it can fail, and the walk ends with an empty mask. The register write in the
middle has no effect: the mask it writes is empty, and `write_init_sync_bb`
refuses an empty mask (`arm_blade_zero`).
-/
import A64fxHwb.Micro

set_option autoImplicit false

namespace A64fxHwb

open BitWord Relation Runs

variable {hw : Machine} {l : Load hw} {c : Call hw} {ok : Kind → Prop} {s s' : Kernel}

/-! ## Locking -/

/-- `dev_lock` is held and nothing else. -/
def Locks.dev_held : Locks := ⟨true, fun _ => false⟩

/-- `dev_lock` and the lock of one CMG are held. -/
def Locks.cmg_held (cmg : Fin MAX_NUM_CMG) : Locks :=
  ⟨true, Function.update (fun _ => false) cmg true⟩

theorem spin_lock_dev_free (h : s.locks = Locks.free) :
    spin_lock_dev s = .ok { s with locks := Locks.dev_held } := by
  unfold spin_lock_dev
  rw [h]
  rfl

theorem spin_unlock_dev_held (h : s.locks = Locks.dev_held) :
    spin_unlock_dev s = .ok { s with locks := Locks.free } := by
  unfold spin_unlock_dev
  rw [h]
  rfl

/-- The same with whatever else is held. -/
theorem spin_lock_dev_ok (h : s.locks.dev_lock = false) :
    spin_lock_dev s = .ok { s with locks := { s.locks with dev_lock := true } } := by
  unfold spin_lock_dev
  rw [h]
  rfl

theorem spin_unlock_dev_ok (h : s.locks.dev_lock = true) :
    spin_unlock_dev s = .ok { s with locks := { s.locks with dev_lock := false } } := by
  unfold spin_unlock_dev
  rw [h]
  rfl

theorem spin_lock_cmg_free (cmg : Fin MAX_NUM_CMG) (h : s.locks = Locks.dev_held) :
    spin_lock_cmg cmg s = .ok { s with locks := Locks.cmg_held cmg } := by
  unfold spin_lock_cmg
  rw [h]
  rfl

theorem spin_unlock_cmg_held (cmg : Fin MAX_NUM_CMG) (h : s.locks = Locks.cmg_held cmg) :
    spin_unlock_cmg cmg s = .ok { s with locks := Locks.dev_held } := by
  unfold spin_unlock_cmg
  rw [h]
  simp [Locks.cmg_held, Locks.dev_held]

/-- A sequence of small steps preserves the base invariant. -/
theorem path_inv (hi : Inv l s.dev) (h : ReflTransGen (Micro l c ok) s s') : Inv l s'.dev :=
  h.preserves (fun _ _ hi hm => hm.inv hi) hi

/-- Locking and unlocking are small steps like any other. -/
theorem path_locked {L L' : Locks} {n n' : ℤ} {t : Kernel}
    (h : ReflTransGen (Micro l c ok) { s with locks := L, preempt_count := n } t) :
    ReflTransGen (Micro l c ok) s { t with locks := L', preempt_count := n' } :=
  ((ReflTransGen.single (.locks L n)).trans h).tail (.locks L' n')

/-! ## The register writes -/

theorem smp_assign (cpu : ℤ) (info : hwb_assign_info) (s : Kernel) :
    smp_call_function_single c cpu (oss_a64fx_hwb_assign_func info) s =
      set_wr c cpu info.window info.valid info.blade s := rfl

theorem smp_allocate (cmg : Fin MAX_NUM_CMG) (info : hwb_allocate_info) (s : Kernel) :
    smp_call_function_any c (s.dev.cmgs cmg).cmgmask (oss_a64fx_hwb_allocate_func hw info) s =
      arm_blade c cmg info.blade info.ppemask s := rfl

/-- **An empty mask is never written.** -/
theorem arm_blade_zero (cmg : Fin MAX_NUM_CMG) (blade : ℤ) (s : Kernel) :
    arm_blade c cmg blade 0 s = s := by
  unfold arm_blade smp_call_function_any write_init_sync_bb
  simp

/-- What a window write does on an online CPU. -/
theorem set_wr_eq {k w b : ℕ} (hk : c.online.getLsbD k = true) (hw4 : w < MAX_BW_PER_CMG)
    (hb : b < MAX_BB_PER_CMG) (valid : ℤ) (s : Kernel) :
    set_wr c k w valid b s = { s with regs := { s.regs with
      assign_sync_wr := Function.update s.regs.assign_sync_wr k
        (Function.update (s.regs.assign_sync_wr k) w (assign_sync_wr_val valid b)) } } := by
  have hw64 : w < 4 := hw4
  have hb6 : b < 6 := hb
  have hrange : ¬((w : ℤ) < 0 ∨ (w : ℤ) ≥ MAX_BW_PER_CMG ∨
      (b : ℤ) < 0 ∨ (b : ℤ) ≥ MAX_BB_PER_CMG) := by
    show ¬((w : ℤ) < 0 ∨ (w : ℤ) ≥ 4 ∨ (b : ℤ) < 0 ∨ (b : ℤ) ≥ 6)
    omega
  have honline : 0 ≤ (k : ℤ) ∧ c.online.getLsbD (k : ℤ).toNat = true := ⟨by omega, hk⟩
  unfold set_wr smp_call_function_single write_assign_sync_wr
  simp only [if_pos honline, if_neg hrange]
  rfl

theorem set_wr_assign_sync_wr {k w b : ℕ} (hk : c.online.getLsbD k = true)
    (hw4 : w < MAX_BW_PER_CMG) (hb : b < MAX_BB_PER_CMG) (valid : ℤ) (s : Kernel) :
    (set_wr c k w valid b s).regs.assign_sync_wr =
      Function.update s.regs.assign_sync_wr k
        (Function.update (s.regs.assign_sync_wr k) w (assign_sync_wr_val valid b)) := by
  rw [set_wr_eq hk hw4 hb]

/-! ## Bit and index arguments that are in range -/

theorem test_bit_ok {b : ℕ} (hb : b < 64) (word : BitVec 64) :
    test_bit c b word = .ok (word.getLsbD b) := by
  unfold test_bit
  rw [if_pos ⟨by omega, by omega⟩]
  rfl

theorem set_bit_ok {b : ℕ} (hb : b < 64) (word : BitVec 64) :
    set_bit b word = .ok (setBit word b) := by
  unfold set_bit
  rw [if_pos ⟨by omega, by omega⟩]
  rfl

theorem clear_bit_ok {b : ℕ} (hb : b < 64) (word : BitVec 64) :
    clear_bit b word = .ok (clearBit word b) := by
  unfold clear_bit
  rw [if_pos ⟨by omega, by omega⟩]
  rfl

theorem cmgs_ptr_ok (cmg : Fin MAX_NUM_CMG) : cmgs_ptr (cmg.val : ℤ) = .ok cmg := by
  have h : cmg.val < 4 := cmg.isLt
  unfold cmgs_ptr
  rw [dif_pos ⟨by omega, by omega⟩]
  rfl

theorem window_ptr_ppe {k : ℕ} (hk : hw.present.getLsbD k = true) :
    window_ptr (hw.ppe k) = .ok (hw.slot k) := by
  have hlt : hw.ppe k < 13 := hw.ppe_lt k hk
  unfold window_ptr
  rw [dif_pos ⟨by omega, by exact_mod_cast hlt⟩]
  congr 1
  exact Fin.ext (by rw [Machine.slot_val hk]; simp)

/-! ## The walk over the assign mask -/

/-- What one iteration of the walk does to the state. -/
def give_back (c : Call hw) (tm : a64fx_task_mapping) (k w : ℕ) (a : a64fx_task_allocation)
    (s : Kernel) : Kernel :=
  { set_wr c k w 0 0 s with
    dev := s.dev.give_window tm (hw.cmg k) (hw.slot k) w
      ((s.dev.cmgs (hw.cmg k)).pe_map (hw.slot k)).win_blades (a.give (hw.slot k) k) }

/-- One iteration, for a CPU whose window is recorded. -/
theorem free_allocation_cpu_ok (ht : Table l s.dev) {tm : a64fx_task_mapping}
    {a : a64fx_task_allocation} {k w : ℕ} (hr : Records l a k w) (hw4 : w < MAX_BW_PER_CMG)
    (pe : Option (Fin MAX_PE_PER_CMG)) :
    free_allocation_cpu c (hw.cmg k) tm { kernel := s, alloc := a, pemap := pe } k =
      .ok { kernel := give_back c tm k w a s, alloc := a.give (hw.slot k) k,
            pemap := some (hw.slot k) } := by
  have hw64 : w < 4 := hw4
  obtain ⟨hcpu, -, hppe⟩ := ht.entry hr.1
  have hrange : (w : ℤ) ≥ 0 ∧ (w : ℤ) < MAX_BW_PER_CMG := ⟨by omega, by exact_mod_cast hw64⟩
  unfold free_allocation_cpu
  simp only [find_cpu ht hr.1, Option.some_or, pemap_deref, hcpu, hppe,
    window_ptr_ppe (l.online_present k hr.1), Loops.ok_bind, hr.2.2, if_pos hrange,
    clear_bit_ok (show w < 64 by omega), smp_assign, give_back]
  rfl

/-- What the walk keeps: it is a sequence of small steps that only concerns the
allocation it is about, and the CPUs it has passed have no window left. -/
structure Freeing (l : Load hw) (c : Call hw) (ok : Kind → Prop) (tm : a64fx_task_mapping)
    (a : a64fx_task_allocation) (s : Kernel) (i : ℕ) (x : FreeLoop) : Prop where
  path : ReflTransGen (Micro l c ok) s x.kernel
  held : Held x.kernel.dev tm.group x.alloc
  place : x.alloc.place = a.place
  passed : ∀ k < i, x.alloc.assign_mask.getLsbD k = false
  rest : ∀ f : a64fx_task_mapping → a64fx_task_mapping,
    (∀ m v, v.place = a.place → f { m with
      allocs := Keyed.modify a64fx_task_allocation.place a.place (fun _ => v) m.allocs } = f m) →
    Keyed.modify a64fx_task_mapping.group tm.group f x.kernel.dev.task_list =
      Keyed.modify a64fx_task_mapping.group tm.group f s.dev.task_list
  num_tasks : x.kernel.dev.num_tasks = s.dev.num_tasks
  active_count : x.kernel.dev.active_count = s.dev.active_count
  init_sync_bb : x.kernel.regs.init_sync_bb = s.regs.init_sync_bb
  locks : x.kernel.locks = s.locks
  preempt_count : x.kernel.preempt_count = s.preempt_count

theorem Freeing.start (l : Load hw) (c : Call hw) (ok : Kind → Prop) {tm : a64fx_task_mapping}
    {a : a64fx_task_allocation} {s : Kernel} (ha : Held s.dev tm.group a)
    (pe : Option (Fin MAX_PE_PER_CMG)) :
    Freeing l c ok tm a s 0 { kernel := s, alloc := a, pemap := pe } :=
  ⟨.refl, ha, rfl, fun k hk => absurd hk (Nat.not_lt_zero k), fun _ _ => rfl, rfl, rfl, rfl, rfl,
    rfl⟩

/-- The blade registers are not what a window write is about. -/
theorem set_wr_init_sync_bb (cpu window valid blade : ℤ) (s : Kernel) :
    (set_wr c cpu window valid blade s).regs.init_sync_bb = s.regs.init_sync_bb := by
  unfold set_wr smp_call_function_single write_assign_sync_wr
  by_cases h : 0 ≤ cpu ∧ c.online.getLsbD cpu.toNat = true
  · by_cases hr : window < 0 ∨ window ≥ MAX_BW_PER_CMG ∨ blade < 0 ∨ blade ≥ MAX_BB_PER_CMG
    · simp only [if_pos h, if_pos hr]
    · simp only [if_pos h, if_neg hr]
  · simp only [if_neg h]

/-- One iteration keeps it. -/
theorem Freeing.step {tm : a64fx_task_mapping} {a : a64fx_task_allocation} {i : ℕ} {x : FreeLoop}
    {cmg : Fin MAX_NUM_CMG} (hi : Inv l s.dev) (hg : tm.group = c.task.tgid) (hc : a.cmg = cmg.val)
    (h : Freeing l c ok tm a s i x) :
    ∃ x', (if cpumask_test_cpu i x.alloc.assign_mask then free_allocation_cpu c cmg tm x i
        else pure x) = .ok x' ∧ Freeing l c ok tm a s (i + 1) x' := by
  have hix : Inv l x.kernel.dev := path_inv hi h.path
  by_cases hbit : x.alloc.assign_mask.getLsbD i = true
  · -- a CPU with a window: it is recorded, so the register that is cleared is its own
    have hs := hix.sane _ _ h.held
    obtain ⟨w, hw4, hr⟩ := hs.recorded hbit
    have hcx : x.alloc.cmg = cmg.val := (congrArg Prod.fst h.place).trans hc
    have hcmg : hw.cmg i = cmg := Fin.ext (hr.2.1.trans hcx)
    subst hcmg
    refine ⟨_, by rw [if_pos hbit, free_allocation_cpu_ok hix.table hr hw4], ?_⟩
    have hmicro : Micro l c ok x.kernel (give_back c tm i w x.alloc x.kernel) :=
      .give_window tm x.alloc i w w _ hg h.held hr (Or.inl rfl)
    refine ⟨h.path.tail hmicro, ?_, ?_, ?_, ?_, h.num_tasks, h.active_count, ?_, ?_, ?_⟩
    · exact (hix.held_store h.held (x.alloc.place_give (hw.slot i) i) _ _).mpr (Or.inr ⟨rfl, rfl⟩)
    · exact (x.alloc.place_give (hw.slot i) i).trans h.place
    · -- this CPU has just lost its window, the earlier ones had none
      intro k hk
      simp only [a64fx_task_allocation.give, getLsbD_clearBit]
      by_cases hki : i = k
      · simp [hki]
      · rw [h.passed k (by omega)]
        rfl
    · -- the entry that was stored is the one `f` does not look at
      intro f hf
      rw [← h.rest f hf]
      show Keyed.modify a64fx_task_mapping.group tm.group f
        (x.kernel.dev.store_alloc tm (x.alloc.give (hw.slot i) i)).task_list = _
      refine (Keyed.modify_modify (by intro _ hx; exact hx) f _).trans ?_
      refine Keyed.modify_congr fun m _ => ?_
      have hplace := (x.alloc.place_give (hw.slot i) i).trans h.place
      rw [hplace]
      exact hf m _ hplace
    · exact (set_wr_init_sync_bb i w 0 0 x.kernel).trans h.init_sync_bb
    · exact h.locks
    · exact h.preempt_count
  · refine ⟨x, by rw [if_neg hbit]; rfl, ?_⟩
    refine ⟨h.path, h.held, h.place, fun k hk => ?_, h.rest, h.num_tasks, h.active_count,
      h.init_sync_bb, h.locks, h.preempt_count⟩
    rcases Nat.lt_succ_iff_lt_or_eq.mp hk with hk | rfl
    · exact h.passed k hk
    · exact Bool.eq_false_iff.mpr hbit

/-- The walk succeeds and ends with an empty mask. -/
theorem free_allocation_loop_ok {tm : a64fx_task_mapping} {a : a64fx_task_allocation}
    {cmg : Fin MAX_NUM_CMG} (hi : Inv l s.dev) (hg : tm.group = c.task.tgid)
    (ha : Held s.dev tm.group a) (hc : a.cmg = cmg.val) :
    ∃ x, free_allocation_loop c cmg tm { kernel := s, alloc := a, pemap := none } = .ok x ∧
      Freeing l c ok tm a s nr_cpu_ids x :=
  Loops.foldlM_range (Freeing l c ok tm a s) _ nr_cpu_ids _ (Freeing.start l c ok ha none)
    fun _ _ _ h => h.step hi hg hc

theorem Freeing.assign_mask {tm : a64fx_task_mapping} {a : a64fx_task_allocation} {x : FreeLoop}
    (h : Freeing l c ok tm a s nr_cpu_ids x) : x.alloc.assign_mask = 0 := by
  refine (eq_zero_iff _).mpr fun k => ?_
  by_cases hk : k < nr_cpu_ids
  · exact h.passed k hk
  · exact BitVec.getLsbD_of_ge _ k (by omega)

/-! ## `free_allocation` -/

/-- The mapping without its allocation for the place `p`. -/
def a64fx_task_mapping.drop (p : ℕ × ℕ) (m : a64fx_task_mapping) : a64fx_task_mapping :=
  { m with
    allocs := Keyed.erase a64fx_task_allocation.place p m.allocs
    num_allocs := m.num_allocs - 1 }

/-- The allocation `a` of the mapping `tm` is gone, and nothing else that is not
about windows has changed. -/
structure Released (tm : a64fx_task_mapping) (a : a64fx_task_allocation) (s s' : Kernel) :
    Prop where
  task_list : s'.dev.task_list =
    Keyed.modify a64fx_task_mapping.group tm.group (a64fx_task_mapping.drop a.place) s.dev.task_list
  num_tasks : s'.dev.num_tasks = s.dev.num_tasks
  active_count : s'.dev.active_count = s.dev.active_count
  init_sync_bb : s'.regs.init_sync_bb = s.regs.init_sync_bb
  locks : s'.locks = s.locks
  preempt_count : s'.preempt_count = s.preempt_count

/-- `free_allocation` once the walk is known: the rest of it unlinks the
allocation and clears its blade bit. -/
theorem free_allocation_eq {tm : a64fx_task_mapping} {a : a64fx_task_allocation}
    {cmg : Fin MAX_NUM_CMG} {x : FreeLoop} (hb : a.blade < 64)
    (hbit : s.dev.bb cmg a.blade = true)
    (hwalk : (if a.assign_count > 0 then
        free_allocation_loop c cmg tm { kernel := s, alloc := a, pemap := none }
      else .ok { kernel := s, alloc := a, pemap := none }) = .ok x) :
    free_allocation c cmg tm a s =
      .ok { x.kernel with dev := x.kernel.dev.drop_alloc tm cmg a } := by
  have hbit' : (s.dev.cmgs cmg).bb_active.getLsbD a.blade = true := hbit
  unfold free_allocation
  simp only [test_bit_ok hb, Loops.ok_bind, hbit', if_true]
  -- the write that should disarm the blade is refused
  have hzero := @arm_blade_zero hw c cmg a.blade x.kernel
  by_cases hcount : a.assign_count > 0
  · rw [if_pos hcount] at hwalk
    simp only [if_pos hcount, hwalk, Loops.ok_bind, smp_allocate, hzero, clear_bit_ok hb]
    rfl
  · rw [if_neg hcount] at hwalk
    cases hwalk
    simp only [if_neg hcount, pure_bind, smp_allocate, hzero, clear_bit_ok hb, Loops.ok_bind]
    rfl

/-- The walk over an empty mask does nothing. -/
theorem free_allocation_loop_zero {tm : a64fx_task_mapping} {cmg : Fin MAX_NUM_CMG} {x : FreeLoop}
    (h0 : x.alloc.assign_mask = 0) : free_allocation_loop c cmg tm x = .ok x := by
  have h : ∀ ks : List ℕ, ks.foldlM (fun l cpu =>
      if cpumask_test_cpu cpu l.alloc.assign_mask then free_allocation_cpu c cmg tm l cpu
      else pure l) x = .ok x := by
    intro ks
    induction ks with
    | nil => rfl
    | cons k ks ih =>
        have hbit : cpumask_test_cpu k x.alloc.assign_mask = false := by
          rw [h0]
          exact BitVec.getLsbD_zero
        rw [List.foldlM_cons, hbit]
        exact ih
  exact h _

/-- With no window left, `free_allocation` only unlinks. -/
theorem free_allocation_zero {tm : a64fx_task_mapping} {a : a64fx_task_allocation}
    {cmg : Fin MAX_NUM_CMG} (hb : a.blade < 64) (hbit : s.dev.bb cmg a.blade = true)
    (h0 : a.assign_mask = 0) :
    free_allocation c cmg tm a s = .ok { s with dev := s.dev.drop_alloc tm cmg a } := by
  have hwalk : (if a.assign_count > 0 then
        free_allocation_loop c cmg tm { kernel := s, alloc := a, pemap := none }
      else .ok { kernel := s, alloc := a, pemap := none }) =
      .ok { kernel := s, alloc := a, pemap := none } := by
    by_cases hcount : a.assign_count > 0
    · rw [if_pos hcount, free_allocation_loop_zero h0]
    · rw [if_neg hcount]
  exact free_allocation_eq hb hbit hwalk

/-- Dropping the place does not look at the entry it drops. -/
theorem drop_absorbs (p : ℕ × ℕ) (m : a64fx_task_mapping) (v : a64fx_task_allocation)
    (hv : v.place = p) : a64fx_task_mapping.drop p { m with
      allocs := Keyed.modify a64fx_task_allocation.place p (fun _ => v) m.allocs } =
    a64fx_task_mapping.drop p m := by
  unfold a64fx_task_mapping.drop
  simp only [Keyed.erase_modify (f := fun _ => v) (fun _ _ => hv)]

/-- **`free_allocation` releases the blade.** It cannot fail, it is a sequence of
small steps, and afterwards the allocation is gone from its mapping. -/
theorem free_allocation_spec {tm : a64fx_task_mapping} {a : a64fx_task_allocation}
    {cmg : Fin MAX_NUM_CMG} (hi : Inv l s.dev) (hg : tm.group = c.task.tgid)
    (ha : Held s.dev tm.group a) (hc : a.cmg = cmg.val) (hok : ok .release) :
    ∃ s', free_allocation c cmg tm a s = .ok s' ∧ ReflTransGen (Micro l c ok) s s' ∧
      Released tm a s s' := by
  have hs := hi.sane _ a ha
  have hb : a.blade < 64 := lt_trans hs.blade_lt (by decide)
  have hbit := hi.bb_of_held ha hc
  -- the walk, or no walk when the count says that there is nothing to do
  obtain ⟨x, hwalk, hx, h0⟩ : ∃ x, (if a.assign_count > 0 then
        free_allocation_loop c cmg tm { kernel := s, alloc := a, pemap := none }
      else .ok { kernel := s, alloc := a, pemap := none }) = .ok x ∧
      (∃ i, Freeing l c ok tm a s i x) ∧ x.alloc.assign_mask = 0 := by
    by_cases hcount : a.assign_count > 0
    · obtain ⟨x, hloop, hx⟩ : ∃ x, _ ∧ Freeing l c ok tm a s nr_cpu_ids x :=
        free_allocation_loop_ok hi hg ha hc
      exact ⟨x, by rw [if_pos hcount, hloop], ⟨_, hx⟩, hx.assign_mask⟩
    · refine ⟨_, by rw [if_neg hcount], ⟨0, Freeing.start l c ok ha none⟩, ?_⟩
      -- the count is at least the number of CPUs with a window
      have hweight := hs.count
      show a.assign_mask = 0
      exact (weight_eq_zero_iff _).mp (by omega)
  obtain ⟨i, hx⟩ := hx
  have hcx : x.alloc.cmg = cmg.val := (congrArg Prod.fst hx.place).trans hc
  have hblade : x.alloc.blade = a.blade := congrArg Prod.snd hx.place
  have hmicro : Micro l c ok x.kernel
      { x.kernel with dev := x.kernel.dev.drop_alloc tm cmg x.alloc } :=
    .give_blade tm cmg x.alloc hg hx.held hcx h0 hok
  -- what is unlinked goes by its place, which the walk has kept
  have hdrop : x.kernel.dev.drop_alloc tm cmg x.alloc = x.kernel.dev.drop_alloc tm cmg a := by
    unfold a64fx_hwb_device.drop_alloc
    rw [hblade, hx.place]
  rw [hdrop] at hmicro
  refine ⟨_, free_allocation_eq hb hbit hwalk, hx.path.tail hmicro, ?_⟩
  exact ⟨hx.rest _ fun m v hv => drop_absorbs _ m v hv, hx.num_tasks, hx.active_count,
    hx.init_sync_bb, hx.locks, hx.preempt_count⟩

/-! ## Unlinking a mapping -/

/-- `unregister_task` for a mapping with nothing in it. -/
theorem unregister_task_empty {m : a64fx_task_mapping} (h0 : m.num_allocs = 0) :
    unregister_task c m s = .ok { s with dev := s.dev.unmap_group m.group } := by
  unfold unregister_task
  rw [if_neg (by omega)]
  rfl

/-- The check after a release: the mapping goes when its last allocation went. -/
theorem unregister_if_empty_ok {tm m : a64fx_task_mapping} (hl : Lists s.dev)
    (hm : m ∈ s.dev.task_list) (hg : m.group = tm.group) :
    unregister_if_empty c tm s =
      .ok (if m.allocs = [] then { s with dev := s.dev.unmap_group m.group } else s) := by
  unfold unregister_if_empty
  rw [hl.get_taskmap hm hg]
  have hnum := (hl.mapping m hm).num_allocs
  by_cases hempty : m.allocs = []
  · have h0 : m.num_allocs = 0 := by rw [hnum, hempty]; rfl
    simp only [if_pos h0, if_pos hempty]
    exact unregister_task_empty h0
  · have hpos := List.length_pos_iff.mpr hempty
    have h0 : ¬m.num_allocs = 0 := by omega
    simp only [if_neg h0, if_neg hempty]

/-- The group `g` has no mapping any more, and nothing else that is not about its
blades and windows has changed. -/
structure Unregistered (g : ℕ) (s s' : Kernel) : Prop where
  task_list : s'.dev.task_list = Keyed.erase a64fx_task_mapping.group g s.dev.task_list
  active_count : s'.dev.active_count = s.dev.active_count
  init_sync_bb : s'.regs.init_sync_bb = s.regs.init_sync_bb
  locks : s'.locks = s.locks
  preempt_count : s'.preempt_count = s.preempt_count

/-- What the loop of `unregister_task` keeps: the mapping still has the
allocations it has not come to. -/
structure Unregistering (l : Load hw) (c : Call hw) (ok : Kind → Prop) (m : a64fx_task_mapping)
    (s : Kernel) (rest : List a64fx_task_allocation) (t : Kernel) : Prop where
  path : ReflTransGen (Micro l c ok) s t
  mapping : ∃ m' ∈ t.dev.task_list, m'.task = m.task ∧ m'.allocs = rest
  task_list : Keyed.erase a64fx_task_mapping.group m.group t.dev.task_list =
    Keyed.erase a64fx_task_mapping.group m.group s.dev.task_list
  active_count : t.dev.active_count = s.dev.active_count
  init_sync_bb : t.regs.init_sync_bb = s.regs.init_sync_bb
  locks : t.locks = s.locks
  preempt_count : t.preempt_count = s.preempt_count

/-- One iteration of that loop. -/
theorem Unregistering.step {m : a64fx_task_mapping} {a : a64fx_task_allocation}
    {rest : List a64fx_task_allocation} {t : Kernel} (hi : Inv l s.dev)
    (hg : m.group = c.task.tgid) (hok : ok .release) (h : Unregistering l c ok m s (a :: rest) t) :
    ∃ t', (do let cmg ← cmgs_ptr a.cmg; free_allocation c cmg m a t) = .ok t' ∧
      Unregistering l c ok m s rest t' := by
  have hit : Inv l t.dev := path_inv hi h.path
  obtain ⟨m', hm', htask, hallocs⟩ := h.mapping
  have hgm : m'.group = m.group := congrArg task_struct.tgid htask
  have ha : Held t.dev m.group a := ⟨m', hm', hgm, by rw [hallocs]; exact List.mem_cons_self⟩
  have hlt : a.cmg < MAX_NUM_CMG := (hit.sane _ a ha).cmg_lt
  have hcmg : a.cmg = (⟨a.cmg, hlt⟩ : Fin MAX_NUM_CMG).val := rfl
  have hptr : cmgs_ptr a.cmg = .ok ⟨a.cmg, hlt⟩ := cmgs_ptr_ok ⟨a.cmg, hlt⟩
  obtain ⟨t', hfree, hpath, hrel⟩ := free_allocation_spec hit hg ha hcmg hok
  refine ⟨t', by rw [hptr]; exact hfree, h.path.trans hpath, ?_, ?_,
    hrel.active_count.trans h.active_count, hrel.init_sync_bb.trans h.init_sync_bb,
    hrel.locks.trans h.locks, hrel.preempt_count.trans h.preempt_count⟩
  · refine ⟨m'.drop a.place, ?_, htask, ?_⟩
    · rw [hrel.task_list]
      exact (Keyed.mem_modify hit.lists.groups hm' hgm _).mpr (Or.inr rfl)
    · show Keyed.erase a64fx_task_allocation.place a.place m'.allocs = rest
      rw [hallocs, Keyed.erase_cons_self rfl]
  · rw [hrel.task_list, ← h.task_list]
    exact Keyed.erase_modify (by intro _ hx; exact hx) _

/-- **`unregister_task` removes the mapping with everything it holds.** -/
theorem unregister_task_spec {m : a64fx_task_mapping} (hi : Inv l s.dev)
    (hm : m ∈ s.dev.task_list) (hg : m.group = c.task.tgid) (hok : m.allocs = [] ∨ ok .release) :
    ∃ s', unregister_task c m s = .ok s' ∧ ReflTransGen (Micro l c ok) s s' ∧
      Unregistered m.group s s' := by
  have hnum := (hi.lists.mapping m hm).num_allocs
  by_cases hempty : m.allocs = []
  · have h0 : m.num_allocs = 0 := by rw [hnum, hempty]; rfl
    exact ⟨_, unregister_task_empty h0, .single (.unmap_group m hm hg hempty),
      rfl, rfl, rfl, rfl, rfl⟩
  · have hok' := hok.resolve_left hempty
    have hpos := List.length_pos_iff.mpr hempty
    obtain ⟨t, hloop, ht⟩ := Loops.foldlM_list (Unregistering l c ok m s)
      (fun s a => do let cmg ← cmgs_ptr a.cmg; free_allocation c cmg m a s) m.allocs s
      ⟨.refl, ⟨m, hm, rfl, rfl⟩, rfl, rfl, rfl, rfl, rfl⟩
      fun _ _ _ h => h.step hi hg hok'
    -- the loop has emptied the mapping, which can go now
    obtain ⟨m', hm', htask, hallocs⟩ := ht.mapping
    have hgm : m'.group = m.group := congrArg task_struct.tgid htask
    have hmicro : Micro l c ok t { t with dev := t.dev.unmap_group m.group } := by
      rw [← hgm]
      exact .unmap_group m' hm' (hgm.trans hg) hallocs
    refine ⟨{ t with dev := t.dev.unmap_group m.group }, ?_, ht.path.tail hmicro, ht.task_list,
      ht.active_count, ht.init_sync_bb, ht.locks, ht.preempt_count⟩
    unfold unregister_task
    rw [if_pos (by omega), hloop]
    rfl

end A64fxHwb
