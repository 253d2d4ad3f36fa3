/-
What each request returns, and in which state.

The files before this one say which states an operation may lead to. Here are the
results themselves: of BB_ALLOC as one equation, of BW_ASSIGN and BW_UNASSIGN by
what the caller's PE and its allocation look like, and of the ioctl entry points
from the function behind them. A call that faults is told apart from one that
returns.
-/
import A64fxHwb.Steps

set_option autoImplicit false

namespace A64fxHwb

open BitWord Relation Runs

variable {hw : Machine} {l : Load hw} {c : Call hw} {e : Event hw} {s s' t : Kernel}
variable {m : a64fx_task_mapping} {a : a64fx_task_allocation} {cmg : Fin MAX_NUM_CMG}

/-! ## BB_ALLOC -/

/-- The mapping a BB_ALLOC works with, and the state in which it has it: the mapping
of the group is there, or it has just been created. -/
inductive Mapped (c : Call hw) (s : Kernel) : a64fx_task_mapping → Kernel → Prop
  | found (m : a64fx_task_mapping) (h : get_taskmap s.dev c.task = some m) : Mapped c s m s
  | created (h : get_taskmap s.dev c.task = none) (hmem : c.kmalloc_taskmap = true) :
      Mapped c s { task := c.task, num_allocs := 0, allocs := [] }
        { s with dev := s.dev.map_group c.task }

/-- There is a mapping unless there is no memory for one. -/
theorem mapped_or_no_memory (c : Call hw) (s : Kernel) :
    (∃ m t, Mapped c s m t) ∨
      (get_taskmap s.dev c.task = none ∧ c.kmalloc_taskmap = false) := by
  cases hget : get_taskmap s.dev c.task with
  | some m => exact Or.inl ⟨m, s, .found m hget⟩
  | none =>
      cases hmem : c.kmalloc_taskmap with
      | true => exact Or.inl ⟨_, _, .created hget hmem⟩
      | false => exact Or.inr ⟨rfl, rfl⟩

theorem Mapped.regs (h : Mapped c s m t) : t.regs = s.regs := by
  cases h with
  | found => rfl
  | created => rfl

theorem Mapped.cmgs (h : Mapped c s m t) : t.dev.cmgs = s.dev.cmgs := by
  cases h with
  | found => rfl
  | created => rfl

theorem Mapped.locks (h : Mapped c s m t) :
    t.locks = s.locks ∧ t.preempt_count = s.preempt_count := by
  cases h with
  | found => exact ⟨rfl, rfl⟩
  | created => exact ⟨rfl, rfl⟩

theorem Mapped.mem (h : Mapped c s m t) : m ∈ t.dev.task_list ∧ m.group = c.task.tgid := by
  cases h with
  | found m hget => exact mem_of_get_taskmap hget
  | created => exact ⟨List.mem_cons_self, rfl⟩

/-- Creating the mapping of a group gives it no allocation. -/
theorem Mapped.held (h : Mapped c s m t) (g : ℕ) (x : a64fx_task_allocation) :
    Held t.dev g x ↔ Held s.dev g x := by
  cases h with
  | found => exact Iff.rfl
  | created => exact held_map_group c.task g x

theorem Mapped.inv (hi : Inv l s.dev) (h : Mapped c s m t) : Inv l t.dev := by
  cases h with
  | found => exact hi
  | created hget =>
      have hstep : Micro l c (fun _ => True) s { s with dev := s.dev.map_group c.task } :=
        .map_group (get_taskmap_eq_none.mp hget) trivial
      exact hstep.inv hi

theorem Mapped.mapping (h : Mapped c s m t) :
    get_taskmap s.dev c.task ≠ none ∨ c.kmalloc_taskmap = true := by
  cases h with
  | found m hget =>
      rw [hget]
      exact Or.inl (Option.some_ne_none m)
  | created hget hmem => exact Or.inr hmem

theorem Mapped.num_bb (h : Mapped c s m t) : t.dev.num_bb_per_cmg = s.dev.num_bb_per_cmg := by
  cases h with
  | found => rfl
  | created => rfl

/-- The locks play no part in it. -/
theorem Mapped.with_locks (h : Mapped c s m t) (L : Locks) :
    Mapped c { s with locks := L } m { t with locks := L } := by
  cases h with
  | found m hget => exact .found m hget
  | created hget hmem => exact .created hget hmem

/-- The mapping `oss_a64fx_hwb_allocate` comes to, -/
theorem allocate_taskmap_of_mapped (h : Mapped c s m t) :
    oss_a64fx_hwb_allocate_taskmap c s = (some m, t) := by
  unfold oss_a64fx_hwb_allocate_taskmap
  cases h with
  | found m hget => simp only [hget]
  | created hget hmem =>
      unfold new_taskmap
      simp only [hget, hmem]
      rfl

/-- unless there is no memory for one. -/
theorem allocate_taskmap_no_memory (hget : get_taskmap s.dev c.task = none)
    (hmem : c.kmalloc_taskmap = false) : oss_a64fx_hwb_allocate_taskmap c s = (none, s) := by
  unfold oss_a64fx_hwb_allocate_taskmap new_taskmap
  simp only [hget, hmem]
  rfl

/-- What `oss_a64fx_hwb_allocate` returns and leaves once it has the mapping. The
lowest blade that is free is handed out, with or without memory for it. -/
def allocate_outcome (c : Call hw) (cmg : Fin MAX_NUM_CMG) (mask : cpumask_t)
    (m : a64fx_task_mapping) (t : Kernel) : (ℤ × Option ℕ) × Kernel :=
  let b := firstZero (t.dev.cmgs cmg).bb_active MAX_BB_PER_CMG
  if b < MAX_BB_PER_CMG then
    ((0, some b), if c.kmalloc_alloc then allocated c m cmg b mask t else t)
  else ((-ENODEV, none), t)

/-- On a table that is built, what is registered depends on the memory only. -/
theorem blade_outcome_eq (hi : Inv l t.dev) (hm : m ∈ t.dev.task_list) (cmg : Fin MAX_NUM_CMG)
    (mask : cpumask_t) : blade_outcome c cmg mask m t = allocate_outcome c cmg mask m t := by
  unfold blade_outcome allocate_outcome
  rw [hi.table.num_bb]
  by_cases hbit : firstZero (t.dev.cmgs cmg).bb_active MAX_BB_PER_CMG < MAX_BB_PER_CMG
  · have hfree := (firstZero_spec hbit).1
    simp only [if_pos hbit]
    generalize firstZero (t.dev.cmgs cmg).bb_active MAX_BB_PER_CMG = b at hfree ⊢
    -- the group holds nothing for a blade that is free
    have hnone : get_allocation (t.dev.cmgs cmg) m b = none := by
      refine (get_allocation_eq_none hi.table).mpr fun a ha hc hb => ?_
      have hplace : a.place = (cmg.val, b) := by
        rw [a64fx_task_allocation.place, hc]
        congr 1
        omega
      exact hi.fresh_place hfree ⟨m, hm, rfl, ha⟩ hplace
    rw [is_registered, hnone, Option.isNone_none, Bool.true_and]
  · simp only [if_neg hbit]

/-- The locks are not part of what the search works on. -/
theorem blade_outcome_locks (c : Call hw) (cmg : Fin MAX_NUM_CMG) (mask : cpumask_t)
    (m : a64fx_task_mapping) (t : Kernel) (L : Locks) :
    blade_outcome c cmg mask m { t with locks := L } =
      ((blade_outcome c cmg mask m t).1, { (blade_outcome c cmg mask m t).2 with locks := L }) := by
  have hreg : ∀ b, is_registered c cmg m b { t with locks := L } = is_registered c cmg m b t :=
    fun _ => rfl
  unfold blade_outcome
  simp only [hreg]
  generalize firstZero (t.dev.cmgs cmg).bb_active MAX_BB_PER_CMG = b
  by_cases hbit : b < t.dev.num_bb_per_cmg
  · simp only [if_pos hbit]
    by_cases hbr : is_registered c cmg m b t
    · rw [if_pos hbr, if_pos hbr]
      rfl
    · rw [if_neg hbr, if_neg hbr]
  · simp only [if_neg hbit]

theorem blade_outcome_keeps_locks (c : Call hw) (cmg : Fin MAX_NUM_CMG) (mask : cpumask_t)
    (m : a64fx_task_mapping) (t : Kernel) :
    (blade_outcome c cmg mask m t).2.locks = t.locks ∧
      (blade_outcome c cmg mask m t).2.preempt_count = t.preempt_count := by
  unfold blade_outcome
  generalize firstZero (t.dev.cmgs cmg).bb_active MAX_BB_PER_CMG = b
  by_cases hbit : b < t.dev.num_bb_per_cmg
  · simp only [if_pos hbit]
    by_cases hbr : is_registered c cmg m b t
    · rw [if_pos hbr]
      exact ⟨rfl, rfl⟩
    · rw [if_neg hbr]
      exact ⟨rfl, rfl⟩
  · simp only [if_neg hbit]
    exact ⟨trivial, trivial⟩

/-- **BB_ALLOC on a CMG, as an equation**, whatever the table and the lists hold. -/
theorem allocate_run (hlock : s.locks.dev_lock = false)
    (hnum : s.dev.num_bb_per_cmg ≤ MAX_BB_PER_CMG) (cmg : Fin MAX_NUM_CMG) (mask : cpumask_t)
    (h : Mapped c s m t) :
    oss_a64fx_hwb_allocate c cmg.val mask s = .ok (blade_outcome c cmg mask m t) := by
  have hmap := allocate_taskmap_of_mapped (h.with_locks { s.locks with dev_lock := true })
  have hblade := allocate_blade_run (c := c) (s := { t with locks :=
    { s.locks with dev_lock := true } }) (h.num_bb.trans_le hnum) m cmg mask
  rw [blade_outcome_locks] at hblade
  -- the lock is given back as it was found
  have hfree : ({ s.locks with dev_lock := false } : Locks) = s.locks := by rw [← hlock]
  have hback : ({ (blade_outcome c cmg mask m t).2 with locks := s.locks } : Kernel) =
      (blade_outcome c cmg mask m t).2 := by
    rw [← h.locks.1, ← (blade_outcome_keeps_locks c cmg mask m t).1]
  unfold oss_a64fx_hwb_allocate
  rw [if_neg (cmg_in_range cmg), spin_lock_dev_ok hlock, Loops.ok_bind]
  simp only [hmap, hblade, Loops.ok_bind]
  rw [spin_unlock_dev_ok rfl]
  simp only [Loops.ok_bind, hfree, hback]
  rfl

/-- On a table that is built. -/
theorem allocate_eq (hi : Inv l s.dev) (hlock : s.locks = Locks.free) (cmg : Fin MAX_NUM_CMG)
    (mask : cpumask_t) (h : Mapped c s m t) :
    oss_a64fx_hwb_allocate c cmg.val mask s = .ok (allocate_outcome c cmg mask m t) := by
  have hfree : s.locks.dev_lock = false := congrArg Locks.dev_lock hlock
  rw [allocate_run hfree hi.table.num_bb.le cmg mask h, blade_outcome_eq (h.inv hi) h.mem.1]

/-- Without memory for a mapping nothing is done. -/
theorem allocate_no_memory (hlock : s.locks.dev_lock = false) (cmg : Fin MAX_NUM_CMG)
    (mask : cpumask_t) (hget : get_taskmap s.dev c.task = none)
    (hmem : c.kmalloc_taskmap = false) :
    oss_a64fx_hwb_allocate c cmg.val mask s = .ok ((-1, none), s) := by
  have hfree : ({ s.locks with dev_lock := false } : Locks) = s.locks := by rw [← hlock]
  have hmap := allocate_taskmap_no_memory (c := c)
    (s := { s with locks := { s.locks with dev_lock := true } }) hget hmem
  unfold oss_a64fx_hwb_allocate
  rw [if_neg (cmg_in_range cmg), spin_lock_dev_ok hlock, Loops.ok_bind]
  simp only [hmap, pure_bind]
  rw [spin_unlock_dev_ok rfl]
  simp only [Loops.ok_bind, hfree]
  rfl

/-! ## BW_ASSIGN -/

/-- What a BW_ASSIGN and a BW_UNASSIGN look for before anything else: the caller is
bound to one CPU, and its group has the allocation `a` for the blade on the CMG of
the CPU. -/
structure FindsBlade (c : Call hw) (blade : ℤ) (s : Kernel) (m : a64fx_task_mapping)
    (a : a64fx_task_allocation) : Prop where
  pinned : cpumask_weight c.cpus_mask ≤ 1
  mapping : get_taskmap s.dev c.task = some m
  allocation : get_allocation (s.dev.cmgs (hw.cmg c.cpu)) m blade = some a

/-- The window a BW_ASSIGN takes on the caller's PE: a free one, which is the one
asked for, or the first if none is asked for and none is recorded. -/
structure Chooses (c : Call hw) (s : Kernel) (a : a64fx_task_allocation) (window : ℤ) (w : ℕ) :
    Prop where
  lt : w < MAX_BW_PER_CMG
  free : s.dev.bw (hw.cmg c.cpu) (hw.slot c.cpu) w = false
  choice : window = w ∨ (window < 0 ∧ a.window (hw.slot c.cpu) = A64FX_HWB_UNASSIGNED_WIN ∧
    firstZero ((s.dev.cmgs (hw.cmg c.cpu)).pe_map (hw.slot c.cpu)).bw_map MAX_BW_PER_CMG = w)

theorem FindsBlade.mem {blade : ℤ} (hi : Inv l s.dev) (h : FindsBlade c blade s m a) :
    m ∈ s.dev.task_list ∧ m.group = c.task.tgid ∧ a ∈ m.allocs ∧ a.cmg = (hw.cmg c.cpu).val ∧
      (a.blade : ℤ) = blade := by
  obtain ⟨hm, hg⟩ := mem_of_get_taskmap h.mapping
  obtain ⟨ha, hc, hb⟩ := get_allocation_eq_some hi.table h.allocation
  exact ⟨hm, hg, ha, hc, hb⟩

/-- Outside the word the answer to `test_bit` is that of the memory behind it. -/
theorem test_bit_beyond {nr : ℤ} (h : 64 ≤ nr) (word : BitVec 64) : test_bit c nr word =
    match c.beyond with
    | some mem => .ok (mem nr)
    | none => .error (.bit_number nr) := by
  unfold test_bit
  exact if_neg (by omega)

/-- The choice of the window when the number that was given is not beyond the word. -/
theorem assign_window_eq (hi : Inv l s.dev) (ha : Held s.dev c.task.tgid a)
    (hc : a.cmg = (hw.cmg c.cpu).val) (hon : l.online.getLsbD c.cpu = true) {window : ℤ}
    (hlt : window < 64) :
    oss_a64fx_hwb_assign_window c window (a.window (hw.slot c.cpu))
        ((s.dev.cmgs (hw.cmg c.cpu)).pe_map (hw.slot c.cpu)).bw_map =
      .ok (if window < 0 then
          some (if a.window (hw.slot c.cpu) = A64FX_HWB_UNASSIGNED_WIN then
            (firstZero ((s.dev.cmgs (hw.cmg c.cpu)).pe_map (hw.slot c.cpu)).bw_map
              MAX_BW_PER_CMG : ℤ)
            else a.window (hw.slot c.cpu))
        else if s.dev.bw (hw.cmg c.cpu) (hw.slot c.cpu) window.toNat = true then none
        else some window) := by
  unfold oss_a64fx_hwb_assign_window
  by_cases hneg : window < 0
  · rw [if_pos hneg, if_pos hneg]
    by_cases hnone : a.window (hw.slot c.cpu) = A64FX_HWB_UNASSIGNED_WIN
    · rw [if_pos hnone, if_pos hnone]
      rfl
    · -- the recorded window is marked as taken
      obtain ⟨w, hw4, hr⟩ := ((hi.sane _ a ha).records_or_none hon hc.symm).resolve_right hnone
      have hw64 : w < 4 := hw4
      have hbit : ((s.dev.cmgs (hw.cmg c.cpu)).pe_map (hw.slot c.cpu)).bw_map.getLsbD w = true :=
        hi.bw_of_records ha hr
      rw [if_neg hnone, if_neg hnone, hr.2.2, test_bit_ok (show w < 64 by omega), Loops.ok_bind,
        hbit]
      rfl
  · obtain ⟨n, rfl⟩ := Int.eq_ofNat_of_zero_le (not_lt.mp hneg)
    have hn : n < 64 := by omega
    rw [if_neg hneg, if_neg hneg, test_bit_ok hn, Loops.ok_bind, Int.toNat_natCast,
      a64fx_hwb_device.bw]
    cases ((s.dev.cmgs (hw.cmg c.cpu)).pe_map (hw.slot c.cpu)).bw_map.getLsbD n with
    | true => rfl
    | false => rfl

/-- A number beyond the word traps, or names no window. -/
theorem assign_window_beyond {window : ℤ} (hge : 64 ≤ window) (recorded : ℤ)
    (bw_map : BitVec 64) :
    (c.beyond = none ∧ oss_a64fx_hwb_assign_window c window recorded bw_map =
        .error (.bit_number window)) ∨
      (c.beyond ≠ none ∧ ∃ chosen, oss_a64fx_hwb_assign_window c window recorded bw_map =
        .ok chosen ∧ (chosen = none ∨ chosen = some window)) := by
  unfold oss_a64fx_hwb_assign_window
  rw [if_neg (by omega), test_bit_beyond hge]
  cases hmem : c.beyond with
  | none => exact Or.inl ⟨rfl, rfl⟩
  | some mem =>
      refine Or.inr ⟨by simp, ?_⟩
      simp only [Loops.ok_bind]
      cases mem window with
      | true => exact ⟨none, rfl, Or.inl rfl⟩
      | false => exact ⟨some window, rfl, Or.inr rfl⟩

/-- The caller's PE is chosen a window, or the call fails, or the number it was
given is beyond the word and is trapped. -/
inductive AssignOutcome (c : Call hw) (window : ℤ) (m : a64fx_task_mapping)
    (a : a64fx_task_allocation) (s : Kernel) : Except Fault ((ℤ × Option ℤ) × Kernel) → Prop
  | taken (w : ℕ) (hw : Chooses c s a window w) :
      AssignOutcome c window m a s (.ok ((0, some (w : ℤ)), taken c m c.cpu w a s))
  | failed (err : ℤ) (herr : err < 0) (hno : ∀ w, ¬Chooses c s a window w)
      (hbeyond : window < 64 ∨ c.beyond ≠ none) :
      AssignOutcome c window m a s (.ok ((err, none), s))
  | trapped (hge : 64 ≤ window) (hbeyond : c.beyond = none) :
      AssignOutcome c window m a s (.error (.bit_number window))

/-- What follows the choice of the window `chosen`. -/
theorem assign_chosen_outcome {window chosen : ℤ} (hbeyond : window < 64 ∨ c.beyond ≠ none)
    (hiff : ∀ w : ℕ, Chooses c s a window w ↔ w < MAX_BW_PER_CMG ∧
      s.dev.bw (hw.cmg c.cpu) (hw.slot c.cpu) w = false ∧ (w : ℤ) = chosen) :
    AssignOutcome c window m a s
      (if 0 ≤ chosen ∧ chosen < MAX_BW_PER_CMG ∧
          s.dev.bw (hw.cmg c.cpu) (hw.slot c.cpu) chosen.toNat = false
        then .ok ((0, some chosen), taken c m c.cpu chosen.toNat a s)
        else .ok ((-ENODEV, none), s)) := by
  by_cases hcond : 0 ≤ chosen ∧ chosen < MAX_BW_PER_CMG ∧
      s.dev.bw (hw.cmg c.cpu) (hw.slot c.cpu) chosen.toNat = false
  · rw [if_pos hcond]
    obtain ⟨h0, h4, hfree⟩ := hcond
    obtain ⟨n, rfl⟩ := Int.eq_ofNat_of_zero_le h0
    rw [Int.toNat_natCast] at hfree ⊢
    exact .taken n ((hiff n).mpr ⟨by exact_mod_cast h4, hfree, rfl⟩)
  · rw [if_neg hcond]
    refine .failed _ (by decide) (fun w hch => hcond ?_) hbeyond
    obtain ⟨h4, hfree, rfl⟩ := (hiff w).mp hch
    exact ⟨by omega, by exact_mod_cast h4, by rw [Int.toNat_natCast]; exact hfree⟩

/-- A negative number asks for the recorded window, or for the first free one. -/
theorem chooses_negative (hi : Inv l s.dev) (ha : Held s.dev c.task.tgid a)
    (hc : a.cmg = (hw.cmg c.cpu).val) (hon : l.online.getLsbD c.cpu = true) {window : ℤ}
    (hneg : window < 0) (w : ℕ) :
    Chooses c s a window w ↔ w < MAX_BW_PER_CMG ∧
      s.dev.bw (hw.cmg c.cpu) (hw.slot c.cpu) w = false ∧
      (w : ℤ) = if a.window (hw.slot c.cpu) = A64FX_HWB_UNASSIGNED_WIN then
          (firstZero ((s.dev.cmgs (hw.cmg c.cpu)).pe_map (hw.slot c.cpu)).bw_map
            MAX_BW_PER_CMG : ℤ)
        else a.window (hw.slot c.cpu) := by
  by_cases hnone : a.window (hw.slot c.cpu) = A64FX_HWB_UNASSIGNED_WIN
  · rw [if_pos hnone]
    constructor
    · rintro ⟨hlt, hfree, hw' | ⟨-, -, hw'⟩⟩
      · omega
      · exact ⟨hlt, hfree, by rw [hw']⟩
    · rintro ⟨hlt, hfree, hw'⟩
      exact ⟨hlt, hfree, Or.inr ⟨hneg, hnone, by omega⟩⟩
  · rw [if_neg hnone]
    -- the recorded window is in use
    obtain ⟨w₀, -, hr⟩ := ((hi.sane _ a ha).records_or_none hon hc.symm).resolve_right hnone
    have hbit := hi.bw_of_records ha hr
    constructor
    · rintro ⟨-, -, hw' | ⟨-, hw', -⟩⟩
      · omega
      · exact absurd hw' hnone
    · rintro ⟨-, hfree, hw'⟩
      have hww : w = w₀ := by
        have hrec := hr.2.2
        omega
      rw [hww, hbit] at hfree
      exact Bool.noConfusion hfree

/-- A number that is not negative asks for the window it names. -/
theorem chooses_explicit {window : ℤ} (hpos : ¬window < 0) (w : ℕ) :
    Chooses c s a window w ↔ w < MAX_BW_PER_CMG ∧
      s.dev.bw (hw.cmg c.cpu) (hw.slot c.cpu) w = false ∧ (w : ℤ) = window := by
  constructor
  · rintro ⟨hlt, hfree, hw' | ⟨hneg, -⟩⟩
    · exact ⟨hlt, hfree, hw'.symm⟩
    · exact absurd hneg hpos
  · rintro ⟨hlt, hfree, hw'⟩
    exact ⟨hlt, hfree, Or.inl hw'.symm⟩

/-- **BW_ASSIGN under the lock of the CMG**, on a PE of the table and for one of the
blade's CPUs. -/
theorem assign_locked_outcome (hi : Inv l s.dev) (hlock : s.locks = Locks.dev_held)
    (ha : Held s.dev c.task.tgid a) (hc : a.cmg = (hw.cmg c.cpu).val)
    (hon : l.online.getLsbD c.cpu = true) (hmem : a.cpumask.getLsbD c.cpu = true)
    (m : a64fx_task_mapping) (window : ℤ) :
    AssignOutcome c window m a s
      (oss_a64fx_hwb_assign_locked c (hw.cmg c.cpu) (some (hw.slot c.cpu)) a.blade window m a
        s) := by
  rw [assign_locked_eq hi.table hlock hon, if_pos hmem]
  by_cases hlt : window < 64
  · rw [assign_window_eq hi ha hc hon hlt, Loops.ok_bind]
    by_cases hneg : window < 0
    · rw [if_pos hneg]
      exact assign_chosen_outcome (Or.inl hlt) (chooses_negative hi ha hc hon hneg)
    · rw [if_neg hneg]
      by_cases hbit : s.dev.bw (hw.cmg c.cpu) (hw.slot c.cpu) window.toNat = true
      · rw [if_pos hbit]
        refine .failed _ (by decide) (fun w hch => ?_) (Or.inl hlt)
        obtain ⟨-, hfree, rfl⟩ := (chooses_explicit hneg w).mp hch
        rw [Int.toNat_natCast, hfree] at hbit
        exact Bool.noConfusion hbit
      · rw [if_neg hbit]
        exact assign_chosen_outcome (Or.inl hlt) (chooses_explicit hneg)
  · -- the number is beyond the word
    have hge := not_lt.mp hlt
    rcases assign_window_beyond (c := c) hge (a.window (hw.slot c.cpu))
      ((s.dev.cmgs (hw.cmg c.cpu)).pe_map (hw.slot c.cpu)).bw_map with
      ⟨hnone, heq⟩ | ⟨hsome, chosen, heq, rfl | rfl⟩
    · rw [heq]
      exact .trapped hge hnone
    · rw [heq, Loops.ok_bind]
      refine .failed _ (by decide) (fun w hch => ?_) (Or.inr hsome)
      obtain ⟨h4, -, hw'⟩ := (chooses_explicit (by omega) w).mp hch
      have h4' : w < 4 := h4
      omega
    · rw [heq, Loops.ok_bind]
      exact assign_chosen_outcome (Or.inr hsome) (chooses_explicit (by omega))

/-- What the search of a BW_ASSIGN or a BW_UNASSIGN comes to: it finds the blade, or
it does not. -/
theorem findsBlade_or (c : Call hw) (blade : ℤ) (s : Kernel) :
    (∃ m a, FindsBlade c blade s m a) ∨ cpumask_weight c.cpus_mask > 1 ∨
      (cpumask_weight c.cpus_mask ≤ 1 ∧ (get_taskmap s.dev c.task = none ∨
        ∃ m, get_taskmap s.dev c.task = some m ∧
          get_allocation (s.dev.cmgs (hw.cmg c.cpu)) m blade = none)) := by
  by_cases hweight : cpumask_weight c.cpus_mask > 1
  · exact Or.inr (Or.inl hweight)
  · have hpin := not_lt.mp hweight
    cases hget : get_taskmap s.dev c.task with
    | none => exact Or.inr (Or.inr ⟨hpin, Or.inl rfl⟩)
    | some m =>
        cases halloc : get_allocation (s.dev.cmgs (hw.cmg c.cpu)) m blade with
        | none => exact Or.inr (Or.inr ⟨hpin, Or.inr ⟨m, rfl, halloc⟩⟩)
        | some a => exact Or.inl ⟨m, a, hpin, hget, halloc⟩

/-- Without the blade a BW_ASSIGN fails, -/
theorem assign_not_found (hlock : s.locks = Locks.free) {blade : ℤ} (window : ℤ)
    (h : ∀ m a, ¬FindsBlade c blade s m a) :
    ∃ err < 0, oss_a64fx_hwb_assign_blade c blade window s = .ok ((err, none), s) := by
  unfold oss_a64fx_hwb_assign_blade
  rcases findsBlade_or c blade s with ⟨m, a, hf⟩ | hweight | ⟨hpin, hno⟩
  · exact absurd hf (h m a)
  · exact ⟨-EINVAL, by decide, by rw [if_pos hweight]; rfl⟩
  · refine ⟨-ENODEV, by decide, ?_⟩
    have hfind : oss_a64fx_hwb_assign_find c blade window
        (get_cpu { s with locks := Locks.dev_held }) =
        .ok ((-ENODEV, none), get_cpu { s with locks := Locks.dev_held }) := by
      unfold oss_a64fx_hwb_assign_find
      rcases hno with hget | ⟨m, hget, halloc⟩
      · simp only [get_cpu, hget]
      · simp only [get_cpu, hget, Machine.read_peinfo, halloc]
    rw [if_neg (not_lt.mpr hpin), spin_lock_dev_free hlock, Loops.ok_bind, hfind, Loops.ok_bind]
    simp only [unlock_unchanged hlock, Loops.ok_bind]
    rfl

/-- and so it does on a CPU that is not one of the blade's. -/
theorem assign_not_member (hlock : s.locks = Locks.free) {blade : ℤ} (window : ℤ)
    (h : FindsBlade c blade s m a) (hmem : a.cpumask.getLsbD c.cpu = false) :
    ∃ err < 0, oss_a64fx_hwb_assign_blade c blade window s = .ok ((err, none), s) := by
  refine ⟨-ENODEV, by decide, ?_⟩
  have hfind : oss_a64fx_hwb_assign_find c blade window
      (get_cpu { s with locks := Locks.dev_held }) =
      .ok ((-ENODEV, none), get_cpu { s with locks := Locks.dev_held }) := by
    rw [assign_find_eq (s := get_cpu { s with locks := Locks.dev_held }) window h.mapping
      h.allocation rfl, assign_locked_not_member rfl hmem]
  unfold oss_a64fx_hwb_assign_blade
  rw [if_neg (not_lt.mpr h.pinned), spin_lock_dev_free hlock, Loops.ok_bind, hfind, Loops.ok_bind]
  simp only [unlock_unchanged hlock, Loops.ok_bind]
  rfl

/-- On a PE that is not in the table it goes through a null pointer. -/
theorem assign_no_entry (ht : Table l s.dev) (hlock : s.locks = Locks.free) {blade : ℤ}
    (window : ℤ) (h : FindsBlade c blade s m a) (hmem : a.cpumask.getLsbD c.cpu = true)
    (hoff : l.online.getLsbD c.cpu = false) :
    oss_a64fx_hwb_assign_blade c blade window s = .error .null_pemap := by
  have hfind : oss_a64fx_hwb_assign_find c blade window
      (get_cpu { s with locks := Locks.dev_held }) = .error .null_pemap := by
    rw [assign_find_eq (s := get_cpu { s with locks := Locks.dev_held }) window h.mapping
      h.allocation (get_pemap_offline ht (c.online_present _ c.cpu_online) hoff),
      assign_locked_no_entry rfl hmem]
  unfold oss_a64fx_hwb_assign_blade
  rw [if_neg (not_lt.mpr h.pinned), spin_lock_dev_free hlock, Loops.ok_bind, hfind]
  rfl

/-- **BW_ASSIGN on a PE of the table, for one of the blade's CPUs.** -/
theorem assign_blade_outcome (hi : Inv l s.dev) (hlock : s.locks = Locks.free) {blade : ℤ}
    (window : ℤ) (h : FindsBlade c blade s m a) (hmem : a.cpumask.getLsbD c.cpu = true)
    (hon : l.online.getLsbD c.cpu = true) :
    AssignOutcome c window m a s (oss_a64fx_hwb_assign_blade c blade window s) := by
  obtain ⟨hm, hg, ha, hc, hb⟩ := h.mem hi
  have hlocked := assign_locked_outcome (s := get_cpu { s with locks := Locks.dev_held }) hi rfl
    ⟨m, hm, hg, ha⟩ hc hon hmem m window
  have hfind : oss_a64fx_hwb_assign_find c blade window
      (get_cpu { s with locks := Locks.dev_held }) =
      oss_a64fx_hwb_assign_locked c (hw.cmg c.cpu) (some (hw.slot c.cpu)) a.blade window m a
        (get_cpu { s with locks := Locks.dev_held }) := by
    rw [assign_find_eq (s := get_cpu { s with locks := Locks.dev_held }) window h.mapping
      h.allocation (get_pemap_online hi.table hon), hb]
  unfold oss_a64fx_hwb_assign_blade
  rw [if_neg (not_lt.mpr h.pinned), spin_lock_dev_free hlock, Loops.ok_bind, hfind]
  generalize oss_a64fx_hwb_assign_locked c (hw.cmg c.cpu) (some (hw.slot c.cpu)) a.blade window m a
    (get_cpu { s with locks := Locks.dev_held }) = result at hlocked
  -- `get_cpu` and `put_cpu` cancel, and so do the locks
  cases hlocked with
  | taken w hch =>
      rw [Loops.ok_bind]
      simp only [unlock_taken hlock, Loops.ok_bind]
      exact .taken w ⟨hch.lt, hch.free, hch.choice⟩
  | failed err herr hno hbeyond =>
      rw [Loops.ok_bind]
      simp only [unlock_unchanged hlock, Loops.ok_bind]
      exact .failed err herr (fun w hch => hno w ⟨hch.lt, hch.free, hch.choice⟩) hbeyond
  | trapped hge hbeyond => exact .trapped hge hbeyond

/-! ## BW_UNASSIGN -/

/-- Without the blade a BW_UNASSIGN fails. -/
theorem unassign_not_found (hlock : s.locks = Locks.free) {blade : ℤ}
    (h : ∀ m a, ¬FindsBlade c blade s m a) :
    ∃ err < 0, oss_a64fx_hwb_unassign_blade c blade s = .ok (err, s) := by
  unfold oss_a64fx_hwb_unassign_blade
  rcases findsBlade_or c blade s with ⟨m, a, hf⟩ | hweight | ⟨hpin, hno⟩
  · exact absurd hf (h m a)
  · exact ⟨-EINVAL, by decide, by rw [if_pos hweight]; rfl⟩
  · have hfind : ∃ err < 0, oss_a64fx_hwb_unassign_find c blade
        (get_cpu { s with locks := Locks.dev_held }) =
        .ok (err, get_cpu { s with locks := Locks.dev_held }) := by
      unfold oss_a64fx_hwb_unassign_find
      rcases hno with hget | ⟨m, hget, halloc⟩
      · exact ⟨-ENODEV, by decide, by simp only [get_cpu, hget]⟩
      · exact ⟨-EINVAL, by decide, by simp only [get_cpu, hget, Machine.read_peinfo, halloc]⟩
    obtain ⟨err, herr, hfind⟩ := hfind
    refine ⟨err, herr, ?_⟩
    rw [if_neg (not_lt.mpr hpin), spin_lock_dev_free hlock, Loops.ok_bind, hfind, Loops.ok_bind]
    simp only [unlock_unchanged hlock, Loops.ok_bind]
    rfl

/-- On a PE that is not in the table it goes through a null pointer, whether or not
the CPU is one of the blade's. -/
theorem unassign_no_entry (ht : Table l s.dev) (hlock : s.locks = Locks.free) {blade : ℤ}
    (h : FindsBlade c blade s m a) (hoff : l.online.getLsbD c.cpu = false) :
    oss_a64fx_hwb_unassign_blade c blade s = .error .null_pemap := by
  have hpe : get_pemap s.dev (hw.cmg c.cpu) (hw.ppe c.cpu) = none :=
    get_pemap_offline ht (c.online_present _ c.cpu_online) hoff
  have hfind : oss_a64fx_hwb_unassign_find c blade
      (get_cpu { s with locks := Locks.dev_held }) = .error .null_pemap := by
    unfold oss_a64fx_hwb_unassign_find
    simp only [get_cpu, h.mapping, Machine.read_peinfo, h.allocation, hpe, pemap_deref]
    rfl
  unfold oss_a64fx_hwb_unassign_blade
  rw [if_neg (not_lt.mpr h.pinned), spin_lock_dev_free hlock, Loops.ok_bind, hfind]
  rfl

/-- The caller's PE has window `w` of the blade, and the register of the window names
the blade. -/
structure GivesBack (l : Load hw) (c : Call hw) (s : Kernel) (a : a64fx_task_allocation) (w : ℕ) :
    Prop where
  recorded : Records l a c.cpu w
  named : wr_blade s.regs c.cpu w = a.blade

/-- **BW_UNASSIGN on a PE of the table.** -/
theorem unassign_blade_outcome (hi : Inv l s.dev) (hlock : s.locks = Locks.free) {blade : ℤ}
    (h : FindsBlade c blade s m a) (hon : l.online.getLsbD c.cpu = true) :
    (∃ w, GivesBack l c s a w ∧
        oss_a64fx_hwb_unassign_blade c blade s = .ok (0, give_back c m c.cpu w a s)) ∨
      ((∀ w, ¬GivesBack l c s a w) ∧
        ∃ err < 0, oss_a64fx_hwb_unassign_blade c blade s = .ok (err, s)) := by
  obtain ⟨hm, hg, ha, hc, -⟩ := h.mem hi
  have hfind := unassign_find_eq (s := get_cpu { s with locks := Locks.dev_held }) hi rfl h.mapping
    h.allocation hon
  have hregs : (get_cpu { s with locks := Locks.dev_held }).regs = s.regs := rfl
  unfold oss_a64fx_hwb_unassign_blade
  rw [if_neg (not_lt.mpr h.pinned), spin_lock_dev_free hlock, Loops.ok_bind, hfind, hregs]
  by_cases hcond : 0 ≤ a.window (hw.slot c.cpu) ∧
      wr_blade s.regs c.cpu (a.window (hw.slot c.cpu)).toNat = a.blade
  · have hr : Records l a c.cpu (a.window (hw.slot c.cpu)).toNat :=
      ⟨hon, hc.symm, (Int.toNat_of_nonneg hcond.1).symm⟩
    refine Or.inl ⟨_, ⟨hr, hcond.2⟩, ?_⟩
    rw [if_pos hcond, Loops.ok_bind]
    simp only [unlock_given_back hlock, Loops.ok_bind]
    rfl
  · refine Or.inr ⟨fun w hgives => hcond ?_, -EINVAL, by decide, ?_⟩
    · rw [hgives.recorded.2.2, Int.toNat_natCast]
      exact ⟨by omega, hgives.named⟩
    · rw [if_neg hcond, Loops.ok_bind]
      simp only [unlock_unchanged hlock, Loops.ok_bind]
      rfl

/-! ## The ioctl entry points -/

/-- The reply of a BB_ALLOC whose mask was accepted for CMG `cmg_id`. -/
def alloc_reply (arg : AllocArg) (cmg_id : ℤ) (ret : ℤ × Option ℕ) : Reply :=
  match ret.2 with
  | none => { err := ret.1 }
  | some bb =>
    if arg.writable then { err := 0, bb_ctl := some { cmg := BitVec.ofInt 8 cmg_id, bb := bb } }
    else { err := -1 }

theorem alloc_event_eq {arg : AllocArg} {ioc : fujitsu_hwb_ioc_bb_ctl} {mask : BitVec 64}
    (he : e.request = .ioctl (.BB_ALLOC arg)) (hread : arg.read = some ioc)
    (hmask : arg.pemask = some mask) (hcheck : 0 ≤ check_cpumask e.call.online s.dev mask) :
    handle e s =
      (oss_a64fx_hwb_allocate e.call (check_cpumask e.call.online s.dev mask) mask s).map
        fun x => (alloc_reply arg (check_cpumask e.call.online s.dev mask) x.1, x.2) := by
  unfold handle oss_a64fx_hwb_ioctl oss_a64fx_hwb_allocate_ioctl
  simp only [he, hread, hmask, clean_cpumask_eq, if_neg (not_lt.mpr hcheck)]
  cases oss_a64fx_hwb_allocate e.call (check_cpumask e.call.online s.dev mask) mask s with
  | error f => rfl
  | ok x =>
      obtain ⟨⟨err, blade⟩, t⟩ := x
      cases blade with
      | none => rfl
      | some b =>
          simp only [Loops.ok_bind, Except.map, alloc_reply]
          split_ifs
          · rfl
          · rfl

/-- A BB_ALLOC whose argument is not read, or whose mask is not accepted. -/
theorem alloc_event_refused {arg : AllocArg} (he : e.request = .ioctl (.BB_ALLOC arg))
    (h : ∀ ioc mask, arg.read = some ioc → arg.pemask = some mask →
      check_cpumask e.call.online s.dev mask < 0) : handle e s = .ok ({ err := -EINVAL }, s) := by
  unfold handle oss_a64fx_hwb_ioctl oss_a64fx_hwb_allocate_ioctl
  simp only [he]
  cases hread : arg.read with
  | none => rfl
  | some ioc =>
      cases hmask : arg.pemask with
      | none => rfl
      | some mask =>
          simp only [clean_cpumask_eq, if_pos (h ioc mask hread hmask)]
          rfl

/-- The reply of a BW_ASSIGN whose argument was read. -/
def assign_reply (arg : UserArg fujitsu_hwb_ioc_bw_ctl) (ioc : fujitsu_hwb_ioc_bw_ctl)
    (ret : ℤ × Option ℤ) : Reply :=
  if ret.1 ≠ 0 then { err := ret.1 }
  else if arg.writable then
    { err := 0, bw_ctl := some { ioc with window := BitVec.ofInt 8 (ret.2.getD 0) } }
  else { err := -1 }

theorem assign_event_eq {arg : UserArg fujitsu_hwb_ioc_bw_ctl} {ioc : fujitsu_hwb_ioc_bw_ctl}
    (he : e.request = .ioctl (.BW_ASSIGN arg)) (hread : arg.read = some ioc) :
    handle e s = (oss_a64fx_hwb_assign_blade e.call ioc.bb.toNat ioc.window.toInt s).map
      fun x => (assign_reply arg ioc x.1, x.2) := by
  unfold handle oss_a64fx_hwb_ioctl oss_a64fx_hwb_assign_blade_ioctl
  simp only [he, hread]
  cases oss_a64fx_hwb_assign_blade e.call ioc.bb.toNat ioc.window.toInt s with
  | error f => rfl
  | ok x =>
      obtain ⟨⟨err, win⟩, t⟩ := x
      simp only [Loops.ok_bind, Except.map, assign_reply]
      split_ifs
      all_goals rfl

/-- The reply of a BW_UNASSIGN whose argument was read. -/
def unassign_reply (arg : UserArg fujitsu_hwb_ioc_bw_ctl) (ioc : fujitsu_hwb_ioc_bw_ctl)
    (err : ℤ) : Reply :=
  if err ≠ 0 then { err := err }
  else if arg.writable then { err := 0, bw_ctl := some ioc }
  else { err := -1 }

theorem unassign_event_eq {arg : UserArg fujitsu_hwb_ioc_bw_ctl} {ioc : fujitsu_hwb_ioc_bw_ctl}
    (he : e.request = .ioctl (.BW_UNASSIGN arg)) (hread : arg.read = some ioc) :
    handle e s = (oss_a64fx_hwb_unassign_blade e.call ioc.bb.toNat s).map
      fun x => (unassign_reply arg ioc x.1, x.2) := by
  unfold handle oss_a64fx_hwb_ioctl oss_a64fx_hwb_unassign_blade_ioctl
  simp only [he, hread]
  cases oss_a64fx_hwb_unassign_blade e.call ioc.bb.toNat s with
  | error f => rfl
  | ok x =>
      obtain ⟨err, t⟩ := x
      simp only [Loops.ok_bind, Except.map, unassign_reply]
      split_ifs
      all_goals rfl

/-- The same for a BB_FREE. -/
theorem free_event_map {arg : UserArg fujitsu_hwb_ioc_bb_ctl} {ioc : fujitsu_hwb_ioc_bb_ctl}
    (he : e.request = .ioctl (.BB_FREE arg)) (hread : arg.read = some ioc) :
    handle e s = (oss_a64fx_hwb_free e.call ioc.cmg.toNat ioc.bb.toNat s).map
      fun x => (free_reply arg ioc x.1, x.2) := by
  cases hfree : oss_a64fx_hwb_free e.call ioc.cmg.toNat ioc.bb.toNat s with
  | ok x => exact free_event_eq he hread hfree
  | error f =>
      unfold handle oss_a64fx_hwb_ioctl oss_a64fx_hwb_free_ioctl
      simp only [he, hread, hfree]
      rfl

/-- What cannot be read is not acted on. -/
def Event.Unread (e : Event hw) : Prop :=
  (∃ arg, e.request = .ioctl (.BW_ASSIGN arg) ∧ arg.read = none) ∨
    (∃ arg, e.request = .ioctl (.BW_UNASSIGN arg) ∧ arg.read = none) ∨
    ∃ arg, e.request = .ioctl (.BB_FREE arg) ∧ arg.read = none

theorem handle_unread (h : e.Unread) : handle e s = .ok ({ err := -1 }, s) := by
  rcases h with ⟨arg, he, hread⟩ | ⟨arg, he, hread⟩ | ⟨arg, he, hread⟩
  · unfold handle oss_a64fx_hwb_ioctl oss_a64fx_hwb_assign_blade_ioctl
    simp only [he, hread]
    rfl
  · unfold handle oss_a64fx_hwb_ioctl oss_a64fx_hwb_unassign_blade_ioctl
    simp only [he, hread]
    rfl
  · unfold handle oss_a64fx_hwb_ioctl oss_a64fx_hwb_free_ioctl
    simp only [he, hread]
    rfl

end A64fxHwb
