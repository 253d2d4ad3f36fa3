/-
BB_ALLOC and RESET.

An allocation may first create the group's mapping, and then takes the lowest
free blade of the CMG on which the mask lies. Each of the two may fail for want
of memory, and a CMG may have no blade left; what was done until then stays. A
reset empties the lists and clears the bitmaps, whoever they belong to.
-/
import A64fxHwb.Release

set_option autoImplicit false

namespace A64fxHwb

open BitWord Relation Runs

variable {hw : Machine} {l : Load hw} {c : Call hw} {ok : Kind → Prop} {s s' : Kernel}

/-! ## The mask -/

/-- The copy of the mask is the mask. -/
theorem clean_cpumask_eq (mask : BitVec 64) : clean_cpumask mask = mask := by
  apply BitVec.eq_of_getLsbD_eq
  intro k _
  apply Bool.eq_iff_iff.mpr
  have hfold := getLsbD_foldl_setBit (fun k => k) (for_each_cpu mask) (0 : cpumask_t) k
  rw [clean_cpumask, hfold]
  simp only [BitVec.ofNat_eq_ofNat, BitVec.getLsbD_zero, Bool.false_eq_true, false_or, mem_bits]
  constructor
  · rintro ⟨k', hk', rfl, -⟩
    exact hk'
  · intro hk
    exact ⟨k, hk, rfl, BitVec.lt_of_getLsbD hk⟩

/-- A mask the check accepts is one a blade can be allocated with. -/
theorem accepted_of_check (ht : Table l s.dev) {mask : cpumask_t}
    (h : 0 ≤ check_cpumask c.online s.dev mask) :
    ∃ cmg : Fin MAX_NUM_CMG, check_cpumask c.online s.dev mask = cmg.val ∧
      Accepted l c.online cmg mask := by
  obtain ⟨cmg, heq, -, hon, hcmg, hknown⟩ := check_cpumask_sound ht h
  exact ⟨cmg, heq, hon, hcmg, hknown⟩

/-! ## BB_ALLOC -/

/-- The bound that `oss_a64fx_hwb_allocate` checks lets every CMG pass. -/
theorem cmg_in_range (cmg : Fin MAX_NUM_CMG) :
    ¬((cmg.val : ℤ) < 0 ∨ (cmg.val : ℤ) > MAX_NUM_CMG) := by
  have hlt : cmg.val < 4 := cmg.isLt
  show ¬((cmg.val : ℤ) < 0 ∨ (cmg.val : ℤ) > 4)
  omega

/-- The group's mapping is there, or it is created, or there is no memory for it. -/
theorem allocate_taskmap_cases (c : Call hw) (s : Kernel) :
    (∃ m, oss_a64fx_hwb_allocate_taskmap c s = (some m, s) ∧ m ∈ s.dev.task_list ∧
        m.group = c.task.tgid) ∨
      oss_a64fx_hwb_allocate_taskmap c s = (none, s) ∨
      (get_taskmap s.dev c.task = none ∧ c.kmalloc_taskmap = true ∧
        ∃ m, oss_a64fx_hwb_allocate_taskmap c s =
            (some m, { s with dev := s.dev.map_group c.task }) ∧
          m ∈ (s.dev.map_group c.task).task_list ∧ m.group = c.task.tgid) := by
  unfold oss_a64fx_hwb_allocate_taskmap
  cases hget : get_taskmap s.dev c.task with
  | some m =>
      obtain ⟨hm, hg⟩ := mem_of_get_taskmap hget
      exact Or.inl ⟨m, rfl, hm, hg⟩
  | none =>
      unfold new_taskmap
      simp only [hget]
      cases hmem : c.kmalloc_taskmap with
      | false => exact Or.inr (Or.inl rfl)
      | true => exact Or.inr (Or.inr ⟨trivial, rfl, _, rfl, List.mem_cons_self, rfl⟩)

/-- The state after blade `b` was taken for the mask. -/
def allocated (c : Call hw) (m : a64fx_task_mapping) (cmg : Fin MAX_NUM_CMG) (b : ℕ)
    (mask : cpumask_t) (s : Kernel) : Kernel :=
  { arm_blade c cmg b (cpumask_to_ppemask (s.dev.cmgs cmg) mask) s with
    dev := s.dev.hold_alloc m cmg (init_allocation (s.dev.cmgs cmg) m b mask) }

/-- Is the blade that is handed out also registered? There may be no memory for it, and
the group's list may have an entry for it already. -/
def is_registered (c : Call hw) (cmg : Fin MAX_NUM_CMG) (m : a64fx_task_mapping) (b : ℕ)
    (s : Kernel) : Bool :=
  (get_allocation (s.dev.cmgs cmg) m b).isNone && c.kmalloc_alloc

/-- `register_allocation`, for a blade number that `set_bit` takes. -/
theorem register_allocation_eq (c : Call hw) (cmg : Fin MAX_NUM_CMG) (m : a64fx_task_mapping)
    {b : ℕ} (hb : b < 64) (mask : cpumask_t) (s : Kernel) :
    ∃ r, register_allocation c cmg m b mask s =
      .ok (r, if is_registered c cmg m b s then allocated c m cmg b mask s else s) := by
  unfold register_allocation is_registered new_allocation
  cases halloc : get_allocation (s.dev.cmgs cmg) m b with
  | some a => exact ⟨some a, rfl⟩
  | none =>
      cases hmem : c.kmalloc_alloc with
      | false =>
          simp only [halloc]
          exact ⟨none, rfl⟩
      | true =>
          have hblade : (init_allocation (s.dev.cmgs cmg) m b mask).blade = b := by
            show u8 (b : ℤ) = b
            exact u8_natCast (by omega)
          simp only [halloc, Bool.not_true, Bool.false_eq_true, if_false, set_bit_ok hb,
            Loops.ok_bind, Option.isNone_none, Bool.and_self, if_true]
          unfold allocated a64fx_hwb_device.hold_alloc
          rw [hblade]
          exact ⟨none, rfl⟩

/-- What the search for a blade returns and leaves. -/
def blade_outcome (c : Call hw) (cmg : Fin MAX_NUM_CMG) (mask : cpumask_t)
    (m : a64fx_task_mapping) (s : Kernel) : (ℤ × Option ℕ) × Kernel :=
  let b := firstZero (s.dev.cmgs cmg).bb_active MAX_BB_PER_CMG
  if b < s.dev.num_bb_per_cmg then
    ((0, some b), if is_registered c cmg m b s then allocated c m cmg b mask s else s)
  else ((-ENODEV, none), s)

/-- **The search for a blade as an equation**, whatever the table and the lists hold. -/
theorem allocate_blade_run (hnum : s.dev.num_bb_per_cmg ≤ MAX_BB_PER_CMG)
    (m : a64fx_task_mapping) (cmg : Fin MAX_NUM_CMG) (mask : cpumask_t) :
    oss_a64fx_hwb_allocate_blade c cmg.val mask m s = .ok (blade_outcome c cmg mask m s) := by
  unfold oss_a64fx_hwb_allocate_blade blade_outcome
  simp only [cmgs_ptr_ok, Loops.ok_bind]
  generalize firstZero (s.dev.cmgs cmg).bb_active MAX_BB_PER_CMG = b
  by_cases hbit : b < s.dev.num_bb_per_cmg
  · have hb6 : b < 6 := lt_of_lt_of_le hbit hnum
    obtain ⟨r, hreg⟩ := register_allocation_eq c cmg m (show b < 64 by omega) mask s
    rw [if_pos hbit, if_pos hbit, hreg]
    rfl
  · rw [if_neg hbit, if_neg hbit]
    rfl

/-- **Taking a blade.** It is one that was free, or nothing changes. -/
theorem allocate_blade_cases (hi : Inv l s.dev) (m : a64fx_task_mapping) (cmg : Fin MAX_NUM_CMG)
    (mask : cpumask_t) :
    ∃ ret s', oss_a64fx_hwb_allocate_blade c cmg.val mask m s = .ok (ret, s') ∧
      (s' = s ∨
        ∃ b < MAX_BB_PER_CMG, s.dev.bb cmg b = false ∧ s' = allocated c m cmg b mask s) := by
  refine ⟨(blade_outcome c cmg mask m s).1, (blade_outcome c cmg mask m s).2,
    allocate_blade_run hi.table.num_bb.le m cmg mask, ?_⟩
  unfold blade_outcome
  rw [hi.table.num_bb]
  by_cases hbit : firstZero (s.dev.cmgs cmg).bb_active MAX_BB_PER_CMG < MAX_BB_PER_CMG
  · simp only [if_pos hbit]
    -- the blade is reported in both cases, but without memory it is not taken
    by_cases hreg : is_registered c cmg m (firstZero (s.dev.cmgs cmg).bb_active MAX_BB_PER_CMG) s
    · rw [if_pos hreg]
      exact Or.inr ⟨_, hbit, (firstZero_spec hbit).1, rfl⟩
    · rw [if_neg hreg]
      exact Or.inl rfl
  · simp only [if_neg hbit, true_or]

/-- **BB_ALLOC is a sequence of small steps.** -/
theorem allocate_path (ok : Kind → Prop) (hi : Inv l s.dev) (hlock : s.locks = Locks.free)
    (hok : ok .take) (hmap : get_taskmap s.dev c.task = none → c.kmalloc_taskmap = true → ok .map)
    (cmg : Fin MAX_NUM_CMG) {mask : cpumask_t} (hmask : Accepted l c.online cmg mask) :
    ∃ ret s', oss_a64fx_hwb_allocate c cmg.val mask s = .ok (ret, s') ∧
      ReflTransGen (Micro l c ok) s s' ∧ s'.locks = Locks.free := by
  have hback : ({ s with locks := Locks.free } : Kernel) = s := by rw [← hlock]
  unfold oss_a64fx_hwb_allocate
  rw [if_neg (cmg_in_range cmg), spin_lock_dev_free hlock, Loops.ok_bind]
  -- once the mapping is there, the blade
  have hblade : ∀ (t : Kernel) (m : a64fx_task_mapping), Inv l t.dev → t.locks = Locks.dev_held →
      m ∈ t.dev.task_list → m.group = c.task.tgid →
      ∃ ret t', oss_a64fx_hwb_allocate_blade c cmg.val mask m t = .ok (ret, t') ∧
        ReflTransGen (Micro l c ok) t t' ∧ t'.locks = Locks.dev_held := by
    intro t m hit htl hm hg
    obtain ⟨ret, t', heq, rfl | ⟨b, hb, hfree, rfl⟩⟩ := allocate_blade_cases (c := c) hit m cmg mask
    · exact ⟨ret, _, heq, .refl, htl⟩
    · exact ⟨ret, _, heq, .single (.take_blade m cmg b mask hm hg hb hfree hmask hok), htl⟩
  rcases allocate_taskmap_cases c { s with locks := Locks.dev_held } with
    ⟨m, heq, hm, hg⟩ | heq | ⟨hget, hmem, m, heq, hm, hg⟩
  · obtain ⟨ret, t, hal, hpath, htl⟩ := hblade { s with locks := Locks.dev_held } m hi rfl hm hg
    refine ⟨ret, { t with locks := Locks.free }, ?_, path_locked hpath, rfl⟩
    simp only [heq, hal, Loops.ok_bind, spin_unlock_dev_held htl]
    rfl
  · -- no memory for a mapping
    refine ⟨(-1, none), s, ?_, .refl, hlock⟩
    simp only [heq, pure_bind, spin_unlock_dev_held, Loops.ok_bind, hback]
    rfl
  · have hnew : Micro l c ok { s with locks := Locks.dev_held }
        { s with locks := Locks.dev_held, dev := s.dev.map_group c.task } :=
      .map_group (get_taskmap_eq_none.mp hget) (hmap hget hmem)
    have hi₁ := Micro.inv (s := { s with locks := Locks.dev_held }) hi hnew
    obtain ⟨ret, t, hal, hpath, htl⟩ :=
      hblade { s with locks := Locks.dev_held, dev := s.dev.map_group c.task } m hi₁ rfl hm hg
    refine ⟨ret, { t with locks := Locks.free }, ?_,
      path_locked ((ReflTransGen.single hnew).trans hpath), rfl⟩
    simp only [heq, hal, Loops.ok_bind, spin_unlock_dev_held htl]
    rfl

/-! ## RESET -/

/-- The walk of a mapping's allocations leaves its task. -/
theorem task_reset_allocs (m : a64fx_task_mapping) : (reset_allocs m).task = m.task := by
  have hwalk : ∀ (as : List a64fx_task_allocation) (m : a64fx_task_mapping),
      (as.foldl (fun m alloc => { m with
        allocs := Keyed.erase a64fx_task_allocation.place alloc.place m.allocs
        num_allocs := m.num_allocs - 1 }) m).task = m.task := by
    intro as
    induction as with
    | nil => intro m; rfl
    | cons a as ih => intro m; exact ih _
  exact hwalk m.allocs m

/-- The walk of the task list empties it and writes nothing else but the count. -/
theorem reset_task_list_eq (d : a64fx_hwb_device) :
    ∃ n, reset_task_list d = { d with task_list := [], num_tasks := n } := by
  have hwalk : ∀ (ts : List a64fx_task_mapping) (d : a64fx_hwb_device),
      ts.foldl (fun dev taskmap =>
        let dev := dev.with_taskmap taskmap reset_allocs
        { dev with
          task_list := Keyed.erase a64fx_task_mapping.group taskmap.group dev.task_list
          num_tasks := dev.num_tasks - 1 }) d =
        { d with
          task_list := ts.foldl (fun ms m => Keyed.erase a64fx_task_mapping.group m.group ms)
            d.task_list
          num_tasks := d.num_tasks - ts.length } := by
    intro ts
    induction ts with
    | nil => intro d; simp
    | cons m ts ih =>
        intro d
        -- what the inner walk leaves of the mapping is unlinked at once
        have hkeep : ∀ x : a64fx_task_mapping, (reset_allocs x).group = x.group := fun x =>
          congrArg task_struct.tgid (task_reset_allocs x)
        have herase : Keyed.erase a64fx_task_mapping.group m.group
            (Keyed.modify a64fx_task_mapping.group m.group reset_allocs d.task_list) =
            Keyed.erase a64fx_task_mapping.group m.group d.task_list :=
          Keyed.erase_modify (fun x hx => (hkeep x).trans hx) _
        rw [List.foldl_cons, ih]
        simp only [a64fx_hwb_device.with_taskmap, herase, List.foldl_cons, List.length_cons]
        congr 1
        push_cast
        omega
  refine ⟨d.num_tasks - d.task_list.length, ?_⟩
  unfold reset_task_list
  rw [hwalk, Keyed.foldl_erase_self]

/-- **RESET as one small step**, and what comes late of it. -/
theorem reset_eq (hlock : s.locks = Locks.free) (late : cpumask_t) :
    oss_a64fx_hwb_reset_ioctl c late s = .ok ({ err := 0 },
      { on_each_cpu c (asm_reset_func hw) late s with dev := s.dev.reset }) := by
  obtain ⟨n, hn⟩ := reset_task_list_eq s.dev
  unfold oss_a64fx_hwb_reset_ioctl
  rw [spin_lock_dev_free hlock, Loops.ok_bind]
  simp only [on_each_cpu, hn]
  rw [spin_unlock_dev_held rfl, ← hlock]
  rfl

end A64fxHwb
