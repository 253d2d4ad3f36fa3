/-
BW_ASSIGN and BW_UNASSIGN.

Both act on the caller's own PE, under `dev_lock` and the lock of the CMG. An
assign takes a window of the PE for the blade when it finds a free one: the one
that was asked for, or the first free one. Asked for a window while the blade
already has one there, it takes the new one over the old. An unassign gives the
recorded window back. Everything else leaves the state alone.
-/
import A64fxHwb.Release

set_option autoImplicit false

namespace A64fxHwb

open BitWord Runs

variable {hw : Machine} {l : Load hw} {c : Call hw} {ok : Kind → Prop} {s s' : Kernel}

/-! ## Choosing the window -/

/-- What `oss_a64fx_hwb_assign_window` chooses: an explicit window only when its
bit is clear, the recorded one when there is one, and otherwise the first whose
bit is clear. -/
theorem assign_window_cases {window recorded w : ℤ} {bw_map : BitVec 64}
    (h : oss_a64fx_hwb_assign_window c window recorded bw_map = .ok (some w)) :
    (window < 0 ∧ recorded = A64FX_HWB_UNASSIGNED_WIN) ∨
      (window < 0 ∧ test_bit c w bw_map = .ok true) ∨
      (0 ≤ window ∧ w = window) := by
  unfold oss_a64fx_hwb_assign_window at h
  by_cases hwin : window < 0
  · by_cases hrec : recorded = A64FX_HWB_UNASSIGNED_WIN
    · exact Or.inl ⟨hwin, hrec⟩
    · rw [if_pos hwin, if_neg hrec, Loops.bind_eq_ok] at h
      obtain ⟨used, hused, h⟩ := h
      cases used with
      | true =>
          cases h
          exact Or.inr (Or.inl ⟨hwin, hused⟩)
      | false => cases h
  · rw [if_neg hwin, Loops.bind_eq_ok] at h
    obtain ⟨used, -, h⟩ := h
    cases used with
    | true => cases h
    | false =>
        cases h
        exact Or.inr (Or.inr ⟨by omega, rfl⟩)

/-! ## BW_ASSIGN -/

/-- The state after CPU `k` has taken window `w` for the allocation `a`. -/
def taken (c : Call hw) (tm : a64fx_task_mapping) (k w : ℕ) (a : a64fx_task_allocation)
    (s : Kernel) : Kernel :=
  { set_wr c k w 1 a.blade s with
    dev := s.dev.take_window tm (hw.cmg k) (hw.slot k) w (a.take (hw.slot k) k w) }

/-- `put_cpu` and the release of `dev_lock` undo `get_cpu` and its acquisition. -/
theorem unlock_unchanged (hlock : s.locks = Locks.free) :
    spin_unlock_dev (put_cpu (get_cpu { s with locks := Locks.dev_held })) = .ok s := by
  simp only [put_cpu, get_cpu, add_sub_cancel_right, spin_unlock_dev_held]
  rw [← hlock]

/-- What an assign did in between stays, -/
theorem unlock_taken (hlock : s.locks = Locks.free) (tm : a64fx_task_mapping) (k w : ℕ)
    (a : a64fx_task_allocation) :
    spin_unlock_dev (put_cpu (taken c tm k w a (get_cpu { s with locks := Locks.dev_held }))) =
      .ok (taken c tm k w a s) := by
  simp only [put_cpu, taken, set_wr, smp_call_function_single, get_cpu, add_sub_cancel_right,
    spin_unlock_dev_held]
  rw [← hlock]

/-- and so does what an unassign did. -/
theorem unlock_given_back (hlock : s.locks = Locks.free) (tm : a64fx_task_mapping) (k w : ℕ)
    (a : a64fx_task_allocation) :
    spin_unlock_dev (put_cpu (give_back c tm k w a (get_cpu { s with locks := Locks.dev_held }))) =
      .ok (give_back c tm k w a s) := by
  simp only [put_cpu, give_back, set_wr, smp_call_function_single, get_cpu, add_sub_cancel_right,
    spin_unlock_dev_held]
  rw [← hlock]

/-- A CPU that is not one of the blade's is sent back before its PE is looked at. -/
theorem assign_locked_not_member (hlock : s.locks = Locks.dev_held) {a : a64fx_task_allocation}
    (hmem : a.cpumask.getLsbD c.cpu = false) (cmg : Fin MAX_NUM_CMG)
    (pe : Option (Fin MAX_PE_PER_CMG)) (blade window : ℤ) (tm : a64fx_task_mapping) :
    oss_a64fx_hwb_assign_locked c cmg pe blade window tm a s = .ok ((-ENODEV, none), s) := by
  have hback : ({ s with locks := Locks.dev_held } : Kernel) = s := by rw [← hlock]
  unfold oss_a64fx_hwb_assign_locked
  simp only [spin_lock_cmg_free _ hlock, Loops.ok_bind, cpumask_test_cpu, hmem, Bool.not_false,
    if_true, spin_unlock_cmg_held, hback]
  rfl

/-- For one of the blade's CPUs the PE is read, through a null pointer if it is not in
the table. -/
theorem assign_locked_no_entry (hlock : s.locks = Locks.dev_held) {a : a64fx_task_allocation}
    (hmem : a.cpumask.getLsbD c.cpu = true) (cmg : Fin MAX_NUM_CMG) (blade window : ℤ)
    (tm : a64fx_task_mapping) :
    oss_a64fx_hwb_assign_locked c cmg none blade window tm a s = .error .null_pemap := by
  unfold oss_a64fx_hwb_assign_locked
  simp only [spin_lock_cmg_free _ hlock, Loops.ok_bind, cpumask_test_cpu, hmem, Bool.not_true,
    Bool.false_eq_true, if_false, pemap_deref]
  rfl

/-- `oss_a64fx_hwb_assign_locked` on a PE of the table, step by step. -/
theorem assign_locked_eq (ht : Table l s.dev) (hlock : s.locks = Locks.dev_held)
    (hk : l.online.getLsbD c.cpu = true) (tm : a64fx_task_mapping) (a : a64fx_task_allocation)
    (window : ℤ) :
    oss_a64fx_hwb_assign_locked c (hw.cmg c.cpu) (some (hw.slot c.cpu)) a.blade window tm a s =
      if a.cpumask.getLsbD c.cpu = true then do
        let chosen ← oss_a64fx_hwb_assign_window c window (a.window (hw.slot c.cpu))
          ((s.dev.cmgs (hw.cmg c.cpu)).pe_map (hw.slot c.cpu)).bw_map
        match chosen with
        | none => return ((-EINVAL, none), s)
        | some w =>
          if 0 ≤ w ∧ w < MAX_BW_PER_CMG ∧ s.dev.bw (hw.cmg c.cpu) (hw.slot c.cpu) w.toNat = false
          then return ((0, some w), taken c tm c.cpu w.toNat a s)
          else return ((-ENODEV, none), s)
      else return ((-ENODEV, none), s) := by
  have hback : ({ s with locks := Locks.dev_held } : Kernel) = s := by rw [← hlock]
  obtain ⟨hcpu, -, hppe⟩ := ht.entry hk
  by_cases hmem : a.cpumask.getLsbD c.cpu = true
  · unfold oss_a64fx_hwb_assign_locked
    rw [spin_lock_cmg_free _ hlock, Loops.ok_bind]
    simp only [cpumask_test_cpu, hmem, Bool.not_true, Bool.false_eq_true, if_false, if_true,
      pemap_deref, Loops.ok_bind, hppe, window_ptr_ppe (l.online_present _ hk)]
    cases hch : oss_a64fx_hwb_assign_window c window (a.window (hw.slot c.cpu))
        ((s.dev.cmgs (hw.cmg c.cpu)).pe_map (hw.slot c.cpu)).bw_map with
    | error e => rfl
    | ok chosen =>
        cases chosen with
        | none =>
            simp only [Loops.ok_bind, spin_unlock_cmg_held, hback]
        | some w =>
            simp only [Loops.ok_bind]
            by_cases hrange : w ≥ 0 ∧ w < MAX_BW_PER_CMG
            · obtain ⟨n, rfl⟩ := Int.eq_ofNat_of_zero_le hrange.1
              have hn4 : n < 4 := by
                have h4 : (n : ℤ) < 4 := hrange.2
                omega
              have htest := test_bit_ok (c := c) (show n < 64 by omega)
                ((s.dev.cmgs (hw.cmg c.cpu)).pe_map (hw.slot c.cpu)).bw_map
              simp only [if_pos hrange, htest, Loops.ok_bind, pure_bind, smp_assign, hcpu,
                set_bit_ok (show n < 64 by omega), Int.toNat_natCast]
              by_cases hbit : s.dev.bw (hw.cmg c.cpu) (hw.slot c.cpu) n = true
              · -- in use: the exit with `-ENODEV`
                have hbit' : ((s.dev.cmgs (hw.cmg c.cpu)).pe_map (hw.slot c.cpu)).bw_map.getLsbD n =
                  true := hbit
                have hcond : ¬((0 : ℤ) ≤ n ∧ (n : ℤ) < MAX_BW_PER_CMG ∧
                    s.dev.bw (hw.cmg c.cpu) (hw.slot c.cpu) n = false) := by
                  rw [hbit]
                  exact fun h => Bool.noConfusion h.2.2
                simp only [hbit', Bool.not_true, Bool.false_eq_true, if_false, if_neg hcond,
                  spin_unlock_cmg_held, hback, Loops.ok_bind]
              · have hbit' : ((s.dev.cmgs (hw.cmg c.cpu)).pe_map (hw.slot c.cpu)).bw_map.getLsbD n =
                  false := Bool.eq_false_iff.mpr hbit
                have hcond : (0 : ℤ) ≤ n ∧ (n : ℤ) < MAX_BW_PER_CMG ∧
                    s.dev.bw (hw.cmg c.cpu) (hw.slot c.cpu) n = false :=
                  ⟨hrange.1, hrange.2, Bool.eq_false_iff.mpr hbit⟩
                simp only [hbit', Bool.not_false, if_true, if_pos hcond, spin_unlock_cmg_held,
                  set_wr, smp_call_function_single, Loops.ok_bind]
                rw [← hlock]
                rfl
            · -- the search found no clear bit
              have hcond : ¬(0 ≤ w ∧ w < MAX_BW_PER_CMG ∧
                  s.dev.bw (hw.cmg c.cpu) (hw.slot c.cpu) w.toNat = false) :=
                fun h => hrange ⟨h.1, h.2.1⟩
              simp only [if_neg hrange, if_neg hcond, pure_bind, Bool.false_eq_true, if_false,
                spin_unlock_cmg_held, hback, Loops.ok_bind]
  · rw [if_neg hmem, assign_locked_not_member hlock (Bool.eq_false_iff.mpr hmem)]
    rfl

/-- On a PE that is not in the table only the exit before the PE is looked at is left. -/
theorem assign_locked_offline (ht : Table l s.dev) (hlock : s.locks = Locks.dev_held)
    (hoff : l.online.getLsbD c.cpu = false) {blade window : ℤ} {tm : a64fx_task_mapping}
    {a : a64fx_task_allocation} {ret : ℤ × Option ℤ}
    (h : oss_a64fx_hwb_assign_locked c (hw.cmg c.cpu)
      (get_pemap s.dev (hw.cmg c.cpu) (hw.ppe c.cpu)) blade window tm a s = .ok (ret, s')) :
    s' = s := by
  rw [get_pemap_offline ht (c.online_present _ c.cpu_online) hoff] at h
  by_cases hmem : a.cpumask.getLsbD c.cpu = true
  · rw [assign_locked_no_entry hlock hmem] at h
    cases h
  · rw [assign_locked_not_member hlock (Bool.eq_false_iff.mpr hmem)] at h
    cases h
    rfl

/-- On a PE of the table the state stays, or a free window is taken: the explicit
one, or any if none is recorded. -/
theorem assign_locked_cases (ht : Table l s.dev) (hlock : s.locks = Locks.dev_held)
    (hon : l.online.getLsbD c.cpu = true) {window : ℤ} {tm : a64fx_task_mapping}
    {a : a64fx_task_allocation} {ret : ℤ × Option ℤ}
    (h : oss_a64fx_hwb_assign_locked c (hw.cmg c.cpu) (some (hw.slot c.cpu)) a.blade window tm a s
      = .ok (ret, s')) :
    s' = s ∨ ∃ w : ℕ, a.cpumask.getLsbD c.cpu = true ∧ w < MAX_BW_PER_CMG ∧
      s.dev.bw (hw.cmg c.cpu) (hw.slot c.cpu) w = false ∧
      (a.window (hw.slot c.cpu) = A64FX_HWB_UNASSIGNED_WIN ∨ (0 ≤ window ∧ window = w)) ∧
      s' = taken c tm c.cpu w a s := by
  rw [assign_locked_eq ht hlock hon] at h
  by_cases hmem : a.cpumask.getLsbD c.cpu = true
  swap
  · rw [if_neg hmem] at h
    cases h
    exact Or.inl rfl
  rw [if_pos hmem, Loops.bind_eq_ok] at h
  obtain ⟨chosen, hch, h⟩ := h
  cases chosen with
  | none =>
      cases h
      exact Or.inl rfl
  | some w =>
      by_cases hcond : 0 ≤ w ∧ w < MAX_BW_PER_CMG ∧
          s.dev.bw (hw.cmg c.cpu) (hw.slot c.cpu) w.toNat = false
      swap
      · simp only [if_neg hcond] at h
        cases h
        exact Or.inl rfl
      simp only [if_pos hcond] at h
      cases h
      obtain ⟨h0, h4, hbit⟩ := hcond
      obtain ⟨n, rfl⟩ := Int.eq_ofNat_of_zero_le h0
      have hn4 : n < 4 := by
        have h4' : (n : ℤ) < 4 := h4
        omega
      refine Or.inr ⟨n, hmem, hn4, hbit, ?_, rfl⟩
      rcases assign_window_cases hch with ⟨-, h⟩ | ⟨-, hused⟩ | ⟨hpos, heq⟩
      · exact Or.inl h
      · -- the recorded window is in use, so it is not a free one
        rw [test_bit_ok (show n < 64 by omega)] at hused
        have hset : s.dev.bw (hw.cmg c.cpu) (hw.slot c.cpu) n = true := by
          injection hused
        rw [Int.toNat_natCast, hset] at hbit
        exact Bool.noConfusion hbit
      · exact Or.inr ⟨hpos, heq.symm⟩

/-- The search in `oss_a64fx_hwb_assign_blade` for a blade that is there. -/
theorem assign_find_eq {blade : ℤ} (window : ℤ) {m : a64fx_task_mapping}
    {a : a64fx_task_allocation} (hget : get_taskmap s.dev c.task = some m)
    (halloc : get_allocation (s.dev.cmgs (hw.cmg c.cpu)) m blade = some a)
    {pe : Option (Fin MAX_PE_PER_CMG)} (hpe : get_pemap s.dev (hw.cmg c.cpu) (hw.ppe c.cpu) = pe) :
    oss_a64fx_hwb_assign_find c blade window s =
      oss_a64fx_hwb_assign_locked c (hw.cmg c.cpu) pe blade window m a s := by
  unfold oss_a64fx_hwb_assign_find
  simp only [hget, Machine.read_peinfo, halloc, hpe]

/-- The search in `oss_a64fx_hwb_assign_blade`, and what follows it: nothing
changes, or a free window of the caller's PE is taken, over the recorded one only
if it was asked for by number. -/
theorem assign_find_cases (hi : Inv l s.dev) (hlock : s.locks = Locks.dev_held) {blade window : ℤ}
    {ret : ℤ × Option ℤ} (h : oss_a64fx_hwb_assign_find c blade window s = .ok (ret, s')) :
    s' = s ∨ ∃ m ∈ s.dev.task_list, ∃ a ∈ m.allocs, ∃ w : ℕ, m.group = c.task.tgid ∧
      a.cmg = (hw.cmg c.cpu).val ∧ (a.blade : ℤ) = blade ∧ l.online.getLsbD c.cpu = true ∧
      a.cpumask.getLsbD c.cpu = true ∧ w < MAX_BW_PER_CMG ∧
      s.dev.bw (hw.cmg c.cpu) (hw.slot c.cpu) w = false ∧
      (a.window (hw.slot c.cpu) = A64FX_HWB_UNASSIGNED_WIN ∨ (0 ≤ window ∧ window = w)) ∧
      s' = taken c m c.cpu w a s := by
  cases hget : get_taskmap s.dev c.task with
  | none =>
      unfold oss_a64fx_hwb_assign_find at h
      rw [hget] at h
      cases h
      exact Or.inl rfl
  | some m =>
      obtain ⟨hm, hg⟩ := mem_of_get_taskmap hget
      cases halloc : get_allocation (s.dev.cmgs (hw.cmg c.cpu)) m blade with
      | none =>
          unfold oss_a64fx_hwb_assign_find at h
          simp only [hget, Machine.read_peinfo, halloc] at h
          cases h
          exact Or.inl rfl
      | some a =>
          obtain ⟨ha, hc, rfl⟩ := get_allocation_eq_some hi.table halloc
          rw [assign_find_eq window hget halloc rfl] at h
          cases hon : l.online.getLsbD c.cpu with
          | false => exact Or.inl (assign_locked_offline hi.table hlock hon h)
          | true =>
              rw [get_pemap_online hi.table hon] at h
              rcases assign_locked_cases hi.table hlock hon h with
                heq | ⟨w, hmem, hw4, hbit, hrec, heq⟩
              · exact Or.inl heq
              · exact Or.inr ⟨m, hm, a, ha, w, hg, hc, rfl, rfl, hmem, hw4, hbit, hrec, heq⟩

/-- An explicit window that is free is taken. -/
theorem assign_find_explicit (hi : Inv l s.dev) (hlock : s.locks = Locks.dev_held)
    {m : a64fx_task_mapping} (hm : m ∈ s.dev.task_list) (hg : m.group = c.task.tgid)
    {a : a64fx_task_allocation} (ha : a ∈ m.allocs) (hc : a.cmg = (hw.cmg c.cpu).val)
    (hon : l.online.getLsbD c.cpu = true) (hmem : a.cpumask.getLsbD c.cpu = true) {w : ℕ}
    (hw4 : w < MAX_BW_PER_CMG) (hbit : s.dev.bw (hw.cmg c.cpu) (hw.slot c.cpu) w = false) :
    oss_a64fx_hwb_assign_find c a.blade w s = .ok ((0, some ↑w), taken c m c.cpu w a s) := by
  have hw64 : w < 4 := hw4
  have hchosen : oss_a64fx_hwb_assign_window c w (a.window (hw.slot c.cpu))
      ((s.dev.cmgs (hw.cmg c.cpu)).pe_map (hw.slot c.cpu)).bw_map = .ok (some (w : ℤ)) := by
    have hbit' : ((s.dev.cmgs (hw.cmg c.cpu)).pe_map (hw.slot c.cpu)).bw_map.getLsbD w =
      false := hbit
    unfold oss_a64fx_hwb_assign_window
    rw [if_neg (by omega), test_bit_ok (show w < 64 by omega), Loops.ok_bind, hbit']
    rfl
  have hcond : (0 : ℤ) ≤ w ∧ (w : ℤ) < MAX_BW_PER_CMG ∧
      s.dev.bw (hw.cmg c.cpu) (hw.slot c.cpu) (w : ℤ).toNat = false :=
    ⟨by omega, by exact_mod_cast hw64, by rw [Int.toNat_natCast]; exact hbit⟩
  rw [assign_find_eq _ (hi.lists.get_taskmap hm hg)
    (get_allocation_of_mem hi.table hi.lists hm ha hc) (get_pemap_online hi.table hon),
    assign_locked_eq hi.table hlock hon, if_pos hmem, hchosen, Loops.ok_bind]
  simp only [if_pos hcond]
  rfl

/-! ## BW_UNASSIGN -/

/-- A window register read by a number that is in range. -/
theorem read_assign_sync_wr_ok {w : ℕ} (hw4 : w < MAX_BW_PER_CMG) (cpu : ℕ) (regs : hwb_regs) :
    ∃ valid, read_assign_sync_wr cpu w regs = .ok (valid, (wr_blade regs cpu w : ℤ)) := by
  have hw64 : w < 4 := hw4
  have hrange : ¬((w : ℤ) < 0 ∨ (w : ℤ) ≥ MAX_BW_PER_CMG) := by
    show ¬((w : ℤ) < 0 ∨ (w : ℤ) ≥ 4)
    omega
  unfold read_assign_sync_wr
  rw [if_neg hrange]
  exact ⟨_, rfl⟩

/-- `oss_a64fx_hwb_unassign_locked` for the recorded window of a PE of the table. -/
theorem unassign_locked_eq (hi : Inv l s.dev) (hlock : s.locks = Locks.dev_held)
    {a : a64fx_task_allocation} (ha : Held s.dev c.task.tgid a) {w : ℕ} (hr : Records l a c.cpu w)
    (m : a64fx_task_mapping) :
    oss_a64fx_hwb_unassign_locked c (hw.cmg c.cpu) (hw.slot c.cpu) (hw.slot c.cpu) a.blade w m a s =
      if wr_blade s.regs c.cpu w = a.blade then .ok (0, give_back c m c.cpu w a s)
      else .ok (-EINVAL, s) := by
  have hw4 := (hi.sane _ a ha).window_lt hr
  have hw64 : w < 4 := hw4
  have hback : ({ s with locks := Locks.dev_held } : Kernel) = s := by rw [← hlock]
  obtain ⟨hcpu, -, -⟩ := hi.table.entry hr.1
  obtain ⟨valid, hread⟩ := read_assign_sync_wr_ok hw4 c.cpu s.regs
  have hbit : ((s.dev.cmgs (hw.cmg c.cpu)).pe_map (hw.slot c.cpu)).bw_map.getLsbD w = true :=
    hi.bw_of_records ha hr
  unfold oss_a64fx_hwb_unassign_locked
  simp only [spin_lock_cmg_free _ hlock, Loops.ok_bind, test_bit_ok (show w < 64 by omega),
    clear_bit_ok (show w < 64 by omega), clearBit_clearBit, smp_assign, hcpu, hbit, hread,
    Int.natCast_inj, true_and]
  by_cases hname : wr_blade s.regs c.cpu w = a.blade
  · rw [if_pos hname, if_pos hname]
    simp only [spin_unlock_cmg_held, set_wr, smp_call_function_single, Loops.ok_bind]
    rw [← hlock]
    rfl
  · rw [if_neg hname, if_neg hname, spin_unlock_cmg_held _ rfl, Loops.ok_bind, hback]
    rfl

/-- The search in `oss_a64fx_hwb_unassign_blade` for a blade that is there, on a PE
of the table: the window that is recorded goes back when its register names the
blade. -/
theorem unassign_find_eq (hi : Inv l s.dev) (hlock : s.locks = Locks.dev_held) {blade : ℤ}
    {m : a64fx_task_mapping} {a : a64fx_task_allocation} (hget : get_taskmap s.dev c.task = some m)
    (halloc : get_allocation (s.dev.cmgs (hw.cmg c.cpu)) m blade = some a)
    (hon : l.online.getLsbD c.cpu = true) :
    oss_a64fx_hwb_unassign_find c blade s =
      if 0 ≤ a.window (hw.slot c.cpu) ∧
          wr_blade s.regs c.cpu (a.window (hw.slot c.cpu)).toNat = a.blade then
        .ok (0, give_back c m c.cpu (a.window (hw.slot c.cpu)).toNat a s)
      else .ok (-EINVAL, s) := by
  obtain ⟨hm, hg⟩ := mem_of_get_taskmap hget
  obtain ⟨ha, hc, hb⟩ := get_allocation_eq_some hi.table halloc
  have hheld : Held s.dev c.task.tgid a := ⟨m, hm, hg, ha⟩
  obtain ⟨-, -, hppe⟩ := hi.table.entry hon
  unfold oss_a64fx_hwb_unassign_find
  simp only [hget, Machine.read_peinfo, halloc, get_pemap_online hi.table hon, pemap_deref, hppe,
    window_ptr_ppe (l.online_present _ hon), Loops.ok_bind]
  rcases (hi.sane _ a hheld).records_or_none hon hc.symm with ⟨w, hw4, hr⟩ | hnone
  · have hw64 : w < 4 := hw4
    have hrange : a.window (hw.slot c.cpu) ≥ 0 ∧ a.window (hw.slot c.cpu) < MAX_BW_PER_CMG := by
      rw [hr.2.2]
      exact ⟨by omega, by exact_mod_cast hw64⟩
    rw [if_pos hrange, hr.2.2, ← hb, unassign_locked_eq hi hlock hheld hr m, Int.toNat_natCast]
    by_cases hname : wr_blade s.regs c.cpu w = a.blade
    · rw [if_pos hname, if_pos ⟨by omega, hname⟩]
    · rw [if_neg hname, if_neg fun h => hname h.2]
  · have hneg : ¬0 ≤ a.window (hw.slot c.cpu) := by
      rw [hnone]
      decide
    rw [if_neg fun h => hneg h.1, if_neg fun h => hneg h.1]
    rfl

/-- The search in `oss_a64fx_hwb_unassign_blade`, and what follows it: nothing
changes, or the recorded window of the caller's PE is given back. -/
theorem unassign_find_cases (hi : Inv l s.dev) (hlock : s.locks = Locks.dev_held) {blade : ℤ}
    {err : ℤ} (h : oss_a64fx_hwb_unassign_find c blade s = .ok (err, s')) :
    s' = s ∨ ∃ m ∈ s.dev.task_list, ∃ a ∈ m.allocs, ∃ w : ℕ, m.group = c.task.tgid ∧
      w < MAX_BW_PER_CMG ∧ Records l a c.cpu w ∧ s' = give_back c m c.cpu w a s := by
  cases hget : get_taskmap s.dev c.task with
  | none =>
      unfold oss_a64fx_hwb_unassign_find at h
      rw [hget] at h
      cases h
      exact Or.inl rfl
  | some m =>
      obtain ⟨hm, hg⟩ := mem_of_get_taskmap hget
      cases halloc : get_allocation (s.dev.cmgs (hw.cmg c.cpu)) m blade with
      | none =>
          unfold oss_a64fx_hwb_unassign_find at h
          simp only [hget, Machine.read_peinfo, halloc] at h
          cases h
          exact Or.inl rfl
      | some a =>
          obtain ⟨ha, hc, -⟩ := get_allocation_eq_some hi.table halloc
          cases hon : l.online.getLsbD c.cpu with
          | false =>
              -- the mapping is read through a null pointer
              unfold oss_a64fx_hwb_unassign_find at h
              simp only [hget, Machine.read_peinfo, halloc,
                get_pemap_offline hi.table (c.online_present _ c.cpu_online) hon] at h
              cases h
          | true =>
              rw [unassign_find_eq hi hlock hget halloc hon] at h
              split_ifs at h with hcond
              · cases h
                rcases (hi.sane _ a ⟨m, hm, hg, ha⟩).records_or_none hon hc.symm with
                  ⟨w, hw4, hr⟩ | hnone
                · refine Or.inr ⟨m, hm, a, ha, w, hg, hw4, hr, ?_⟩
                  rw [hr.2.2, Int.toNat_natCast]
                · rw [hnone] at hcond
                  exact absurd hcond.1 (by decide)
              · cases h
                exact Or.inl rfl

end A64fxHwb
