/-
Every event is a path of small steps.

`Makes e s` says, from the event and the state before it, which kinds of small step
the event makes. `handle_path` turns a step of the driver into a path of
small steps that are of no other kind, so that an invariant of the small steps is
one of the driver: of every run for the base invariant (`reachable_inv`), and of
the runs that avoid a kind for the others (`run_invariant`).
-/
import A64fxHwb.Alloc
import A64fxHwb.Free
import A64fxHwb.Window

set_option autoImplicit false

namespace A64fxHwb

open BitWord Relation Runs

variable {hw : Machine} {l : Load hw} {e : Event hw} {s s' : Kernel}

/-! ## The kinds of an event -/

/-- The event is a BW_ASSIGN with an explicit window that is free, for a blade
that already has a window on the caller's PE. -/
def Reassigns (e : Event hw) (s : Kernel) : Prop :=
  ∃ arg ioc m a, e.request = .ioctl (.BW_ASSIGN arg) ∧ arg.read = some ioc ∧
    cpumask_weight e.call.cpus_mask ≤ 1 ∧ get_taskmap s.dev e.call.task = some m ∧
    get_allocation (s.dev.cmgs (hw.cmg e.call.cpu)) m ioc.bb.toNat = some a ∧
    get_pemap s.dev (hw.cmg e.call.cpu) (hw.ppe e.call.cpu) ≠ none ∧
    a.cpumask.getLsbD e.call.cpu = true ∧
    a.window (hw.slot e.call.cpu) ≠ A64FX_HWB_UNASSIGNED_WIN ∧
    ∃ w < MAX_BW_PER_CMG, ioc.window.toInt = (w : ℤ) ∧
      s.dev.bw (hw.cmg e.call.cpu) (hw.slot e.call.cpu) w = false

/-- The event is a BB_ALLOC that makes a mapping: its mask is good for a CMG, and the
caller's group has no mapping, and gets the memory for one. -/
def Maps (e : Event hw) (s : Kernel) : Prop :=
  ∃ arg ioc mask, e.request = .ioctl (.BB_ALLOC arg) ∧ arg.read = some ioc ∧
    arg.pemask = some mask ∧ 0 ≤ check_cpumask e.call.online s.dev mask ∧
    get_taskmap s.dev e.call.task = none ∧ e.call.kmalloc_taskmap = true

/-- The event is a BB_FREE of the blade of the allocation `a` in the mapping `m`
of the caller's group. -/
def FreesBlade (e : Event hw) (s : Kernel) (m : a64fx_task_mapping) (cmg : Fin MAX_NUM_CMG)
    (a : a64fx_task_allocation) : Prop :=
  ∃ arg ioc, e.request = .ioctl (.BB_FREE arg) ∧ arg.read = some ioc ∧
    ioc.cmg.toNat = cmg.val ∧ get_taskmap s.dev e.call.task = some m ∧
    get_allocation (s.dev.cmgs cmg) m ioc.bb.toNat = some a

/-- The event is a BB_FREE by a thread other than the one in the mapping, from a
CPU that has a window other than 0 for the blade. -/
def Misdirects (e : Event hw) (s : Kernel) : Prop :=
  ∃ m cmg a, FreesBlade e s m cmg a ∧ e.call.task.pid ≠ m.task.pid ∧
    a.assign_mask.getLsbD e.call.cpu = true ∧ a.window (hw.slot e.call.cpu) ≠ 0

/-- The event gives a blade back: a BB_FREE by the thread in the mapping, one
from the blade's last CPU, a close by the thread in a mapping that is not empty,
or a reset while somebody holds a blade. -/
def Releases (e : Event hw) (s : Kernel) : Prop :=
  (∃ m cmg a, FreesBlade e s m cmg a ∧ (e.call.task.pid = m.task.pid ∨
      (a.cpumask.getLsbD e.call.cpu = true ∧ cpumask_clear_cpu e.call.cpu a.cpumask = 0))) ∨
    (e.request = .close ∧ s.dev.active_count > 0 ∧ ∃ m,
      get_taskmap s.dev e.call.task = some m ∧ e.call.task.pid = m.task.pid ∧ m.allocs ≠ []) ∨
    (e.request = .ioctl .RESET ∧ ∃ g a, Held s.dev g a)

/-- The kinds of small step an event makes, of those that are singled out. -/
def Makes (e : Event hw) (s : Kernel) : Kind → Prop
  | .reassign => Reassigns e s
  | .misdirected => Misdirects e s
  | .map => Maps e s
  | .take => ∃ arg, e.request = .ioctl (.BB_ALLOC arg)
  | .release => Releases e s
  | .count => e.request = .open ∨ e.request = .close
  | .reset => e.request = .ioctl .RESET

/-! ## Each request -/

/-- BW_ASSIGN with its locks. -/
theorem assign_blade_cases (hi : Inv l s.dev) (hlock : s.locks = Locks.free) {c : Call hw}
    {blade window : ℤ} {ret : ℤ × Option ℤ}
    (h : oss_a64fx_hwb_assign_blade c blade window s = .ok (ret, s')) :
    s' = s ∨ ∃ m ∈ s.dev.task_list, ∃ a ∈ m.allocs, ∃ w : ℕ, m.group = c.task.tgid ∧
      a.cmg = (hw.cmg c.cpu).val ∧ (a.blade : ℤ) = blade ∧ l.online.getLsbD c.cpu = true ∧
      a.cpumask.getLsbD c.cpu = true ∧ w < MAX_BW_PER_CMG ∧
      s.dev.bw (hw.cmg c.cpu) (hw.slot c.cpu) w = false ∧
      (a.window (hw.slot c.cpu) = A64FX_HWB_UNASSIGNED_WIN ∨ (0 ≤ window ∧ window = w)) ∧
      weight c.cpus_mask ≤ 1 ∧ s' = taken c m c.cpu w a s := by
  unfold oss_a64fx_hwb_assign_blade at h
  by_cases hweight : cpumask_weight c.cpus_mask > 1
  · rw [if_pos hweight] at h
    cases h
    exact Or.inl rfl
  · rw [if_neg hweight, spin_lock_dev_free hlock, Loops.ok_bind, Loops.bind_eq_ok] at h
    obtain ⟨⟨ret', t⟩, hfind, h⟩ := h
    rcases assign_find_cases (s := get_cpu { s with locks := Locks.dev_held }) hi rfl hfind with
      rfl | ⟨m, hm, a, ha, w, hg, hc, hb, hon, hmem, hw4, hbit, hrec, rfl⟩
    · -- `get_cpu` and `put_cpu` cancel, and so do the locks
      simp only [unlock_unchanged hlock, Loops.ok_bind] at h
      cases h
      exact Or.inl rfl
    · refine Or.inr ⟨m, hm, a, ha, w, hg, hc, hb, hon, hmem, hw4, hbit, hrec, not_lt.mp hweight, ?_⟩
      simp only [unlock_taken hlock, Loops.ok_bind] at h
      cases h
      rfl

/-- BW_UNASSIGN with its locks. -/
theorem unassign_blade_cases (hi : Inv l s.dev) (hlock : s.locks = Locks.free) {c : Call hw}
    {blade err : ℤ} (h : oss_a64fx_hwb_unassign_blade c blade s = .ok (err, s')) :
    s' = s ∨ ∃ m ∈ s.dev.task_list, ∃ a ∈ m.allocs, ∃ w : ℕ, m.group = c.task.tgid ∧
      w < MAX_BW_PER_CMG ∧ Records l a c.cpu w ∧ s' = give_back c m c.cpu w a s := by
  unfold oss_a64fx_hwb_unassign_blade at h
  by_cases hweight : cpumask_weight c.cpus_mask > 1
  · rw [if_pos hweight] at h
    cases h
    exact Or.inl rfl
  · rw [if_neg hweight, spin_lock_dev_free hlock, Loops.ok_bind, Loops.bind_eq_ok] at h
    obtain ⟨⟨err', t⟩, hfind, h⟩ := h
    rcases unassign_find_cases (s := get_cpu { s with locks := Locks.dev_held }) hi rfl hfind with
      rfl | ⟨m, hm, a, ha, w, hg, hw4, hr, rfl⟩
    · simp only [unlock_unchanged hlock, Loops.ok_bind] at h
      cases h
      exact Or.inl rfl
    · refine Or.inr ⟨m, hm, a, ha, w, hg, hw4, hr, ?_⟩
      simp only [unlock_given_back hlock, Loops.ok_bind] at h
      cases h
      rfl

/-- An explicit window that is free is taken, whatever the blade has already. -/
theorem assign_blade_explicit (hi : Inv l s.dev) (hlock : s.locks = Locks.free) {c : Call hw}
    {m : a64fx_task_mapping} (hm : m ∈ s.dev.task_list) (hg : m.group = c.task.tgid)
    {a : a64fx_task_allocation} (ha : a ∈ m.allocs) (hc : a.cmg = (hw.cmg c.cpu).val)
    (hon : l.online.getLsbD c.cpu = true) (hmem : a.cpumask.getLsbD c.cpu = true) {w : ℕ}
    (hw4 : w < MAX_BW_PER_CMG) (hbit : s.dev.bw (hw.cmg c.cpu) (hw.slot c.cpu) w = false)
    (hweight : cpumask_weight c.cpus_mask ≤ 1) :
    oss_a64fx_hwb_assign_blade c a.blade w s = .ok ((0, some ↑w), taken c m c.cpu w a s) := by
  have hfind := assign_find_explicit (s := get_cpu { s with locks := Locks.dev_held }) hi rfl hm hg
    ha hc hon hmem hw4 hbit
  unfold oss_a64fx_hwb_assign_blade
  rw [if_neg (not_lt.mpr hweight), spin_lock_dev_free hlock, Loops.ok_bind, hfind, Loops.ok_bind]
  simp only [unlock_taken hlock, Loops.ok_bind]
  rfl

/-! ## The entry points

Copying the argument in and out changes nothing in the kernel. -/

theorem free_ioctl_state {c : Call hw} {arg : UserArg fujitsu_hwb_ioc_bb_ctl} {reply : Reply}
    (h : oss_a64fx_hwb_free_ioctl c arg s = .ok (reply, s')) :
    s' = s ∨ ∃ ioc err, arg.read = some ioc ∧
      oss_a64fx_hwb_free c ioc.cmg.toNat ioc.bb.toNat s = .ok (err, s') := by
  unfold oss_a64fx_hwb_free_ioctl at h
  cases hread : arg.read with
  | none =>
      rw [hread] at h
      cases h
      exact Or.inl rfl
  | some ioc =>
      simp only [hread, Loops.bind_eq_ok] at h
      obtain ⟨⟨err, t⟩, hfree, h⟩ := h
      refine Or.inr ⟨ioc, err, rfl, ?_⟩
      rw [hfree]
      split_ifs at h
      all_goals cases h; rfl

theorem assign_ioctl_state {c : Call hw} {arg : UserArg fujitsu_hwb_ioc_bw_ctl} {reply : Reply}
    (h : oss_a64fx_hwb_assign_blade_ioctl c arg s = .ok (reply, s')) :
    s' = s ∨ ∃ ioc ret, arg.read = some ioc ∧
      oss_a64fx_hwb_assign_blade c ioc.bb.toNat ioc.window.toInt s = .ok (ret, s') := by
  unfold oss_a64fx_hwb_assign_blade_ioctl at h
  cases hread : arg.read with
  | none =>
      rw [hread] at h
      cases h
      exact Or.inl rfl
  | some ioc =>
      simp only [hread, Loops.bind_eq_ok] at h
      obtain ⟨⟨ret, t⟩, hassign, h⟩ := h
      refine Or.inr ⟨ioc, ret, rfl, ?_⟩
      rw [hassign]
      split_ifs at h
      all_goals cases h; rfl

theorem unassign_ioctl_state {c : Call hw} {arg : UserArg fujitsu_hwb_ioc_bw_ctl} {reply : Reply}
    (h : oss_a64fx_hwb_unassign_blade_ioctl c arg s = .ok (reply, s')) :
    s' = s ∨ ∃ ioc err, arg.read = some ioc ∧
      oss_a64fx_hwb_unassign_blade c ioc.bb.toNat s = .ok (err, s') := by
  unfold oss_a64fx_hwb_unassign_blade_ioctl at h
  cases hread : arg.read with
  | none =>
      rw [hread] at h
      cases h
      exact Or.inl rfl
  | some ioc =>
      simp only [hread, Loops.bind_eq_ok] at h
      obtain ⟨⟨err, t⟩, hun, h⟩ := h
      refine Or.inr ⟨ioc, err, rfl, ?_⟩
      rw [hun]
      split_ifs at h
      all_goals cases h; rfl

theorem allocate_ioctl_state {c : Call hw} {arg : AllocArg} {reply : Reply}
    (h : oss_a64fx_hwb_allocate_ioctl c arg s = .ok (reply, s')) :
    s' = s ∨ ∃ ioc mask ret, arg.read = some ioc ∧ arg.pemask = some mask ∧
      0 ≤ check_cpumask c.online s.dev mask ∧
      oss_a64fx_hwb_allocate c (check_cpumask c.online s.dev mask) mask s = .ok (ret, s') := by
  unfold oss_a64fx_hwb_allocate_ioctl at h
  cases hread : arg.read with
  | none =>
      rw [hread] at h
      cases h
      exact Or.inl rfl
  | some ioc =>
      cases hmask : arg.pemask with
      | none =>
          rw [hread, hmask] at h
          cases h
          exact Or.inl rfl
      | some mask =>
          simp only [hread, hmask, clean_cpumask_eq] at h
          by_cases hneg : check_cpumask c.online s.dev mask < 0
          · rw [if_pos hneg] at h
            cases h
            exact Or.inl rfl
          · rw [if_neg hneg, Loops.bind_eq_ok] at h
            obtain ⟨⟨⟨err, blade⟩, t⟩, hal, h⟩ := h
            refine Or.inr ⟨ioc, mask, (err, blade), rfl, rfl, not_lt.mp hneg, ?_⟩
            rw [hal]
            cases blade with
            | none => cases h; rfl
            | some b =>
                simp only at h
                split_ifs at h
                all_goals cases h; rfl

/-! ## One event -/

theorem freesBlade_mem (hi : Inv l s.dev) {m : a64fx_task_mapping} {cmg : Fin MAX_NUM_CMG}
    {a : a64fx_task_allocation} (h : FreesBlade e s m cmg a) :
    m ∈ s.dev.task_list ∧ m.group = e.call.task.tgid ∧ a ∈ m.allocs ∧ a.cmg = cmg.val := by
  obtain ⟨arg, ioc, -, -, -, hget, halloc⟩ := h
  obtain ⟨hm, hg⟩ := mem_of_get_taskmap hget
  obtain ⟨ha, hc, -⟩ := get_allocation_eq_some hi.table halloc
  exact ⟨hm, hg, ha, hc⟩

/-- The reply of a BB_FREE whose argument was read. -/
def free_reply (arg : UserArg fujitsu_hwb_ioc_bb_ctl) (ioc : fujitsu_hwb_ioc_bb_ctl) (err : ℤ) :
    Reply :=
  if err ≠ 0 then { err := err }
  else if arg.writable then { err := 0, bb_ctl := some ioc }
  else { err := -1 }

theorem free_event_eq {arg : UserArg fujitsu_hwb_ioc_bb_ctl} {ioc : fujitsu_hwb_ioc_bb_ctl}
    (he : e.request = .ioctl (.BB_FREE arg)) (hread : arg.read = some ioc) {err : ℤ}
    (h : oss_a64fx_hwb_free e.call ioc.cmg.toNat ioc.bb.toNat s = .ok (err, s')) :
    handle e s = .ok (free_reply arg ioc err, s') := by
  unfold handle oss_a64fx_hwb_ioctl oss_a64fx_hwb_free_ioctl free_reply
  simp only [he, hread, h, Loops.ok_bind]
  split_ifs
  all_goals rfl

/-- A BB_FREE by the thread in the mapping drops the place. -/
theorem freesBlade_owner (hi : Inv l s.dev) (hlock : s.locks = Locks.free)
    {m : a64fx_task_mapping} {cmg : Fin MAX_NUM_CMG} {a : a64fx_task_allocation}
    (hf : FreesBlade e s m cmg a) (hpid : e.call.task.pid = m.task.pid) {reply : Reply}
    (h : handle e s = .ok (reply, s')) : Dropped a s s' := by
  obtain ⟨arg, ioc, he, hread, hcmg, hget, halloc⟩ := hf
  obtain ⟨hm, hg⟩ := mem_of_get_taskmap hget
  obtain ⟨ha, hc, hb⟩ := get_allocation_eq_some hi.table halloc
  obtain ⟨t, hfree, -, -, hdrop⟩ :=
    free_by_owner (fun _ => True) hi hlock hm hg ha hc hpid trivial
  rw [hb, ← hcmg] at hfree
  rw [free_event_eq he hread hfree] at h
  cases h
  exact hdrop

/-- A BB_FREE by another thread of the group withdraws the caller's CPU. -/
theorem freesBlade_other (hi : Inv l s.dev) (hlock : s.locks = Locks.free)
    {m : a64fx_task_mapping} {cmg : Fin MAX_NUM_CMG} {a : a64fx_task_allocation}
    (hf : FreesBlade e s m cmg a) (hpid : e.call.task.pid ≠ m.task.pid) {reply : Reply}
    (h : handle e s = .ok (reply, s')) : Withdrawn e.call m.group a s s' := by
  obtain ⟨arg, ioc, he, hread, hcmg, hget, halloc⟩ := hf
  obtain ⟨hm, hg⟩ := mem_of_get_taskmap hget
  obtain ⟨ha, hc, hb⟩ := get_allocation_eq_some hi.table halloc
  obtain ⟨t, hfree, -, -, hout⟩ := free_by_other (fun _ => True) hi hlock hm hg ha hc hpid
    (fun _ _ => trivial) fun _ _ => trivial
  rw [hb, ← hcmg] at hfree
  rw [free_event_eq he hread hfree] at h
  cases h
  exact hout

/-- What a BB_FREE does: nothing, or it frees a blade of the caller's group, as
the thread in the mapping or as another one. -/
theorem free_event_path (hi : Inv l s.dev) (hlock : s.locks = Locks.free)
    (hrange : e.CmgInRange) {arg : UserArg fujitsu_hwb_ioc_bb_ctl}
    (he : e.request = .ioctl (.BB_FREE arg)) {reply : Reply}
    (h : oss_a64fx_hwb_free_ioctl e.call arg s = .ok (reply, s')) :
    ReflTransGen (Micro l e.call (Makes e s)) s s' ∧ s'.locks = Locks.free := by
  rcases free_ioctl_state h with rfl | ⟨ioc, err, hread, hfree⟩
  · exact ⟨.refl, hlock⟩
  · have hlt := hrange arg ioc he hread
    obtain ⟨cmg, hcmg⟩ : ∃ cmg : Fin MAX_NUM_CMG, cmg.val = ioc.cmg.toNat :=
      ⟨⟨ioc.cmg.toNat, hlt⟩, rfl⟩
    rw [← hcmg] at hfree
    by_cases hex : ∃ a, Held s.dev e.call.task.tgid a ∧ a.cmg = cmg.val ∧
        (a.blade : ℤ) = ioc.bb.toNat
    · obtain ⟨a, ⟨m, hm, hg, ha⟩, hc, hb⟩ := hex
      have hfrees : FreesBlade e s m cmg a := by
        refine ⟨arg, ioc, he, hread, hcmg.symm, hi.lists.get_taskmap hm hg, ?_⟩
        rw [← hb]
        exact get_allocation_of_mem hi.table hi.lists hm ha hc
      rw [← hb] at hfree
      by_cases hpid : e.call.task.pid = m.task.pid
      · have hrel : Makes e s .release := Or.inl ⟨m, cmg, a, hfrees, Or.inl hpid⟩
        obtain ⟨t, hok, hpath, hlocks, -⟩ :=
          free_by_owner (Makes e s) hi hlock hm hg ha hc hpid hrel
        rw [hok] at hfree
        cases hfree
        exact ⟨hpath, hlocks⟩
      · obtain ⟨t, hok, hpath, hlocks, -⟩ := free_by_other (Makes e s) hi hlock hm hg ha hc
          hpid (fun hmask hwin => (⟨m, cmg, a, hfrees, hpid, hmask, hwin⟩ : Misdirects e s))
          (fun hmem hzero => (Or.inl ⟨m, cmg, a, hfrees, Or.inr ⟨hmem, hzero⟩⟩ : Releases e s))
        rw [hok] at hfree
        cases hfree
        exact ⟨hpath, hlocks⟩
    · -- the group holds no such blade
      have hnone := free_missing (c := e.call) hi.table hlock cmg ioc.bb.toNat
        fun a ha hc hb => hex ⟨a, ha, hc, hb⟩
      rw [hnone] at hfree
      cases hfree
      exact ⟨.refl, hlock⟩

/-- An open counts one file more. -/
theorem open_event_path (hlock : s.locks = Locks.free) (he : e.request = .open) {reply : Reply}
    (h : oss_a64fx_hwb_open s = .ok (reply, s')) :
    ReflTransGen (Micro l e.call (Makes e s)) s s' ∧ s'.locks = Locks.free := by
  simp only [oss_a64fx_hwb_open, spin_lock_dev_free hlock, Loops.ok_bind,
    spin_unlock_dev_held] at h
  cases h
  have hcount : Micro l e.call (Makes e s) s
    { s with dev := { s.dev with active_count := s.dev.active_count + 1 } } :=
    .count _ (Or.inl he)
  refine ⟨?_, rfl⟩
  rw [← hlock]
  exact .single hcount

/-- A close gives blades back only as the thread in a mapping that is not empty. -/
theorem close_event_path (hi : Inv l s.dev) (hlock : s.locks = Locks.free)
    (he : e.request = .close) {reply : Reply}
    (h : oss_a64fx_hwb_close e.call s = .ok (reply, s')) :
    ReflTransGen (Micro l e.call (Makes e s)) s s' ∧ s'.locks = Locks.free := by
  have hrel : ∀ m ∈ s.dev.task_list, m.group = e.call.task.tgid →
      e.call.task.pid = m.task.pid → s.dev.active_count > 0 →
      m.allocs = [] ∨ Makes e s .release := by
    intro m hm hg hpid hcount
    by_cases hempty : m.allocs = []
    · exact Or.inl hempty
    · exact Or.inr (Or.inr (Or.inl ⟨he, hcount, m, hi.lists.get_taskmap hm hg, hpid, hempty⟩))
  obtain ⟨t, hclose, hpath, hlocks, -⟩ := close_spec (c := e.call) (Makes e s) hi hlock
    (Or.inr he) hrel
  rw [hclose] at h
  cases h
  exact ⟨hpath, hlocks⟩

/-- A BW_ASSIGN takes a window over a recorded one only if it is a reassignment. -/
theorem assign_event_path (hi : Inv l s.dev) (hlock : s.locks = Locks.free)
    {arg : UserArg fujitsu_hwb_ioc_bw_ctl} (he : e.request = .ioctl (.BW_ASSIGN arg))
    {reply : Reply} (h : oss_a64fx_hwb_assign_blade_ioctl e.call arg s = .ok (reply, s')) :
    ReflTransGen (Micro l e.call (Makes e s)) s s' ∧ s'.locks = Locks.free := by
  rcases assign_ioctl_state h with rfl | ⟨ioc, ret, hread, hassign⟩
  · exact ⟨.refl, hlock⟩
  rcases assign_blade_cases hi hlock hassign with
    rfl | ⟨m, hm, a, ha, w, hg, hc, hb, hon, hmem, hw4, hbit, hrec, hweight, rfl⟩
  · exact ⟨.refl, hlock⟩
  refine ⟨.single (.take_window m a e.call.cpu w hg ⟨m, hm, rfl, ha⟩ hon hc.symm hmem hw4
    hbit ?_), hlock⟩
  by_cases hnone : a.window (hw.slot e.call.cpu) = A64FX_HWB_UNASSIGNED_WIN
  · exact Or.inl hnone
  · -- over a recorded window, so the window was asked for by its number
    refine Or.inr ⟨arg, ioc, m, a, he, hread, hweight, hi.lists.get_taskmap hm hg, ?_, ?_,
      hmem, hnone, w, hw4, (hrec.resolve_left hnone).2, hbit⟩
    · rw [← hb]
      exact get_allocation_of_mem hi.table hi.lists hm ha hc
    · rw [get_pemap_online hi.table hon]
      exact Option.some_ne_none _

theorem unassign_event_path (hi : Inv l s.dev) (hlock : s.locks = Locks.free)
    {arg : UserArg fujitsu_hwb_ioc_bw_ctl} {reply : Reply}
    (h : oss_a64fx_hwb_unassign_blade_ioctl e.call arg s = .ok (reply, s')) :
    ReflTransGen (Micro l e.call (Makes e s)) s s' ∧ s'.locks = Locks.free := by
  rcases unassign_ioctl_state h with rfl | ⟨ioc, err, hread, hun⟩
  · exact ⟨.refl, hlock⟩
  rcases unassign_blade_cases hi hlock hun with rfl | ⟨m, hm, a, ha, w, hg, hw4, hr, rfl⟩
  · exact ⟨.refl, hlock⟩
  · exact ⟨.single (.give_window m a e.call.cpu w w _ hg ⟨m, hm, rfl, ha⟩ hr (Or.inl rfl)), hlock⟩

theorem alloc_event_path (hi : Inv l s.dev) (hlock : s.locks = Locks.free) {arg : AllocArg}
    (he : e.request = .ioctl (.BB_ALLOC arg)) {reply : Reply}
    (h : oss_a64fx_hwb_allocate_ioctl e.call arg s = .ok (reply, s')) :
    ReflTransGen (Micro l e.call (Makes e s)) s s' ∧ s'.locks = Locks.free := by
  rcases allocate_ioctl_state h with rfl | ⟨ioc, mask, ret, hread, hmask, hcheck, hal⟩
  · exact ⟨.refl, hlock⟩
  obtain ⟨cmg, hcmg, hacc⟩ := accepted_of_check hi.table hcheck
  obtain ⟨ret', t, hok, hpath, hlocks⟩ := allocate_path (Makes e s) hi hlock ⟨arg, he⟩
    (fun hget hmem => (⟨arg, ioc, mask, he, hread, hmask, hcheck, hget, hmem⟩ : Maps e s)) cmg hacc
  rw [hcmg, hok] at hal
  cases hal
  exact ⟨hpath, hlocks⟩

/-- **Every event is a path of small steps**, of no kinds but its own. -/
theorem handle_path (hi : Inv l s.dev) (hlock : s.locks = Locks.free) (hrange : e.CmgInRange)
    {reply : Reply} (h : handle e s = .ok (reply, s')) :
    ReflTransGen (Micro l e.call (Makes e s)) s s' ∧ s'.locks = Locks.free := by
  unfold handle at h
  cases he : e.request with
  | «open» =>
      rw [he] at h
      exact open_event_path hlock he h
  | close =>
      rw [he] at h
      exact close_event_path hi hlock he h
  | ioctl ioc =>
      rw [he] at h
      unfold oss_a64fx_hwb_ioctl at h
      cases ioc with
      | GET_PE_INFO arg =>
          unfold oss_a64fx_hwb_get_peinfo_ioctl at h
          simp only at h
          split at h
          · cases h
            exact ⟨.refl, hlock⟩
          · split_ifs at h
            all_goals
              cases h
              exact ⟨.refl, hlock⟩
      | BW_ASSIGN arg => exact assign_event_path hi hlock he h
      | BW_UNASSIGN arg => exact unassign_event_path hi hlock h
      | BB_ALLOC arg => exact alloc_event_path hi hlock he h
      | BB_FREE arg => exact free_event_path hi hlock hrange he h
      | RESET =>
          simp only [reset_eq hlock, Loops.ok_bind] at h
          cases h
          refine ⟨.single (.reset he ?_), hlock⟩
          by_cases hex : ∃ g a, Held s.dev g a
          · exact Or.inl (Or.inr (Or.inr ⟨he, hex⟩))
          · exact Or.inr fun g a ha => hex ⟨g, a, ha⟩
      | other =>
          cases h
          exact ⟨.refl, hlock⟩

/-- **What a reassignment does**: the new window is taken over the recorded one. -/
theorem reassigns_taken (hi : Inv l s.dev) (hlock : s.locks = Locks.free) {reply : Reply}
    (h : handle e s = .ok (reply, s')) (hre : Reassigns e s) :
    ∃ m ∈ s.dev.task_list, ∃ a ∈ m.allocs, ∃ w < MAX_BW_PER_CMG, ∃ w₀,
      Records l a e.call.cpu w₀ ∧ s.dev.bw (hw.cmg e.call.cpu) (hw.slot e.call.cpu) w = false ∧
      s' = taken e.call m e.call.cpu w a s := by
  obtain ⟨arg, ioc, m, a, he, hread, hweight, hget, halloc, hpe, hmem, hwin, w, hw4, hexp,
    hbit⟩ := hre
  obtain ⟨hm, hg⟩ := mem_of_get_taskmap hget
  obtain ⟨ha, hc, hb⟩ := get_allocation_eq_some hi.table halloc
  -- `get_pemap` finds the PEs of the table only
  have hon : l.online.getLsbD e.call.cpu = true := by
    by_contra hoff
    exact hpe (get_pemap_offline hi.table (e.call.online_present _ e.call.cpu_online)
      (Bool.eq_false_iff.mpr hoff))
  obtain ⟨w₀, -, hr₀⟩ :=
    ((hi.sane _ a ⟨m, hm, rfl, ha⟩).records_or_none hon hc.symm).resolve_right hwin
  refine ⟨m, hm, a, ha, w, hw4, w₀, hr₀, hbit, ?_⟩
  have hassign := assign_blade_explicit hi hlock hm hg ha hc hon hmem hw4 hbit hweight
  rw [hb, ← hexp] at hassign
  unfold handle oss_a64fx_hwb_ioctl oss_a64fx_hwb_assign_blade_ioctl at h
  simp only [he, hread, hassign, Loops.ok_bind, ne_eq, not_true_eq_false, if_false] at h
  -- whether or not the argument can be written back
  split_ifs at h
  all_goals
    cases h
    rfl

/-! ## Runs -/

/-- Nobody holds anything on the loaded device. -/
theorem not_held_loaded (hpk : Packed l) (g : ℕ) (a : a64fx_task_allocation) :
    ¬Held (loaded_device l) g a := by
  rintro ⟨m, hm, -⟩
  rw [(loaded_empty hpk).1] at hm
  cases hm

theorem bb_loaded (hpk : Packed l) (c : Fin MAX_NUM_CMG) (b : ℕ) :
    (loaded_device l).bb c b = false := by
  obtain ⟨-, -, -, hbb, -⟩ := loaded_empty hpk
  rw [a64fx_hwb_device.bb, hbb c]
  exact BitVec.getLsbD_zero

theorem bw_loaded (hpk : Packed l) {k : ℕ} (hk : l.online.getLsbD k = true) (w : ℕ) :
    (loaded_device l).bw (hw.cmg k) (hw.slot k) w = false := by
  obtain ⟨-, -, -, -, hbw⟩ := loaded_empty hpk
  rw [a64fx_hwb_device.bw, hbw (hw.cmg k) (hw.slot k) ((loaded_table hpk).slot_lt hk)]
  exact BitVec.getLsbD_zero

theorem loaded_windows (hpk : Packed l) : (windows l (loaded_device l)).Empty := by
  refine ⟨?_, ?_⟩
  · rintro r ⟨hk, hbit⟩
    rw [bw_loaded hpk hk] at hbit
    exact Bool.noConfusion hbit
  · rintro p r ⟨g, a, ha, -⟩
    exact not_held_loaded hpk g a ha

/-- The loaded device satisfies the base invariant: there is nothing in it. -/
theorem loaded_inv (hpk : Packed l) : Inv l (loaded_device l) := by
  obtain ⟨htasks, hnum, -⟩ := loaded_empty hpk
  have hblades : (blades (loaded_device l)).Empty := by
    refine ⟨?_, ?_⟩
    · rintro p ⟨c, -, hbit⟩
      rw [bb_loaded hpk] at hbit
      exact Bool.noConfusion hbit
    · rintro g p ⟨a, ha, -⟩
      exact not_held_loaded hpk g a ha
  have hwindows := loaded_windows hpk
  exact {
    table := loaded_table hpk
    lists := ⟨by rw [htasks]; exact List.nodup_nil, by rw [hnum, htasks]; rfl,
      fun m hm => by rw [htasks] at hm; cases hm⟩
    sane := fun g a ha => absurd ha (not_held_loaded hpk g a)
    blade_range := fun c b hbit => by rw [bb_loaded hpk] at hbit; exact Bool.noConfusion hbit
    window_range := fun k w hk hbit => by rw [bw_loaded hpk hk] at hbit; exact Bool.noConfusion hbit
    blades_sound := hblades.sound
    blades_exclusive := hblades.exclusive
    blades_covered := hblades.covered
    windows_sound := hwindows.sound
    windows_exclusive := hwindows.exclusive }

/-- **The rule for one event.** What every small step of the event's kinds keeps, the
event keeps. -/
theorem preserves_of_handle {P : Kernel → Prop} (hi : Inv l s.dev)
    (hlock : s.locks = Locks.free) (hrange : e.CmgInRange) {reply : Reply}
    (h : handle e s = .ok (reply, s'))
    (hmicro : ∀ t t', Inv l t.dev → P t → Micro l e.call (Makes e s) t t' → P t') (hP : P s) :
    P s' := by
  obtain ⟨hpath, -⟩ := handle_path hi hlock hrange h
  -- the base invariant goes along, since the small steps may use it
  have hboth := hpath.preserves (P := fun t => Inv l t.dev ∧ P t)
    (fun t t' ⟨hit, hPt⟩ hm => ⟨hm.inv hit, hmicro t t' hit hPt hm⟩) ⟨hi, hP⟩
  exact hboth.2

/-- The base invariant is one of them, and the locks are given back. -/
theorem handle_inv (hi : Inv l s.dev) (hlock : s.locks = Locks.free) (hrange : e.CmgInRange)
    {reply : Reply} (h : handle e s = .ok (reply, s')) :
    Inv l s'.dev ∧ s'.locks = Locks.free := by
  obtain ⟨hpath, hlock'⟩ := handle_path hi hlock hrange h
  exact ⟨path_inv hi hpath, hlock'⟩

section Runs

variable {R : hwb_regs → Prop}

/-- **Every state of every run** satisfies the base invariant, with no lock held. -/
theorem reachable_inv (h : (driver l R).Reachable s) :
    Inv l s.dev ∧ s.locks = Locks.free := by
  refine h.invariant (P := fun s => Inv l s.dev ∧ s.locks = Locks.free) ?_ ?_
  · rintro s ⟨regs, -, hload⟩
    obtain ⟨hdev, -, -, hlock, -⟩ := hload.spec
    exact ⟨by rw [hdev]; exact loaded_inv hload.packed, hlock⟩
  · rintro s e s' - ⟨hi, hlock⟩ - ⟨hrange, reply, hok⟩
    exact handle_inv hi hlock hrange hok

/-- The rule, for a step of a run. -/
theorem preserves_of_step {P : Kernel → Prop} (h : (driver l R).Reachable s)
    (hstep : (driver l R).step s e s')
    (hmicro : ∀ t t', Inv l t.dev → P t → Micro l e.call (Makes e s) t t' → P t') (hP : P s) :
    P s' := by
  obtain ⟨hi, hlock⟩ := reachable_inv h
  obtain ⟨hrange, reply, hok⟩ := hstep
  exact preserves_of_handle hi hlock hrange hok hmicro hP

/-- The only thread an event can bring in is the caller, when it makes a mapping. -/
theorem tasks_of_step (h : (driver l R).Reachable s) (hstep : (driver l R).step s e s')
    {t : task_struct} (ht : t ∈ s'.dev.tasks) :
    (t = e.call.task ∧ Maps e s) ∨ t ∈ s.dev.tasks := by
  refine preserves_of_step
    (P := fun u => ∀ t ∈ u.dev.tasks, (t = e.call.task ∧ Maps e s) ∨ t ∈ s.dev.tasks) h hstep ?_
    (fun _ => Or.inr) t ht
  intro u u' _ hu hm t ht
  rcases hm.tasks ht with hself | ht
  · exact Or.inl hself
  · exact hu t ht

/-- No thread is in a mapping of the loaded device. -/
theorem Loaded.tasks {regs : hwb_regs} (h : Loaded l regs s) : s.dev.tasks = [] := by
  rw [a64fx_hwb_device.tasks, h.spec.1, (loaded_empty h.packed).1]
  rfl

/-- **The rule for the other invariants.** What a load establishes and every
small step keeps, holds after every run; the small steps may be taken to make
only the kinds of events that satisfy the run's side condition. -/
theorem run_invariant {C : Kernel → Event hw → Prop} {P : Kernel → Prop}
    (h0 : ∀ regs s, R regs → Loaded l regs s → P s)
    (hmicro : ∀ s e, C s e → ∀ t t', Inv l t.dev → P t → Micro l e.call (Makes e s) t t' → P t')
    (h : (driver l R).ReachableVia C s) : P s := by
  refine h.invariant ?_ ?_
  · rintro s ⟨regs, hR, hload⟩
    exact h0 regs s hR hload
  · intro s e s' hs hP hC hstep
    exact preserves_of_step hs.reachable hstep (hmicro s e hC) hP

end Runs

end A64fxHwb
