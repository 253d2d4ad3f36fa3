/-
Locks and preemption.

Every `spin_lock` has its `spin_unlock` on all paths, and every `get_cpu` its
`put_cpu`, except in one branch: a BB_FREE by a thread of the group that is not the
one in the mapping calls `get_cpu` and never `put_cpu`, where BW_ASSIGN and
BW_UNASSIGN, which start in the same way, call both. A request that does not return
at all, through a null core mapping or a trapped bit number, keeps what it holds.
-/
import A64fxHwb.Range

set_option autoImplicit false

namespace A64fxHwb

open BitWord Relation Runs

variable {hw : Machine} {l : Load hw} {c : Call hw} {R : hwb_regs → Prop} {e : Event hw}
variable {s s' : Kernel}

/-! ## Balanced events -/

/-- The event returns, with no lock held and the preemption count it has started
with. Taking a lock that is held or releasing one that is not is a fault. -/
def Balanced (e : Event hw) (s : Kernel) : Prop :=
  ∃ reply s', handle e s = .ok (reply, s') ∧ s'.locks = Locks.free ∧
    s'.preempt_count = s.preempt_count

/-- A BB_FREE of a blade of the group, by a thread other than the one in the
mapping. -/
def Withdraws (e : Event hw) (s : Kernel) : Prop :=
  ∃ m cmg a, FreesBlade e s m cmg a ∧ e.call.task.pid ≠ m.task.pid

/-- The event misses its `put_cpu`, or it does not return. -/
def Unbalances (e : Event hw) (s : Kernel) : Prop :=
  Withdraws e s ∨ NoEntry e s ∨ (ReadsBeyond e s ∧ e.call.beyond = none)

/-! ## The preemption count of each function -/

theorem preempt_of_spin_lock_dev (h : spin_lock_dev s = .ok s') :
    s'.dev = s.dev ∧ s'.preempt_count = s.preempt_count := by
  unfold spin_lock_dev at h
  split_ifs at h
  cases h
  exact ⟨rfl, rfl⟩

theorem preempt_of_spin_unlock_dev (h : spin_unlock_dev s = .ok s') :
    s'.preempt_count = s.preempt_count := by
  unfold spin_unlock_dev at h
  split_ifs at h
  cases h
  rfl

theorem preempt_of_free_allocation_cpu {cmg : Fin MAX_NUM_CMG} {tm : a64fx_task_mapping}
    {x y : FreeLoop} {cpu : ℕ} (h : free_allocation_cpu c cmg tm x cpu = .ok y) :
    y.kernel.preempt_count = x.kernel.preempt_count := by
  unfold free_allocation_cpu at h
  simp only [Loops.bind_eq_ok] at h
  obtain ⟨pe, -, ppe, -, h⟩ := h
  split_ifs at h
  · rw [Loops.bind_eq_ok] at h
    obtain ⟨bw_map, -, h⟩ := h
    cases h
    rfl
  · cases h
    rfl

/-- The walk over the windows of an allocation. -/
theorem preempt_of_free_allocation_loop {cmg : Fin MAX_NUM_CMG} {tm : a64fx_task_mapping}
    {x y : FreeLoop} (h : free_allocation_loop c cmg tm x = .ok y) :
    y.kernel.preempt_count = x.kernel.preempt_count := by
  refine (Loops.foldlM_ok (fun y => y.kernel.preempt_count = x.kernel.preempt_count)
    (fun _ => True) _ _ x y h rfl fun cpu _ u v hu hstep => ⟨?_, trivial⟩).1
  split_ifs at hstep
  · rw [preempt_of_free_allocation_cpu hstep]
    exact hu
  · cases hstep
    exact hu

theorem preempt_of_free_allocation {cmg : Fin MAX_NUM_CMG} {tm : a64fx_task_mapping}
    {a : a64fx_task_allocation} (h : free_allocation c cmg tm a s = .ok s') :
    s'.preempt_count = s.preempt_count := by
  unfold free_allocation at h
  rw [Loops.bind_eq_ok] at h
  obtain ⟨active, -, h⟩ := h
  simp only [pure_bind] at h
  split_ifs at h
  · -- the blade is active and has windows
    simp only [Loops.bind_eq_ok] at h
    obtain ⟨y, hloop, bb_active, -, h⟩ := h
    cases h
    exact preempt_of_free_allocation_loop hloop
  · rw [Loops.bind_eq_ok] at h
    obtain ⟨bb_active, -, h⟩ := h
    cases h
    rfl
  · cases h
    rfl

theorem preempt_of_unregister_task {m : a64fx_task_mapping} (h : unregister_task c m s = .ok s') :
    s'.preempt_count = s.preempt_count := by
  unfold unregister_task at h
  simp only [pure_bind] at h
  split_ifs at h
  · rw [Loops.bind_eq_ok] at h
    obtain ⟨t, hloop, h⟩ := h
    cases h
    refine (Loops.foldlM_ok (fun t => t.preempt_count = s.preempt_count)
      (fun _ => True) _ _ s t hloop rfl fun a _ u v hu hstep => ⟨?_, trivial⟩).1
    rw [Loops.bind_eq_ok] at hstep
    obtain ⟨cmg, -, hfree⟩ := hstep
    rw [preempt_of_free_allocation hfree]
    exact hu
  · cases h
    rfl

theorem preempt_of_unregister_if_empty {m : a64fx_task_mapping}
    (h : unregister_if_empty c m s = .ok s') : s'.preempt_count = s.preempt_count := by
  unfold unregister_if_empty at h
  split at h
  · cases h
  · split_ifs at h
    · exact preempt_of_unregister_task h
    · cases h
      rfl

theorem preempt_of_free_leave {cmg : Fin MAX_NUM_CMG} {m : a64fx_task_mapping}
    {a : a64fx_task_allocation} (h : oss_a64fx_hwb_free_leave c cmg m a s = .ok s') :
    s'.preempt_count = s.preempt_count := by
  rw [free_leave_eq] at h
  split_ifs at h
  · rw [Loops.bind_eq_ok] at h
    obtain ⟨t, hfree, hun⟩ := h
    rw [preempt_of_unregister_if_empty hun, preempt_of_free_allocation hfree]
    rfl
  · cases h
    rfl

theorem preempt_of_free_unassign {cmg : Fin MAX_NUM_CMG} {pe : Option (Fin MAX_PE_PER_CMG)}
    {m : a64fx_task_mapping} {a : a64fx_task_allocation} {x : a64fx_task_allocation × Kernel}
    (h : oss_a64fx_hwb_free_unassign c cmg pe m a s = .ok x) :
    x.2.preempt_count = s.preempt_count := by
  unfold oss_a64fx_hwb_free_unassign at h
  simp only [Loops.bind_eq_ok] at h
  obtain ⟨i, -, ppe, -, bw_map, -, w, -, h⟩ := h
  cases h
  rfl

/-- The branch for another thread of the group leaves preemption disabled once
more. -/
theorem preempt_of_free_withdraw {cmg : Fin MAX_NUM_CMG} {m : a64fx_task_mapping}
    {a : a64fx_task_allocation} (h : oss_a64fx_hwb_free_withdraw c cmg m a s = .ok s') :
    s'.preempt_count = s.preempt_count + 1 := by
  unfold oss_a64fx_hwb_free_withdraw at h
  simp only at h
  split_ifs at h
  · rw [Loops.bind_eq_ok] at h
    obtain ⟨x, hun, hleave⟩ := h
    rw [preempt_of_free_leave hleave, preempt_of_free_unassign hun]
    rfl
  · rw [Loops.bind_eq_ok] at h
    obtain ⟨x, hun, hleave⟩ := h
    cases hun
    rw [preempt_of_free_leave hleave]
    rfl
  · cases h
    rfl

/-- BB_FREE under its lock, for the mapping of the caller's group. -/
theorem preempt_of_free_blade {cmg : Fin MAX_NUM_CMG} {blade : ℤ} {m : a64fx_task_mapping}
    {x : ℤ × Kernel} (hg : m.group = c.task.tgid)
    (h : oss_a64fx_hwb_free_blade c cmg.val blade m s = .ok x) :
    (∃ a, get_allocation (s.dev.cmgs cmg) m blade = some a ∧ c.task.pid ≠ m.task.pid ∧
        x.2.preempt_count = s.preempt_count + 1) ∨
      ((∀ a, get_allocation (s.dev.cmgs cmg) m blade = some a → c.task.pid = m.task.pid) ∧
        x.2.preempt_count = s.preempt_count) := by
  unfold oss_a64fx_hwb_free_blade at h
  simp only [cmgs_ptr_ok, Loops.ok_bind] at h
  cases halloc : get_allocation (s.dev.cmgs cmg) m blade with
  | none =>
      rw [halloc] at h
      cases h
      exact Or.inr ⟨fun a ha => (by cases ha), rfl⟩
  | some a =>
      simp only [halloc] at h
      by_cases hpid : c.task.pid = m.task.pid
      · simp only [if_pos hpid, Loops.bind_eq_ok] at h
        obtain ⟨t, hfree, u, hun, hret⟩ := h
        cases hret
        refine Or.inr ⟨fun _ _ => hpid, ?_⟩
        rw [preempt_of_unregister_if_empty hun, preempt_of_free_allocation hfree]
      · -- the mapping is that of the group, so the other exit is not taken
        have hgroup : c.task.tgid = m.task.tgid := hg.symm
        simp only [if_neg hpid, if_pos hgroup, Loops.bind_eq_ok] at h
        obtain ⟨t, hwith, hret⟩ := h
        cases hret
        exact Or.inl ⟨a, rfl, hpid, preempt_of_free_withdraw hwith⟩

/-- **BB_FREE and the preemption count.** -/
theorem preempt_of_free {cmg : Fin MAX_NUM_CMG} {blade err : ℤ}
    (h : oss_a64fx_hwb_free c cmg.val blade s = .ok (err, s')) :
    (∃ m a, get_taskmap s.dev c.task = some m ∧ get_allocation (s.dev.cmgs cmg) m blade = some a ∧
        c.task.pid ≠ m.task.pid ∧ s'.preempt_count = s.preempt_count + 1) ∨
      ((∀ m a, get_taskmap s.dev c.task = some m →
          get_allocation (s.dev.cmgs cmg) m blade = some a → c.task.pid = m.task.pid) ∧
        s'.preempt_count = s.preempt_count) := by
  unfold oss_a64fx_hwb_free at h
  rw [Loops.bind_eq_ok] at h
  obtain ⟨t, hlock, h⟩ := h
  obtain ⟨hdev, hpre⟩ := preempt_of_spin_lock_dev hlock
  rw [← hpre, ← hdev]
  cases hget : get_taskmap t.dev c.task with
  | none =>
      simp only [hget, pure_bind, Loops.bind_eq_ok] at h
      obtain ⟨v, hunlock, hret⟩ := h
      cases hret
      exact Or.inr ⟨fun m a hm => (by cases hm), preempt_of_spin_unlock_dev hunlock⟩
  | some m =>
      simp only [hget, Loops.bind_eq_ok] at h
      obtain ⟨x, hbody, v, hunlock, hret⟩ := h
      cases hret
      rw [preempt_of_spin_unlock_dev hunlock]
      rcases preempt_of_free_blade (mem_of_get_taskmap hget).2 hbody with
        ⟨a, halloc, hpid, hcount⟩ | ⟨hown, hcount⟩
      · exact Or.inl ⟨m, a, rfl, halloc, hpid, hcount⟩
      · refine Or.inr ⟨fun m' a hm ha => ?_, hcount⟩
        cases hm
        exact hown a ha

theorem preempt_of_close {reply : Reply} (h : oss_a64fx_hwb_close c s = .ok (reply, s')) :
    s'.preempt_count = s.preempt_count := by
  unfold oss_a64fx_hwb_close at h
  rw [Loops.bind_eq_ok] at h
  obtain ⟨t, hlock, h⟩ := h
  rw [← (preempt_of_spin_lock_dev hlock).2]
  simp only [pure_bind] at h
  split_ifs at h
  · -- a close that is counted
    split at h
    · split_ifs at h
      · simp only [Loops.bind_eq_ok] at h
        obtain ⟨u, hun, v, hunlock, hret⟩ := h
        cases hret
        rw [preempt_of_spin_unlock_dev hunlock, preempt_of_unregister_task hun]
      · rw [Loops.bind_eq_ok] at h
        obtain ⟨v, hunlock, hret⟩ := h
        cases hret
        rw [preempt_of_spin_unlock_dev hunlock]
    · rw [Loops.bind_eq_ok] at h
      obtain ⟨v, hunlock, hret⟩ := h
      cases hret
      rw [preempt_of_spin_unlock_dev hunlock]
  · rw [Loops.bind_eq_ok] at h
    obtain ⟨v, hunlock, hret⟩ := h
    cases hret
    exact preempt_of_spin_unlock_dev hunlock

/-! ## Events -/

theorem preempt_of_assign (hi : Inv l s.dev) (hlock : s.locks = Locks.free)
    {blade window : ℤ} {ret : ℤ × Option ℤ}
    (h : oss_a64fx_hwb_assign_blade c blade window s = .ok (ret, s')) :
    s'.preempt_count = s.preempt_count := by
  rcases assign_blade_cases hi hlock h with rfl | ⟨m, -, a, -, w, -, -, -, -, -, -, -, -, -, rfl⟩
  · rfl
  · rfl

theorem preempt_of_unassign (hi : Inv l s.dev) (hlock : s.locks = Locks.free) {blade err : ℤ}
    (h : oss_a64fx_hwb_unassign_blade c blade s = .ok (err, s')) :
    s'.preempt_count = s.preempt_count := by
  rcases unassign_blade_cases hi hlock h with rfl | ⟨m, -, a, -, w, -, -, -, rfl⟩
  · rfl
  · rfl

theorem preempt_of_allocate (hi : Inv l s.dev) (hlock : s.locks = Locks.free)
    (cmg : Fin MAX_NUM_CMG) {mask : cpumask_t} {ret : ℤ × Option ℕ}
    (h : oss_a64fx_hwb_allocate c cmg.val mask s = .ok (ret, s')) :
    s'.preempt_count = s.preempt_count := by
  have hfree : s.locks.dev_lock = false := congrArg Locks.dev_lock hlock
  rcases mapped_or_no_memory c s with ⟨m, t, hmap⟩ | ⟨hget, hmem⟩
  · rw [allocate_run hfree hi.table.num_bb.le cmg mask hmap] at h
    have ht : (blade_outcome c cmg mask m t).2 = s' := congrArg Prod.snd (Except.ok.inj h)
    rw [← ht]
    exact (blade_outcome_keeps_locks c cmg mask m t).2.trans hmap.locks.2
  · rw [allocate_no_memory hfree cmg mask hget hmem] at h
    cases h
    rfl

/-- A BB_FREE loses a `put_cpu` exactly if it withdraws. -/
theorem preempt_of_free_event (hrange : e.CmgInRange) {arg : UserArg fujitsu_hwb_ioc_bb_ctl}
    (he : e.request = .ioctl (.BB_FREE arg)) {reply : Reply}
    (h : handle e s = .ok (reply, s')) :
    (Withdraws e s ∧ s'.preempt_count = s.preempt_count + 1) ∨
      (¬Withdraws e s ∧ s'.preempt_count = s.preempt_count) := by
  cases hread : arg.read with
  | none =>
      rw [handle_unread (Or.inr (Or.inr ⟨arg, he, hread⟩))] at h
      cases h
      refine Or.inr ⟨?_, rfl⟩
      rintro ⟨m, cmg, a, ⟨arg', ioc, he', hread', -⟩, -⟩
      rw [he] at he'
      cases he'
      rw [hread] at hread'
      cases hread'
  | some ioc =>
      rw [free_event_map he hread, Loops.map_eq_ok] at h
      obtain ⟨⟨err, t⟩, hfree, hret⟩ := h
      cases hret
      obtain ⟨cmg, hcmg⟩ : ∃ cmg : Fin MAX_NUM_CMG, cmg.val = ioc.cmg.toNat :=
        ⟨⟨ioc.cmg.toNat, hrange arg ioc he hread⟩, rfl⟩
      rw [← hcmg] at hfree
      rcases preempt_of_free hfree with ⟨m, a, hget, halloc, hpid, hcount⟩ | ⟨hown, hcount⟩
      · exact Or.inl ⟨⟨m, cmg, a, ⟨arg, ioc, he, hread, hcmg.symm, hget, halloc⟩, hpid⟩, hcount⟩
      · refine Or.inr ⟨?_, hcount⟩
        rintro ⟨m, cmg', a, ⟨arg', ioc', he', hread', hcmg', hget, halloc⟩, hpid⟩
        rw [he] at he'
        cases he'
        rw [hread] at hread'
        cases hread'
        have hsame : cmg' = cmg := Fin.ext (hcmg'.symm.trans hcmg.symm)
        rw [hsame] at halloc
        exact hpid (hown m a hget halloc)

/-- A withdrawal is a BB_FREE. -/
theorem Withdraws.request (h : Withdraws e s) : ∃ arg, e.request = .ioctl (.BB_FREE arg) := by
  obtain ⟨m, cmg, a, ⟨arg, ioc, he, -⟩, -⟩ := h
  exact ⟨arg, he⟩

/-- **What an event that returns does to the preemption count.** -/
theorem preempt_of_event (hi : Inv l s.dev) (hlock : s.locks = Locks.free)
    (hrange : e.CmgInRange) {reply : Reply} (h : handle e s = .ok (reply, s')) :
    (Withdraws e s ∧ s'.preempt_count = s.preempt_count + 1) ∨
      (¬Withdraws e s ∧ s'.preempt_count = s.preempt_count) := by
  by_cases hfree : ∃ arg, e.request = .ioctl (.BB_FREE arg)
  · obtain ⟨arg, he⟩ := hfree
    exact preempt_of_free_event hrange he h
  refine Or.inr ⟨fun hwith => hfree hwith.request, ?_⟩
  unfold handle at h
  cases he : e.request with
  | «open» =>
      rw [he] at h
      simp only [oss_a64fx_hwb_open, spin_lock_dev_free hlock, Loops.ok_bind,
        spin_unlock_dev_held] at h
      cases h
      rfl
  | close =>
      rw [he] at h
      exact preempt_of_close h
  | ioctl ioc =>
      rw [he] at h
      unfold oss_a64fx_hwb_ioctl at h
      cases ioc with
      | GET_PE_INFO arg =>
          obtain ⟨reply', hok⟩ := get_peinfo_ok e.call arg s
          simp only [hok] at h
          cases h
          rfl
      | BW_ASSIGN arg =>
          rcases assign_ioctl_state h with rfl | ⟨ioc, ret, hread, hassign⟩
          · rfl
          · exact preempt_of_assign hi hlock hassign
      | BW_UNASSIGN arg =>
          rcases unassign_ioctl_state h with rfl | ⟨ioc, err, hread, hun⟩
          · rfl
          · exact preempt_of_unassign hi hlock hun
      | BB_ALLOC arg =>
          rcases allocate_ioctl_state h with rfl | ⟨-, mask, ret, -, -, hcheck, hal⟩
          · rfl
          · obtain ⟨cmg, hcmg, -⟩ := accepted_of_check hi.table hcheck
            rw [hcmg] at hal
            exact preempt_of_allocate hi hlock cmg hal
      | BB_FREE arg => exact absurd ⟨arg, he⟩ hfree
      | RESET =>
          simp only [reset_eq hlock, Loops.ok_bind] at h
          cases h
          rfl
      | other =>
          cases h
          rfl

/-- A BB_FREE that names a CMG of the machine frees nothing outside of it. -/
theorem not_freesOutside (hrange : e.CmgInRange) : ¬FreesOutside e s := by
  rintro ⟨arg, ioc, he, hread, hge, -⟩
  exact absurd (hrange arg ioc he hread) (not_lt.mpr hge)

/-- One event. -/
theorem balanced_iff (hi : Inv l s.dev) (hlock : s.locks = Locks.free) (hrange : e.CmgInRange) :
    Balanced e s ↔ ¬Unbalances e s := by
  constructor
  · rintro ⟨reply, s', hok, -, hcount⟩
    obtain ⟨-, hentry, hbeyond⟩ := (handle_ok_iff hi hlock).mp ⟨_, hok⟩
    rintro (hwith | hnone | ⟨hread, htrap⟩)
    · rcases preempt_of_event hi hlock hrange hok with ⟨-, hmore⟩ | ⟨hno, -⟩
      · omega
      · exact hno hwith
    · exact hentry hnone
    · exact hbeyond hread htrap
  · intro hno
    obtain ⟨⟨reply, s'⟩, hok⟩ := handle_ok hi hlock (not_freesOutside hrange)
      (fun h => hno (Or.inr (Or.inl h))) fun h htrap => hno (Or.inr (Or.inr ⟨h, htrap⟩))
    refine ⟨reply, s', hok, (handle_path hi hlock hrange hok).2, ?_⟩
    rcases preempt_of_event hi hlock hrange hok with ⟨hwith, -⟩ | ⟨-, hsame⟩
    · exact absurd (Or.inl hwith) hno
    · exact hsame

/-- The states a sequence of balanced events leads to. -/
def BalancedStep (l : Load hw) (R : hwb_regs → Prop) (s s' : Kernel) : Prop :=
  ∃ e, ¬Unbalances e s ∧ (driver l R).step s e s'

/-- **When locks and preemption are balanced**: for every event that returns and is
no withdrawal, and so for every sequence of such events. -/
theorem locks_and_preemption_balanced (h : (driver l R).Reachable s) :
    (∀ e : Event hw, e.CmgInRange → (Balanced e s ↔ ¬Unbalances e s)) ∧
      ∀ s', ReflTransGen (BalancedStep l R) s s' →
        s'.locks = Locks.free ∧ s'.preempt_count = s.preempt_count := by
  obtain ⟨hi, hlock⟩ := reachable_inv h
  refine ⟨fun e hrange => balanced_iff hi hlock hrange, fun s' hrun => ?_⟩
  -- along the run the states stay reachable
  have hinv : (driver l R).Reachable s' ∧ s'.preempt_count = s.preempt_count := by
    refine hrun.preserves (P := fun t => (driver l R).Reachable t ∧
      t.preempt_count = s.preempt_count) ?_ ⟨h, rfl⟩
    rintro t u ⟨hreach, hcount⟩ ⟨e, hno, hstep⟩
    obtain ⟨hit, htlock⟩ := reachable_inv hreach
    refine ⟨.step hreach trivial hstep, ?_⟩
    obtain ⟨hrange, reply, hok⟩ := hstep
    rcases preempt_of_event hit htlock hrange hok with ⟨hwith, -⟩ | ⟨-, hsame⟩
    · exact absurd (Or.inl hwith) hno
    · rw [hsame, hcount]
  exact ⟨(reachable_inv hinv.1).2, hinv.2⟩

/-- The thread in the mapping frees its blade, -/
theorem balanced_quad_free : Balanced (Quad.free Quad.first 0 0)
    (after Quad.load [Quad.alloc Quad.first 0 0x3]) := by
  have hreach : (driver Quad.load fun _ => True).Reachable
      (after Quad.load [Quad.alloc Quad.first 0 0x3]) :=
    reachable_after trivial (by decide +kernel) (by decide)
  refine ((locks_and_preemption_balanced hreach).1 _
    (Event.cmgInRange_of_test (by decide))).mpr ?_
  rintro (⟨m, cmg, a, ⟨arg, ioc, -, -, -, hget, -⟩, hpid⟩ |
    ⟨-, arg, ioc, m, a, -, -, ⟨he, -⟩ | he⟩ | ⟨⟨arg, ioc, m, a, he, -⟩, -⟩)
  · -- the mapping is that of the thread
    have htask : ((get_taskmap (after Quad.load [Quad.alloc Quad.first 0 0x3]).dev
        Quad.first).map fun m => m.task.pid) = some Quad.first.pid := by decide +kernel
    have hget' : get_taskmap (after Quad.load [Quad.alloc Quad.first 0 0x3]).dev Quad.first =
      some m := hget
    rw [hget'] at htask
    exact hpid (Option.some.inj htask).symm
  · cases he
  · cases he
  · cases he

/-- and another thread of its process leaves preemption disabled. -/
theorem withdrawal_keeps_preemption_disabled :
    (driver Quad.load fun _ => True).Reachable (after Quad.load [Quad.alloc Quad.first 0 0x3]) ∧
      (Quad.free Quad.second 2 0).CmgInRange ∧
      ¬Balanced (Quad.free Quad.second 2 0) (after Quad.load [Quad.alloc Quad.first 0 0x3]) := by
  refine ⟨reachable_after trivial (by decide +kernel) (by decide),
    Event.cmgInRange_of_test (by decide), ?_⟩
  rintro ⟨reply, s', hok, -, hcount⟩
  have hrun : (match handle (Quad.free Quad.second 2 0)
      (after Quad.load [Quad.alloc Quad.first 0 0x3]) with
    | .ok x => decide (x.2.preempt_count =
        (after Quad.load [Quad.alloc Quad.first 0 0x3]).preempt_count + 1)
    | .error _ => false) = true := by
    decide +kernel
  rw [hok] at hrun
  simp only [decide_eq_true_eq] at hrun
  omega

end A64fxHwb
