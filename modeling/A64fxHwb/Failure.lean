/-
Requests that fail and what they leave behind.

BB_ALLOC, BB_FREE, BW_ASSIGN and BW_UNASSIGN return a negative value early, while
nothing has been changed, with two exceptions. A BB_ALLOC creates the mapping of
its group before it knows whether there is a blade, and keeps it when there is none;
BB_FREE, by contrast, takes a mapping that has become empty down. And each of the
four copies its argument back when the work is done, and returns `-1` for work that
stays when that copy fails.
-/
import A64fxHwb.Range
import A64fxHwb.Withdraw

set_option autoImplicit false

namespace A64fxHwb

open BitWord Relation Runs

variable {hw : Machine} {l : Load hw} {c : Call hw} {R : hwb_regs → Prop} {e : Event hw}
variable {s s' t : Kernel} {m : a64fx_task_mapping} {a : a64fx_task_allocation}
variable {cmg : Fin MAX_NUM_CMG} {reply : Reply}

/-! ## What a failure leaves behind -/

/-- The mappings with their allocations, the bitmaps and the registers are what they
were. -/
structure Unchanged (s s' : Kernel) : Prop where
  task_list : s'.dev.task_list = s.dev.task_list
  num_tasks : s'.dev.num_tasks = s.dev.num_tasks
  bb_active : ∀ c, (s'.dev.cmgs c).bb_active = (s.dev.cmgs c).bb_active
  bw_map : ∀ c j, ((s'.dev.cmgs c).pe_map j).bw_map = ((s.dev.cmgs c).pe_map j).bw_map
  regs : s'.regs = s.regs

theorem Unchanged.refl (s : Kernel) : Unchanged s s :=
  ⟨rfl, rfl, fun _ => rfl, fun _ _ => rfl, rfl⟩

/-- If the event returns a negative value, it has changed nothing. -/
def FailsCleanly (e : Event hw) (s : Kernel) : Prop :=
  ∀ reply s', handle e s = .ok (reply, s') → reply.err < 0 → Unchanged s s'

/-- The request is one of the four that work on blades and windows. -/
def Event.OnBlades (e : Event hw) : Prop :=
  (∃ arg, e.request = .ioctl (.BB_ALLOC arg)) ∨ (∃ arg, e.request = .ioctl (.BB_FREE arg)) ∨
    (∃ arg, e.request = .ioctl (.BW_ASSIGN arg)) ∨ ∃ arg, e.request = .ioctl (.BW_UNASSIGN arg)

/-- All blades of the CMG are active. -/
def AllActive (s : Kernel) (cmg : Fin MAX_NUM_CMG) : Prop :=
  ∀ b < MAX_BB_PER_CMG, s.dev.bb cmg b = true

/-- A BB_ALLOC with a mask that is accepted either creates the mapping of the group
and then fails, or takes a blade and cannot say which. -/
def AllocLeaves (e : Event hw) (s : Kernel) : Prop :=
  ∃ arg ioc mask cmg, e.request = .ioctl (.BB_ALLOC arg) ∧ arg.read = some ioc ∧
    arg.pemask = some mask ∧ check_cpumask e.call.online s.dev mask = (Fin.val cmg : ℤ) ∧
    ((get_taskmap s.dev e.call.task = none ∧ e.call.kmalloc_taskmap = true ∧
        (AllActive s cmg ∨ arg.writable = false)) ∨
      (get_taskmap s.dev e.call.task ≠ none ∧ e.call.kmalloc_alloc = true ∧
        ¬AllActive s cmg ∧ arg.writable = false))

/-- A BB_FREE that frees a blade, or takes the caller's CPU out of it, and cannot
write its argument back. -/
def FreeLeaves (e : Event hw) (s : Kernel) : Prop :=
  ∃ arg m cmg a, e.request = .ioctl (.BB_FREE arg) ∧ arg.writable = false ∧
    FreesBlade e s m cmg a ∧ (e.call.task.pid = m.task.pid ∨ a.cpumask.getLsbD e.call.cpu = true)

/-- A BW_ASSIGN that takes a window and cannot say which. -/
def AssignLeaves (e : Event hw) (s : Kernel) : Prop :=
  ∃ arg ioc m a w, e.request = .ioctl (.BW_ASSIGN arg) ∧ arg.read = some ioc ∧
    arg.writable = false ∧ FindsBlade e.call ioc.bb.toNat s m a ∧
    a.cpumask.getLsbD e.call.cpu = true ∧
    get_pemap s.dev (hw.cmg e.call.cpu) (hw.ppe e.call.cpu) ≠ none ∧
    Chooses e.call s a ioc.window.toInt w

/-- A BW_UNASSIGN that gives a window back and cannot write its argument back. -/
def UnassignLeaves (l : Load hw) (e : Event hw) (s : Kernel) : Prop :=
  ∃ arg ioc m a w, e.request = .ioctl (.BW_UNASSIGN arg) ∧ arg.read = some ioc ∧
    arg.writable = false ∧ FindsBlade e.call ioc.bb.toNat s m a ∧ GivesBack l e.call s a w

/-- The request fails with something done. -/
def LeavesBehind (l : Load hw) (e : Event hw) (s : Kernel) : Prop :=
  AllocLeaves e s ∨ FreeLeaves e s ∨ AssignLeaves e s ∨ UnassignLeaves l e s

/-! ## Clean failures -/

theorem failsCleanly_of_error {f : Fault} (h : handle e s = .error f) : FailsCleanly e s := by
  intro reply s' hok
  rw [h] at hok
  cases hok

theorem failsCleanly_of_ok (h : handle e s = .ok (reply, t)) :
    FailsCleanly e s ↔ (reply.err < 0 → Unchanged s t) := by
  constructor
  · intro hclean
    exact hclean reply t h
  · intro hclean reply' s' hok
    rw [h] at hok
    cases hok
    exact hclean

/-- An event that returns the state it has found fails cleanly. -/
theorem failsCleanly_of_same (h : handle e s = .ok (reply, s)) : FailsCleanly e s :=
  (failsCleanly_of_ok h).mpr fun _ => .refl s

/-! ## BB_ALLOC -/

theorem not_allActive_iff (s : Kernel) (cmg : Fin MAX_NUM_CMG) :
    ¬AllActive s cmg ↔ firstZero (s.dev.cmgs cmg).bb_active MAX_BB_PER_CMG < MAX_BB_PER_CMG := by
  rw [firstZero_lt_iff]
  unfold AllActive
  constructor
  · intro h
    by_contra hno
    refine h fun b hb => ?_
    by_contra hbit
    exact hno ⟨b, hb, Bool.eq_false_iff.mpr hbit⟩
  · rintro ⟨b, hb, hbit⟩ hall
    have hset : (s.dev.cmgs cmg).bb_active.getLsbD b = true := hall b hb
    rw [hbit] at hset
    exact Bool.noConfusion hset

/-- A blade that is taken is a change. -/
theorem not_unchanged_allocated (hi : Inv l s.dev) (mask : cpumask_t) {b : ℕ}
    (hb : b < MAX_BB_PER_CMG) (hfree : s.dev.bb cmg b = false) :
    ¬Unchanged s (allocated c m cmg b mask s) := by
  intro hun
  obtain ⟨-, hbl⟩ := init_allocation_spec hi.table cmg m hb mask
  have hb6 : b < 6 := hb
  have hset : (allocated c m cmg b mask s).dev.bb cmg b = true :=
    (bb_hold_alloc (by omega) cmg b).mpr (Or.inr ⟨rfl, hbl.symm⟩)
  rw [a64fx_hwb_device.bb, hun.bb_active cmg, ← a64fx_hwb_device.bb, hfree] at hset
  exact Bool.noConfusion hset

/-- A mapping that is created is a change, whatever follows. -/
theorem Mapped.not_unchanged (h : Mapped c s m t) (hget : get_taskmap s.dev c.task = none)
    (hcount : s'.dev.num_tasks = t.dev.num_tasks) : ¬Unchanged s s' := by
  intro hun
  cases h with
  | found m hsome =>
      rw [hget] at hsome
      cases hsome
  | created =>
      have hsame := hun.num_tasks
      rw [hcount] at hsame
      change s.dev.num_tasks + 1 = s.dev.num_tasks at hsame
      omega

theorem num_tasks_allocate_outcome (c : Call hw) (cmg : Fin MAX_NUM_CMG) (mask : cpumask_t)
    (m : a64fx_task_mapping) (t : Kernel) :
    (allocate_outcome c cmg mask m t).2.dev.num_tasks = t.dev.num_tasks := by
  unfold allocate_outcome
  by_cases hbit : firstZero (t.dev.cmgs cmg).bb_active MAX_BB_PER_CMG < MAX_BB_PER_CMG
  · cases hmem : c.kmalloc_alloc with
    | false => simp [if_pos hbit]
    | true =>
        simp only [if_pos hbit, if_true]
        rfl
  · simp only [if_neg hbit]

/-- The reply of a BB_ALLOC is negative if no blade is left, or if it cannot be
written. -/
theorem alloc_reply_neg (arg : AllocArg) (cmg_id : ℤ) (c : Call hw) (cmg : Fin MAX_NUM_CMG)
    (mask : cpumask_t) (m : a64fx_task_mapping) (t : Kernel) :
    (alloc_reply arg cmg_id (allocate_outcome c cmg mask m t).1).err < 0 ↔
      AllActive t cmg ∨ arg.writable = false := by
  unfold allocate_outcome alloc_reply
  by_cases hall : AllActive t cmg
  · have hbit : ¬firstZero (t.dev.cmgs cmg).bb_active MAX_BB_PER_CMG < MAX_BB_PER_CMG :=
      fun h => (not_allActive_iff t cmg).mpr h hall
    simp only [if_neg hbit]
    exact ⟨fun _ => Or.inl hall, fun _ => by decide⟩
  · have hbit := (not_allActive_iff t cmg).mp hall
    simp only [if_pos hbit, hall, false_or]
    cases hwrite : arg.writable with
    | true => simp
    | false => simp

/-- In a group that has its mapping, only the blade can be a change. -/
theorem unchanged_allocate_outcome_iff (hi : Inv l s.dev) (mask : cpumask_t) :
    Unchanged s (allocate_outcome c cmg mask m s).2 ↔
      AllActive s cmg ∨ c.kmalloc_alloc = false := by
  unfold allocate_outcome
  by_cases hactive : AllActive s cmg
  · have hbit : ¬firstZero (s.dev.cmgs cmg).bb_active MAX_BB_PER_CMG < MAX_BB_PER_CMG :=
      fun h => (not_allActive_iff s cmg).mpr h hactive
    simp only [if_neg hbit]
    exact iff_of_true (.refl s) (Or.inl hactive)
  · have hbit := (not_allActive_iff s cmg).mp hactive
    have hchange := not_unchanged_allocated (c := c) (m := m) hi mask hbit (firstZero_spec hbit).1
    simp only [if_pos hbit, hactive, false_or]
    cases hmem : c.kmalloc_alloc with
    | false => exact iff_of_true (.refl s) rfl
    | true => exact iff_of_false hchange (by decide)

/-- The arguments in the condition are those of the event. -/
theorem allocLeaves_iff {arg : AllocArg} {ioc : fujitsu_hwb_ioc_bb_ctl} {mask : BitVec 64}
    (he : e.request = .ioctl (.BB_ALLOC arg)) (hread : arg.read = some ioc)
    (hmask : arg.pemask = some mask)
    (hcmg : check_cpumask e.call.online s.dev mask = (Fin.val cmg : ℤ)) :
    AllocLeaves e s ↔
      ((get_taskmap s.dev e.call.task = none ∧ e.call.kmalloc_taskmap = true ∧
          (AllActive s cmg ∨ arg.writable = false)) ∨
        (get_taskmap s.dev e.call.task ≠ none ∧ e.call.kmalloc_alloc = true ∧
          ¬AllActive s cmg ∧ arg.writable = false)) := by
  constructor
  · rintro ⟨arg', ioc', mask', cmg', he', -, hmask', hcmg', h⟩
    rw [he] at he'
    cases he'
    rw [hmask] at hmask'
    cases hmask'
    have hsame : cmg' = cmg := by
      rw [hcmg] at hcmg'
      exact Fin.ext (by omega)
    rw [hsame] at h
    exact h
  · intro h
    exact ⟨arg, ioc, mask, cmg, he, hread, hmask, hcmg, h⟩

theorem alloc_fails_iff (hi : Inv l s.dev) (hlock : s.locks = Locks.free) {arg : AllocArg}
    (he : e.request = .ioctl (.BB_ALLOC arg)) : FailsCleanly e s ↔ ¬AllocLeaves e s := by
  by_cases hacc : ∃ ioc mask, arg.read = some ioc ∧ arg.pemask = some mask ∧
      0 ≤ check_cpumask e.call.online s.dev mask
  swap
  · -- refused
    have hrefused : handle e s = .ok ({ err := -EINVAL }, s) := by
      refine alloc_event_refused he fun ioc mask hread hmask => ?_
      exact not_le.mp fun hcheck => hacc ⟨ioc, mask, hread, hmask, hcheck⟩
    refine iff_of_true (failsCleanly_of_same hrefused) ?_
    rintro ⟨arg', ioc, mask, cmg, he', hread, hmask, hcheck, -⟩
    rw [he] at he'
    cases he'
    exact hacc ⟨ioc, mask, hread, hmask, by rw [hcheck]; omega⟩
  obtain ⟨ioc, mask, hread, hmask, hcheck⟩ := hacc
  obtain ⟨cmg, hcmg, -⟩ := accepted_of_check hi.table hcheck
  have hev := alloc_event_eq he hread hmask hcheck
  rw [hcmg] at hev
  rw [allocLeaves_iff he hread hmask hcmg]
  rcases mapped_or_no_memory e.call s with ⟨m, t, hmap⟩ | ⟨hget, hmem⟩
  swap
  · rw [allocate_no_memory (congrArg Locks.dev_lock hlock) cmg mask hget hmem] at hev
    refine iff_of_true (failsCleanly_of_same hev) ?_
    rintro (⟨-, hmem', -⟩ | ⟨hsome, -⟩)
    · rw [hmem] at hmem'
      exact Bool.noConfusion hmem'
    · exact hsome hget
  rw [allocate_eq hi hlock cmg mask hmap] at hev
  have hall : AllActive t cmg ↔ AllActive s cmg := by
    unfold AllActive a64fx_hwb_device.bb
    rw [hmap.cmgs]
  rw [failsCleanly_of_ok hev, alloc_reply_neg, hall]
  by_cases hget : get_taskmap s.dev e.call.task = none
  · -- the mapping is new, and stays
    have hnew := hmap.not_unchanged hget
      (num_tasks_allocate_outcome e.call cmg mask m t)
    have hmem := hmap.mapping.resolve_left (not_not.mpr hget)
    constructor
    · rintro hclean (⟨-, -, hfails⟩ | ⟨hsome, -⟩)
      · exact hnew (hclean hfails)
      · exact hsome hget
    · intro hno hfails
      exact absurd (Or.inl ⟨hget, hmem, hfails⟩) hno
  · have hst : t = s := by
      cases hmap with
      | found => rfl
      | created hnone => exact absurd hnone hget
    subst hst
    rw [unchanged_allocate_outcome_iff hi mask]
    constructor
    · rintro hclean (⟨hnone, -⟩ | ⟨-, hmem, hactive, hwrite⟩)
      · exact hget hnone
      · rcases hclean (Or.inr hwrite) with hall' | hmem'
        · exact hactive hall'
        · rw [hmem] at hmem'
          cases hmem'
    · intro hno hfails
      by_contra hchange
      obtain ⟨hactive, hmem⟩ := not_or.mp hchange
      refine hno (Or.inr ⟨hget, ?_, hactive, hfails.resolve_left hactive⟩)
      exact Bool.eq_true_of_not_eq_false hmem

/-! ## BB_FREE -/

/-- What is unchanged is held by whom it was held. -/
theorem Unchanged.held (h : Unchanged s s') (g : ℕ) (x : a64fx_task_allocation) :
    Held s'.dev g x ↔ Held s.dev g x := by
  unfold Held
  rw [h.task_list]

/-- A CPU that is not one of the blade's does not withdraw from it: the call leaves
preemption disabled and does nothing else. -/
theorem free_withdraw_not_member (hmem : a.cpumask.getLsbD c.cpu = false) :
    oss_a64fx_hwb_free_withdraw c cmg m a s = .ok (get_cpu s) := by
  unfold oss_a64fx_hwb_free_withdraw
  simp only [Machine.read_peinfo, cpumask_test_cpu, hmem, Bool.false_eq_true, if_false]
  rfl

/-- Without the blade a BB_FREE changes nothing. -/
theorem free_event_missing (hi : Inv l s.dev) (hlock : s.locks = Locks.free)
    {arg : UserArg fujitsu_hwb_ioc_bb_ctl} (he : e.request = .ioctl (.BB_FREE arg))
    (hno : ∀ m cmg a, ¬FreesBlade e s m cmg a) (h : handle e s = .ok (reply, s')) : s' = s := by
  cases hread : arg.read with
  | none =>
      rw [handle_unread (Or.inr (Or.inr ⟨arg, he, hread⟩))] at h
      cases h
      rfl
  | some ioc =>
      by_cases hlt : ioc.cmg.toNat < MAX_NUM_CMG
      · obtain ⟨cmg, hcmg⟩ : ∃ cmg : Fin MAX_NUM_CMG, cmg.val = ioc.cmg.toNat :=
          ⟨⟨ioc.cmg.toNat, hlt⟩, rfl⟩
        have hmiss := free_missing (c := e.call) hi.table hlock cmg ioc.bb.toNat ?_
        · rw [hcmg] at hmiss
          rw [free_event_eq he hread hmiss] at h
          cases h
          rfl
        · rintro a ⟨m, hm, hg, ha⟩ hc hb
          refine hno m cmg a ⟨arg, ioc, he, hread, hcmg.symm, hi.lists.get_taskmap hm hg, ?_⟩
          rw [← hb]
          exact get_allocation_of_mem hi.table hi.lists hm ha hc
      · -- past the array: it faults, or the group has no mapping
        by_cases hget : get_taskmap s.dev e.call.task = none
        · have hback : ({ s with locks := Locks.free } : Kernel) = s := by rw [← hlock]
          have hmiss : oss_a64fx_hwb_free e.call ioc.cmg.toNat ioc.bb.toNat s =
              .ok (-EINVAL, s) := by
            unfold oss_a64fx_hwb_free
            simp only [spin_lock_dev_free hlock, Loops.ok_bind, hget, pure_bind,
              spin_unlock_dev_held, hback]
            rfl
          rw [free_event_eq he hread hmiss] at h
          cases h
          rfl
        · obtain ⟨i, herr⟩ :=
            handle_freesOutside hlock ⟨arg, ioc, he, hread, not_lt.mp hlt, hget⟩
          rw [herr] at h
          cases h

/-- A BB_FREE that frees a blade returns 0 if it can write its argument back. -/
theorem free_event_err (hi : Inv l s.dev) (hlock : s.locks = Locks.free)
    {arg : UserArg fujitsu_hwb_ioc_bb_ctl} (he : e.request = .ioctl (.BB_FREE arg))
    (hf : FreesBlade e s m cmg a) (h : handle e s = .ok (reply, s')) :
    reply.err < 0 ↔ arg.writable = false := by
  obtain ⟨arg', ioc, he', hread, hcmg, hget, halloc⟩ := hf
  rw [he] at he'
  cases he'
  obtain ⟨hm, hg⟩ := mem_of_get_taskmap hget
  obtain ⟨ha, hc, hb⟩ := get_allocation_eq_some hi.table halloc
  -- the function behind it returns 0 either way
  obtain ⟨t, hfree⟩ : ∃ t, oss_a64fx_hwb_free e.call cmg.val a.blade s = .ok (0, t) := by
    by_cases hpid : e.call.task.pid = m.task.pid
    · obtain ⟨t, hok, -⟩ := free_by_owner (fun _ => True) hi hlock hm hg ha hc hpid trivial
      exact ⟨t, hok⟩
    · obtain ⟨t, hok, -⟩ := free_by_other (fun _ => True) hi hlock hm hg ha hc hpid
        (fun _ _ => trivial) fun _ _ => trivial
      exact ⟨t, hok⟩
  rw [hb, ← hcmg] at hfree
  rw [free_event_eq he hread hfree] at h
  cases h
  unfold free_reply
  cases hwrite : arg.writable with
  | true => simp
  | false => simp

/-- Freeing a blade, or leaving it, is a change. -/
theorem free_event_changed (hi : Inv l s.dev) (hlock : s.locks = Locks.free)
    (hf : FreesBlade e s m cmg a)
    (hin : e.call.task.pid = m.task.pid ∨ a.cpumask.getLsbD e.call.cpu = true)
    (h : handle e s = .ok (reply, s')) : ¬Unchanged s s' := by
  obtain ⟨hm, hg, ha, hc⟩ := freesBlade_mem hi hf
  have hheld : Held s.dev m.group a := ⟨m, hm, rfl, ha⟩
  have hdropped : Dropped a s s' → ¬Unchanged s s' := fun hdrop hun =>
    ((hdrop.held m.group a).mp ((hun.held _ _).mpr hheld)).2 rfl
  by_cases hpid : e.call.task.pid = m.task.pid
  · exact hdropped (freesBlade_owner hi hlock hf hpid h)
  have hmem := hin.resolve_left hpid
  by_cases hothers : ∃ k, k ≠ e.call.cpu ∧ a.cpumask.getLsbD k = true
  · -- the allocation is kept, with one CPU less
    obtain ⟨arg, ioc, he, hrest⟩ := hf
    obtain ⟨reply', t, x, hok, -, hx, hp, hcpus, -⟩ :=
      withdrawal_outcome hi hlock he ⟨arg, ioc, he, hrest⟩ hpid hmem hothers
    rw [h] at hok
    cases hok
    intro hun
    have hsame := (hi.unique ((hun.held _ _).mp hx) hheld hp).2
    rw [hsame] at hcpus
    exact ((hcpus e.call.cpu).mp hmem).2 rfl
  · refine hdropped ((freesBlade_other hi hlock hf hpid h).dropped hmem ?_)
    refine (eq_zero_iff _).mpr fun k => Bool.eq_false_iff.mpr fun hk => ?_
    rw [a64fx_task_allocation.getLsbD_leave, Bool.and_eq_true, Bool.not_eq_true',
      decide_eq_false_iff_not] at hk
    exact hothers ⟨k, fun heq => hk.2 heq.symm, hk.1⟩

theorem FreesBlade.unique {m' : a64fx_task_mapping} {cmg' : Fin MAX_NUM_CMG}
    {a' : a64fx_task_allocation} (h : FreesBlade e s m cmg a) (h' : FreesBlade e s m' cmg' a') :
    m' = m ∧ cmg' = cmg ∧ a' = a := by
  obtain ⟨arg, ioc, he, hread, hcmg, hget, halloc⟩ := h
  obtain ⟨arg', ioc', he', hread', hcmg', hget', halloc'⟩ := h'
  rw [he] at he'
  cases he'
  rw [hread] at hread'
  cases hread'
  rw [hget] at hget'
  cases hget'
  have hsame : cmg' = cmg := Fin.ext (hcmg'.symm.trans hcmg)
  subst hsame
  rw [halloc] at halloc'
  cases halloc'
  exact ⟨rfl, rfl, rfl⟩

/-- A blade that is freed is one of the machine. -/
theorem FreesBlade.not_outside (h : FreesBlade e s m cmg a) : ¬FreesOutside e s := by
  obtain ⟨arg, ioc, he, hread, hcmg, -⟩ := h
  rintro ⟨arg', ioc', he', hread', hge, -⟩
  rw [he] at he'
  cases he'
  rw [hread] at hread'
  cases hread'
  rw [hcmg] at hge
  exact absurd cmg.isLt (not_lt.mpr hge)

theorem free_fails_iff (hi : Inv l s.dev) (hlock : s.locks = Locks.free)
    {arg : UserArg fujitsu_hwb_ioc_bb_ctl} (he : e.request = .ioctl (.BB_FREE arg)) :
    FailsCleanly e s ↔ ¬FreeLeaves e s := by
  by_cases hex : ∃ m cmg a, FreesBlade e s m cmg a
  swap
  · refine iff_of_true (fun reply s' hok _ => ?_) ?_
    · rw [free_event_missing hi hlock he (fun m cmg a hf => hex ⟨m, cmg, a, hf⟩) hok]
      exact .refl s
    · rintro ⟨arg', m, cmg, a, -, -, hf, -⟩
      exact hex ⟨m, cmg, a, hf⟩
  obtain ⟨m, cmg, a, hf⟩ := hex
  by_cases hin : e.call.task.pid = m.task.pid ∨ a.cpumask.getLsbD e.call.cpu = true
  · constructor
    · rintro hclean ⟨arg', m', cmg', a', he', hwrite, -⟩
      rw [he] at he'
      cases he'
      obtain ⟨⟨reply, s'⟩, hok⟩ := free_event_ok hi hlock he hf.not_outside
      exact free_event_changed hi hlock hf hin hok
        (hclean reply s' hok ((free_event_err hi hlock he hf hok).mpr hwrite))
    · intro hno reply s' hok hneg
      exact absurd ⟨arg, m, cmg, a, he, (free_event_err hi hlock he hf hok).mp hneg, hf, hin⟩ hno
  · -- another thread, on a CPU that is not one of the blade's
    obtain ⟨hpid, hmem⟩ := not_or.mp hin
    refine iff_of_true (fun reply s' hok _ => ?_) ?_
    · obtain ⟨arg', ioc, he', hread, hcmg, hget, halloc⟩ := hf
      obtain ⟨hm, hg⟩ := mem_of_get_taskmap hget
      obtain ⟨ha, hc, hb⟩ := get_allocation_eq_some hi.table halloc
      have hfree := free_other_eq hi hlock hm hg ha hc hpid
        (free_withdraw_not_member (Bool.eq_false_iff.mpr hmem)) rfl
      rw [hb, ← hcmg] at hfree
      rw [free_event_eq he' hread hfree] at hok
      cases hok
      exact ⟨rfl, rfl, fun _ => rfl, fun _ _ => rfl, rfl⟩
    · rintro ⟨arg', m', cmg', a', -, -, hf', hin'⟩
      obtain ⟨rfl, rfl, rfl⟩ := hf.unique hf'
      exact hin hin'

/-! ## BW_ASSIGN and BW_UNASSIGN -/

theorem FindsBlade.unique {blade : ℤ} {m' : a64fx_task_mapping} {a' : a64fx_task_allocation}
    (h : FindsBlade c blade s m a) (h' : FindsBlade c blade s m' a') : m' = m ∧ a' = a := by
  have hm := h.mapping.symm.trans h'.mapping
  cases hm
  have ha := h.allocation.symm.trans h'.allocation
  cases ha
  exact ⟨rfl, rfl⟩

/-- A window that is taken is a change, -/
theorem not_unchanged_taken {k w : ℕ} (hw4 : w < MAX_BW_PER_CMG)
    (hfree : s.dev.bw (hw.cmg k) (hw.slot k) w = false) : ¬Unchanged s (taken c m k w a s) := by
  intro hun
  have hw64 : w < 4 := hw4
  have hset : (taken c m k w a s).dev.bw (hw.cmg k) (hw.slot k) w = true :=
    (bw_take_window (by omega) (hw.slot k) (hw.cmg k) (hw.slot k) w).mpr (Or.inr ⟨rfl, rfl, rfl⟩)
  rw [a64fx_hwb_device.bw, hun.bw_map, ← a64fx_hwb_device.bw, hfree] at hset
  exact Bool.noConfusion hset

/-- and so is one that is given back. -/
theorem not_unchanged_give_back {k w : ℕ}
    (hset : s.dev.bw (hw.cmg k) (hw.slot k) w = true) : ¬Unchanged s (give_back c m k w a s) := by
  intro hun
  have hsame : (give_back c m k w a s).dev.bw (hw.cmg k) (hw.slot k) w = true := by
    rw [a64fx_hwb_device.bw, hun.bw_map, ← a64fx_hwb_device.bw, hset]
  exact ((bw_give_window (hw.slot k) w _ (hw.cmg k) (hw.slot k) w).mp hsame).2 ⟨rfl, rfl, rfl⟩

/-- The reply to a request that was carried out is negative if it cannot be written. -/
theorem assign_reply_neg (arg : UserArg fujitsu_hwb_ioc_bw_ctl) (ioc : fujitsu_hwb_ioc_bw_ctl)
    (window : Option ℤ) : (assign_reply arg ioc (0, window)).err < 0 ↔ arg.writable = false := by
  unfold assign_reply
  cases hwrite : arg.writable with
  | true => simp
  | false => simp

theorem unassign_reply_neg (arg : UserArg fujitsu_hwb_ioc_bw_ctl)
    (ioc : fujitsu_hwb_ioc_bw_ctl) :
    (unassign_reply arg ioc 0).err < 0 ↔ arg.writable = false := by
  unfold unassign_reply
  cases hwrite : arg.writable with
  | true => simp
  | false => simp

/-- The blade that is found is the only one. -/
theorem assignLeaves_iff {arg : UserArg fujitsu_hwb_ioc_bw_ctl} {ioc : fujitsu_hwb_ioc_bw_ctl}
    (he : e.request = .ioctl (.BW_ASSIGN arg)) (hread : arg.read = some ioc)
    (hfinds : FindsBlade e.call ioc.bb.toNat s m a) :
    AssignLeaves e s ↔ arg.writable = false ∧ a.cpumask.getLsbD e.call.cpu = true ∧
      get_pemap s.dev (hw.cmg e.call.cpu) (hw.ppe e.call.cpu) ≠ none ∧
        ∃ w, Chooses e.call s a ioc.window.toInt w := by
  constructor
  · rintro ⟨arg', ioc', m', a', w, he', hread', hwrite, hfinds', hmem, hpe, hch⟩
    rw [he] at he'
    cases he'
    rw [hread] at hread'
    cases hread'
    obtain ⟨rfl, rfl⟩ := hfinds.unique hfinds'
    exact ⟨hwrite, hmem, hpe, w, hch⟩
  · rintro ⟨hwrite, hmem, hpe, w, hch⟩
    exact ⟨arg, ioc, m, a, w, he, hread, hwrite, hfinds, hmem, hpe, hch⟩

theorem unassignLeaves_iff {arg : UserArg fujitsu_hwb_ioc_bw_ctl} {ioc : fujitsu_hwb_ioc_bw_ctl}
    (he : e.request = .ioctl (.BW_UNASSIGN arg)) (hread : arg.read = some ioc)
    (hfinds : FindsBlade e.call ioc.bb.toNat s m a) :
    UnassignLeaves l e s ↔ arg.writable = false ∧ ∃ w, GivesBack l e.call s a w := by
  constructor
  · rintro ⟨arg', ioc', m', a', w, he', hread', hwrite, hfinds', hgives⟩
    rw [he] at he'
    cases he'
    rw [hread] at hread'
    cases hread'
    obtain ⟨rfl, rfl⟩ := hfinds.unique hfinds'
    exact ⟨hwrite, w, hgives⟩
  · rintro ⟨hwrite, w, hgives⟩
    exact ⟨arg, ioc, m, a, w, he, hread, hwrite, hfinds, hgives⟩

theorem assign_fails_iff (hi : Inv l s.dev) (hlock : s.locks = Locks.free)
    {arg : UserArg fujitsu_hwb_ioc_bw_ctl} (he : e.request = .ioctl (.BW_ASSIGN arg)) :
    FailsCleanly e s ↔ ¬AssignLeaves e s := by
  cases hread : arg.read with
  | none =>
      refine iff_of_true (failsCleanly_of_same (handle_unread (Or.inl ⟨arg, he, hread⟩))) ?_
      rintro ⟨arg', ioc, m, a, w, he', hread', -⟩
      rw [he] at he'
      cases he'
      rw [hread] at hread'
      cases hread'
  | some ioc =>
      have hev := assign_event_eq (s := s) he hread
      by_cases hfinds : ∃ m a, FindsBlade e.call ioc.bb.toNat s m a
      swap
      · obtain ⟨err, -, hfail⟩ := assign_not_found hlock ioc.window.toInt
          fun m a h => hfinds ⟨m, a, h⟩
        rw [hfail] at hev
        refine iff_of_true (failsCleanly_of_same hev) ?_
        rintro ⟨arg', ioc', m, a, w, he', hread', -, hfinds', -⟩
        rw [he] at he'
        cases he'
        rw [hread] at hread'
        cases hread'
        exact hfinds ⟨m, a, hfinds'⟩
      obtain ⟨m, a, hfinds⟩ := hfinds
      rw [assignLeaves_iff he hread hfinds]
      by_cases hmem : a.cpumask.getLsbD e.call.cpu = true
      swap
      · obtain ⟨err, -, hfail⟩ := assign_not_member hlock ioc.window.toInt hfinds
          (Bool.eq_false_iff.mpr hmem)
        rw [hfail] at hev
        exact iff_of_true (failsCleanly_of_same hev) fun h => hmem h.2.1
      by_cases hon : l.online.getLsbD e.call.cpu = true
      swap
      · have hoff := Bool.eq_false_iff.mpr hon
        rw [assign_no_entry hi.table hlock _ hfinds hmem hoff] at hev
        exact iff_of_true (failsCleanly_of_error hev)
          fun h => h.2.2.1 ((get_pemap_eq_none hi.table e.call).mpr hoff)
      have hpe : get_pemap s.dev (hw.cmg e.call.cpu) (hw.ppe e.call.cpu) ≠ none := by
        rw [get_pemap_online hi.table hon]
        exact Option.some_ne_none _
      have hout := assign_blade_outcome hi hlock ioc.window.toInt hfinds hmem hon
      generalize oss_a64fx_hwb_assign_blade e.call ioc.bb.toNat ioc.window.toInt s = result
        at hout hev
      cases hout with
      | trapped hge hnone =>
          -- a number past the word names no window
          refine iff_of_true (failsCleanly_of_error hev) ?_
          rintro ⟨-, -, -, w, hch⟩
          have hlt : w < 4 := hch.lt
          rcases hch.choice with heq | ⟨hneg, -⟩
          · omega
          · omega
      | failed err herr hno hwin =>
          exact iff_of_true (failsCleanly_of_same hev) fun ⟨_, _, _, w, hch⟩ => hno w hch
      | taken w hch =>
          have hchange := not_unchanged_taken (c := e.call) (m := m) (a := a) hch.lt hch.free
          rw [failsCleanly_of_ok hev, assign_reply_neg]
          constructor
          · rintro hclean ⟨hwrite, -⟩
            exact hchange (hclean hwrite)
          · intro hno hwrite
            exact absurd ⟨hwrite, hmem, hpe, w, hch⟩ hno

theorem unassign_fails_iff (hi : Inv l s.dev) (hlock : s.locks = Locks.free)
    {arg : UserArg fujitsu_hwb_ioc_bw_ctl} (he : e.request = .ioctl (.BW_UNASSIGN arg)) :
    FailsCleanly e s ↔ ¬UnassignLeaves l e s := by
  cases hread : arg.read with
  | none =>
      refine iff_of_true
        (failsCleanly_of_same (handle_unread (Or.inr (Or.inl ⟨arg, he, hread⟩)))) ?_
      rintro ⟨arg', ioc, m, a, w, he', hread', -⟩
      rw [he] at he'
      cases he'
      rw [hread] at hread'
      cases hread'
  | some ioc =>
      have hev := unassign_event_eq (s := s) he hread
      by_cases hfinds : ∃ m a, FindsBlade e.call ioc.bb.toNat s m a
      swap
      · obtain ⟨err, -, hfail⟩ := unassign_not_found hlock fun m a h => hfinds ⟨m, a, h⟩
        rw [hfail] at hev
        refine iff_of_true (failsCleanly_of_same hev) ?_
        rintro ⟨arg', ioc', m, a, w, he', hread', -, hfinds', -⟩
        rw [he] at he'
        cases he'
        rw [hread] at hread'
        cases hread'
        exact hfinds ⟨m, a, hfinds'⟩
      obtain ⟨m, a, hfinds⟩ := hfinds
      rw [unassignLeaves_iff he hread hfinds]
      by_cases hon : l.online.getLsbD e.call.cpu = true
      swap
      · rw [unassign_no_entry hi.table hlock hfinds (Bool.eq_false_iff.mpr hon)] at hev
        exact iff_of_true (failsCleanly_of_error hev) fun ⟨_, w, hgives⟩ => hon hgives.recorded.1
      rcases unassign_blade_outcome hi hlock hfinds hon with ⟨w, hgives, heq⟩ | ⟨hno, err, -, heq⟩
      swap
      · rw [heq] at hev
        exact iff_of_true (failsCleanly_of_same hev) fun ⟨_, w, hgives⟩ => hno w hgives
      rw [heq] at hev
      obtain ⟨hm, hg, ha, hc, -⟩ := hfinds.mem hi
      have hset := hi.bw_of_records ⟨m, hm, rfl, ha⟩ hgives.recorded
      have hchange := not_unchanged_give_back (c := e.call) (m := m) (a := a) hset
      rw [failsCleanly_of_ok hev, unassign_reply_neg]
      constructor
      · rintro hclean ⟨hwrite, -⟩
        exact hchange (hclean hwrite)
      · intro hno hwrite
        exact absurd ⟨hwrite, w, hgives⟩ hno

/-! ## All four -/

/-- **When a failed request has changed nothing**: unless a BB_ALLOC has created the
mapping of its group before it found all blades active, or a request that was
carried out could not copy its argument back. -/
theorem fails_cleanly_iff (h : (driver l R).Reachable s) (he : e.OnBlades) :
    FailsCleanly e s ↔ ¬LeavesBehind l e s := by
  obtain ⟨hi, hlock⟩ := reachable_inv h
  -- the three other kinds of request are excluded
  unfold LeavesBehind
  rcases he with ⟨arg, he⟩ | ⟨arg, he⟩ | ⟨arg, he⟩ | ⟨arg, he⟩
  · rw [alloc_fails_iff hi hlock he]
    refine not_congr ⟨Or.inl, ?_⟩
    rintro (h | ⟨arg', m, cmg, a, he', -⟩ | ⟨arg', ioc, m, a, w, he', -⟩ |
      ⟨arg', ioc, m, a, w, he', -⟩)
    · exact h
    all_goals
      rw [he] at he'
      cases he'
  · rw [free_fails_iff hi hlock he]
    refine not_congr ⟨fun h => Or.inr (Or.inl h), ?_⟩
    rintro (⟨arg', ioc, mask, cmg, he', -⟩ | h | ⟨arg', ioc, m, a, w, he', -⟩ |
      ⟨arg', ioc, m, a, w, he', -⟩)
    · rw [he] at he'
      cases he'
    · exact h
    all_goals
      rw [he] at he'
      cases he'
  · rw [assign_fails_iff hi hlock he]
    refine not_congr ⟨fun h => Or.inr (Or.inr (Or.inl h)), ?_⟩
    rintro (⟨arg', ioc, mask, cmg, he', -⟩ | ⟨arg', m, cmg, a, he', -⟩ | h |
      ⟨arg', ioc, m, a, w, he', -⟩)
    · rw [he] at he'
      cases he'
    · rw [he] at he'
      cases he'
    · exact h
    · rw [he] at he'
      cases he'
  · rw [unassign_fails_iff hi hlock he]
    refine not_congr ⟨fun h => Or.inr (Or.inr (Or.inr h)), ?_⟩
    rintro (⟨arg', ioc, mask, cmg, he', -⟩ | ⟨arg', m, cmg, a, he', -⟩ |
      ⟨arg', ioc, m, a, w, he', -⟩ | h)
    · rw [he] at he'
      cases he'
    · rw [he] at he'
      cases he'
    · rw [he] at he'
      cases he'
    · exact h

/-- A mask of one CPU is refused, and nothing is left behind. -/
theorem fails_cleanly_one_cpu :
    FailsCleanly (Quad.alloc Quad.other 0 0x1) (after Quad.load [Quad.alloc Quad.first 0 0x3]) := by
  have hreach : (driver Quad.load fun _ => True).Reachable
      (after Quad.load [Quad.alloc Quad.first 0 0x3]) :=
    reachable_after trivial (by decide +kernel) (by decide)
  refine (fails_cleanly_iff hreach (Or.inl ⟨_, rfl⟩)).mpr ?_
  rintro (⟨arg, ioc, mask, cmg, he, -, hmask, hcheck, -⟩ | ⟨arg, m, cmg, a, he, -⟩ |
    ⟨arg, ioc, m, a, w, he, -⟩ | ⟨arg, ioc, m, a, w, he, -⟩)
  · cases he
    cases hmask
    have hval : check_cpumask (Quad.alloc Quad.other 0 0x1).call.online
        (after Quad.load [Quad.alloc Quad.first 0 0x3]).dev 0x1 = -22 := by decide +kernel
    have hpos : (0 : ℤ) ≤ cmg.val := Int.natCast_nonneg _
    omega
  · cases he
  · cases he
  · cases he

/-- The six blades of CMG 0 are taken: the next BB_ALLOC, of another process, fails
and leaves a mapping for it. -/
theorem failed_alloc_leaves_mapping :
    (driver Quad.load fun _ => True).Reachable (after Quad.load (List.replicate 6
        (Quad.alloc Quad.first 0 0x3))) ∧
      ¬FailsCleanly (Quad.alloc Quad.other 0 0x3) (after Quad.load (List.replicate 6
        (Quad.alloc Quad.first 0 0x3))) := by
  refine ⟨reachable_after trivial (by decide +kernel) (by decide), fun hclean => ?_⟩
  have hrun : (match handle (Quad.alloc Quad.other 0 0x3) (after Quad.load (List.replicate 6
        (Quad.alloc Quad.first 0 0x3))) with
    | .ok x => decide (x.1.err = -19 ∧ x.2.dev.num_tasks = 2)
    | .error _ => false) = true := by
    decide +kernel
  have htasks : (after Quad.load (List.replicate 6
      (Quad.alloc Quad.first 0 0x3))).dev.num_tasks = 1 := by
    decide +kernel
  split at hrun
  · rename_i x hok
    obtain ⟨herr, hcount⟩ := of_decide_eq_true hrun
    have hsame := (hclean x.1 x.2 hok (by omega)).num_tasks
    omega
  · exact Bool.noConfusion hrun

end A64fxHwb
