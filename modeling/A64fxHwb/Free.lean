/-
BB_FREE, and the release of a mapping by close.

A BB_FREE of the thread in the mapping releases the blade; one of another thread
of the group takes the caller's CPU out of it, together with the window the CPU
has there, and releases it with the last CPU. Both end with `unregister_if_empty`.
The theorems give the result of each branch, and the path of small steps that
leads to it.
-/
import A64fxHwb.Release

set_option autoImplicit false

namespace A64fxHwb

open BitWord Relation Runs

variable {hw : Machine} {l : Load hw} {c : Call hw} {ok : Kind → Prop} {s s' : Kernel}

/-! ## After a release -/

/-- The allocation's place is free afterwards, every other one is held as before,
and the blade registers are as they were. -/
structure Dropped (a : a64fx_task_allocation) (s s' : Kernel) : Prop where
  held : ∀ g x, Held s'.dev g x ↔ Held s.dev g x ∧ x.place ≠ a.place
  init_sync_bb : s'.regs.init_sync_bb = s.regs.init_sync_bb
  active_count : s'.dev.active_count = s.dev.active_count
  locks : s'.locks = s.locks

/-- The mapping the check looks at is there, and unlinking it when it is empty
takes nothing from anybody. -/
theorem unregister_if_empty_spec (l : Load hw) (ok : Kind → Prop) {tm m : a64fx_task_mapping}
    (hl : Lists s.dev) (hm : m ∈ s.dev.task_list) (hgm : m.group = tm.group)
    (hg : tm.group = c.task.tgid) :
    ∃ s', unregister_if_empty c tm s = .ok s' ∧ ReflTransGen (Micro l c ok) s s' ∧
      (∀ g x, Held s'.dev g x ↔ Held s.dev g x) ∧ s'.regs = s.regs ∧
      s'.dev.active_count = s.dev.active_count ∧ s'.locks = s.locks := by
  refine ⟨_, unregister_if_empty_ok hl hm hgm, ?_⟩
  by_cases hempty : m.allocs = []
  · rw [if_pos hempty]
    exact ⟨.single (.unmap_group m hm (hgm.trans hg) hempty), held_unmap_group hl hm hempty,
      rfl, rfl, rfl⟩
  · rw [if_neg hempty]
    exact ⟨.refl, fun _ _ => Iff.rfl, rfl, rfl, rfl⟩

/-- What is held once `free_allocation` has run. -/
theorem Released.held (hi : Inv l s.dev) {tm : a64fx_task_mapping} {a : a64fx_task_allocation}
    (ha : Held s.dev tm.group a) (hr : Released tm a s s') (g : ℕ) (x : a64fx_task_allocation) :
    Held s'.dev g x ↔ Held s.dev g x ∧ x.place ≠ a.place := by
  have h := hi.held_drop (c := ⟨0, by decide⟩) ha g x
  unfold Held at h ⊢
  rw [hr.task_list]
  exact h

/-- The mapping is still linked after `free_allocation`. -/
theorem Released.mapping (hl : Lists s.dev) {tm : a64fx_task_mapping} {a : a64fx_task_allocation}
    (ha : Held s.dev tm.group a) (hr : Released tm a s s') :
    ∃ m ∈ s'.dev.task_list, m.group = tm.group := by
  obtain ⟨m, hm, hgm, -⟩ := ha
  refine ⟨m.drop a.place, ?_, hgm⟩
  rw [hr.task_list]
  exact (Keyed.mem_modify hl.groups hm hgm _).mpr (Or.inr rfl)

/-- **A release by the thread in the mapping.** -/
theorem release_spec {tm : a64fx_task_mapping} {a : a64fx_task_allocation} {cmg : Fin MAX_NUM_CMG}
    (hi : Inv l s.dev) (hg : tm.group = c.task.tgid) (ha : Held s.dev tm.group a)
    (hc : a.cmg = cmg.val) (hok : ok .release) :
    ∃ t s', free_allocation c cmg tm a s = .ok t ∧ unregister_if_empty c tm t = .ok s' ∧
      ReflTransGen (Micro l c ok) s s' ∧ Dropped a s s' := by
  obtain ⟨t, hfree, hpath, hrel⟩ := free_allocation_spec hi hg ha hc hok
  have hit : Inv l t.dev := path_inv hi hpath
  obtain ⟨m, hm, hgm⟩ := hrel.mapping hi.lists ha
  obtain ⟨s', hun, hpath', hheld, hregs, hcount, hlocks⟩ :=
    unregister_if_empty_spec l ok hit.lists hm hgm hg
  refine ⟨t, s', hfree, hun, hpath.trans hpath', ?_, ?_, hcount.trans hrel.active_count,
    hlocks.trans hrel.locks⟩
  · intro g x
    rw [hheld, hrel.held hi ha]
  · rw [hregs]
    exact hrel.init_sync_bb

/-! ## Withdrawing one CPU -/

theorem cpumask_to_ppemask_zero (cmg : a64fx_cmg_device) : cpumask_to_ppemask cmg 0 = 0 := by
  have h : for_each_cpu (0 : cpumask_t) = [] := List.length_eq_zero_iff.mp weight_zero
  unfold cpumask_to_ppemask
  rw [h]
  rfl

/-- Storing an allocation before dropping its place makes no difference. -/
theorem drop_store_alloc (d : a64fx_hwb_device) (tm : a64fx_task_mapping) (cmg : Fin MAX_NUM_CMG)
    {a a' : a64fx_task_allocation} (hp : a'.place = a.place) :
    (d.store_alloc tm a').drop_alloc tm cmg a' = d.drop_alloc tm cmg a := by
  have hb : a'.blade = a.blade := congrArg Prod.snd hp
  have hlist : Keyed.modify a64fx_task_mapping.group tm.group (a64fx_task_mapping.drop a'.place)
        (d.store_alloc tm a').task_list =
      Keyed.modify a64fx_task_mapping.group tm.group (a64fx_task_mapping.drop a.place)
        d.task_list := by
    -- two changes of one mapping, of which the second does not look at the first
    refine (Keyed.modify_modify (by intro _ hx; exact hx) _ _).trans ?_
    refine Keyed.modify_congr fun m _ => ?_
    rw [← hp]
    exact drop_absorbs a'.place m a' rfl
  have hdrop : (d.store_alloc tm a').drop_alloc tm cmg a' =
      { d.drop_alloc tm cmg a with
        cmgs := ((d.store_alloc tm a').drop_alloc tm cmg a').cmgs
        task_list := Keyed.modify a64fx_task_mapping.group tm.group
          (a64fx_task_mapping.drop a'.place) (d.store_alloc tm a').task_list } := rfl
  rw [hdrop, hlist]
  unfold a64fx_hwb_device.drop_alloc
  rw [hb]
  rfl

/-- A CPU that leaves last and has no window leaves no window behind: every CPU with
one is among the blade's. -/
theorem Sane.assign_mask_of_last {a : a64fx_task_allocation} (hs : Sane l a) {k : ℕ}
    (hfree : a.assign_mask.getLsbD k = false) (hzero : (a.leave k).cpumask = 0) :
    a.assign_mask = 0 := by
  refine (eq_zero_iff _).mpr fun k' => Bool.eq_false_iff.mpr fun hk' => ?_
  have hne : k ≠ k' := by
    rintro rfl
    rw [hfree] at hk'
    exact Bool.noConfusion hk'
  have hbit := (eq_zero_iff _).mp hzero k'
  simp only [a64fx_task_allocation.getLsbD_leave, hs.subset k' hk', hne] at hbit
  exact Bool.noConfusion hbit

/-- Another CPU of the mask keeps it from being empty. -/
theorem leave_cpumask_ne_zero {a : a64fx_task_allocation} {k : ℕ}
    (h : ∃ k', k' ≠ k ∧ a.cpumask.getLsbD k' = true) : (a.leave k).cpumask ≠ 0 := by
  intro hzero
  obtain ⟨k', hk', hbit⟩ := h
  have hclear := (eq_zero_iff _).mp hzero k'
  simp only [a64fx_task_allocation.getLsbD_leave, hbit, hk'.symm] at hclear
  exact Bool.noConfusion hclear

/-- The caller's CPU, which has no window, has left the blade of the allocation `a`.
With another CPU left the allocation stays with the smaller mask; with none it is
released. No window register is written. -/
structure Left (c : Call hw) (g : ℕ) (a : a64fx_task_allocation) (s s' : Kernel) : Prop where
  assign_sync_wr : s'.regs.assign_sync_wr = s.regs.assign_sync_wr
  locks : s'.locks = s.locks
  active_count : s'.dev.active_count = s.dev.active_count
  kept : (a.leave c.cpu).cpumask ≠ 0 → Held s'.dev g (a.leave c.cpu)
  dropped : (a.leave c.cpu).cpumask = 0 → Dropped a s s'
  assign_mask : ∀ g' x, Held s'.dev g' x → x.place = a.place → x.assign_mask = a.assign_mask

/-- The state in which `oss_a64fx_hwb_free_leave` looks at the smaller mask. -/
def with_left (c : Call hw) (cmg : Fin MAX_NUM_CMG) (tm : a64fx_task_mapping)
    (a : a64fx_task_allocation) (s : Kernel) : Kernel :=
  { arm_blade c cmg a.blade (cpumask_to_ppemask (s.dev.cmgs cmg) (a.leave c.cpu).cpumask) s with
    dev := s.dev.store_alloc tm (a.leave c.cpu) }

theorem free_leave_eq (cmg : Fin MAX_NUM_CMG) (tm : a64fx_task_mapping)
    (a : a64fx_task_allocation) (s : Kernel) :
    oss_a64fx_hwb_free_leave c cmg tm a s =
      if cpumask_weight (a.leave c.cpu).cpumask = 0 then do
        let t ← free_allocation c cmg tm (a.leave c.cpu) (with_left c cmg tm a s)
        unregister_if_empty c tm t
      else .ok (with_left c cmg tm a s) := rfl

/-- The last CPU leaves: the register write is refused and nothing is left to
unassign. -/
theorem free_leave_last_eq {tm : a64fx_task_mapping} {a : a64fx_task_allocation}
    {cmg : Fin MAX_NUM_CMG} (hi : Inv l s.dev) (ha : Held s.dev tm.group a) (hc : a.cmg = cmg.val)
    (hfree : a.assign_mask.getLsbD c.cpu = false) (hzero : (a.leave c.cpu).cpumask = 0) :
    oss_a64fx_hwb_free_leave c cmg tm a s =
      unregister_if_empty c tm { s with dev := s.dev.drop_alloc tm cmg a } := by
  have hs := hi.sane _ a ha
  have hmask : a.assign_mask = 0 := hs.assign_mask_of_last hfree hzero
  have hbit : ({ s with dev := s.dev.store_alloc tm (a.leave c.cpu) } : Kernel).dev.bb cmg
      (a.leave c.cpu).blade = true := hi.bb_of_held ha hc
  have hfreed : free_allocation c cmg tm (a.leave c.cpu)
        { s with dev := s.dev.store_alloc tm (a.leave c.cpu) } =
      .ok { s with dev := s.dev.drop_alloc tm cmg a } := by
    refine (@free_allocation_zero hw c _ tm (a.leave c.cpu) cmg
      (lt_trans hs.blade_lt (by decide)) hbit hmask).trans ?_
    simp only [drop_store_alloc s.dev tm cmg (a.place_leave c.cpu)]
  rw [free_leave_eq, if_pos ((weight_eq_zero_iff _).mpr hzero), with_left, hzero,
    cpumask_to_ppemask_zero, arm_blade_zero, hfreed]
  rfl

theorem free_leave_last {tm : a64fx_task_mapping} {a : a64fx_task_allocation}
    {cmg : Fin MAX_NUM_CMG} (hi : Inv l s.dev) (hg : tm.group = c.task.tgid)
    (ha : Held s.dev tm.group a) (hc : a.cmg = cmg.val)
    (hfree : a.assign_mask.getLsbD c.cpu = false) (hzero : (a.leave c.cpu).cpumask = 0)
    (hok : ok .release) :
    ∃ s', oss_a64fx_hwb_free_leave c cmg tm a s = .ok s' ∧ ReflTransGen (Micro l c ok) s s' ∧
      s'.regs = s.regs ∧ Dropped a s s' := by
  have hmask : a.assign_mask = 0 := (hi.sane _ a ha).assign_mask_of_last hfree hzero
  have hmicro : Micro l c ok s { s with dev := s.dev.drop_alloc tm cmg a } :=
    .give_blade tm cmg a hg ha hc hmask hok
  have hit := hmicro.inv hi
  have hdropped : Released tm a s { s with dev := s.dev.drop_alloc tm cmg a } :=
    ⟨rfl, rfl, rfl, rfl, rfl, rfl⟩
  obtain ⟨m, hm, hgm⟩ := hdropped.mapping hi.lists ha
  obtain ⟨s', hun, hpath, hheld, hregs, hcount, hlocks⟩ :=
    unregister_if_empty_spec l ok hit.lists hm hgm hg
  refine ⟨s', (free_leave_last_eq hi ha hc hfree hzero).trans hun,
    (ReflTransGen.single hmicro).trans hpath, by rw [hregs],
    ⟨fun g x => ?_, by rw [hregs], hcount, hlocks⟩⟩
  rw [hheld, hdropped.held hi ha]

/-- **The caller's CPU leaves the blade.** -/
theorem free_leave_spec {tm : a64fx_task_mapping} {a : a64fx_task_allocation}
    {cmg : Fin MAX_NUM_CMG} (hi : Inv l s.dev) (hg : tm.group = c.task.tgid)
    (ha : Held s.dev tm.group a) (hc : a.cmg = cmg.val) (hmem : a.cpumask.getLsbD c.cpu = true)
    (hfree : a.assign_mask.getLsbD c.cpu = false)
    (hok : (a.leave c.cpu).cpumask = 0 → ok .release) :
    ∃ s', oss_a64fx_hwb_free_leave c cmg tm a s = .ok s' ∧ ReflTransGen (Micro l c ok) s s' ∧
      Left c tm.group a s s' := by
  by_cases hzero : (a.leave c.cpu).cpumask = 0
  · obtain ⟨s', hleave, hpath, hregs, hdrop⟩ := free_leave_last hi hg ha hc hfree hzero (hok hzero)
    refine ⟨s', hleave, hpath, by rw [hregs], hdrop.locks, hdrop.active_count,
      fun h => absurd hzero h, fun _ => hdrop, fun g x hx hp => ?_⟩
    exact absurd hp ((hdrop.held g x).mp hx).2
  · have hweight : ¬cpumask_weight (a.leave c.cpu).cpumask = 0 :=
      fun h => hzero ((weight_eq_zero_iff _).mp h)
    refine ⟨with_left c cmg tm a s, by rw [free_leave_eq, if_neg hweight],
      .single (.leave_blade tm cmg a hg ha hc hmem hfree hzero),
      arm_blade_assign_sync_wr _ _ _ _, rfl, rfl, fun _ => ?_,
      fun h => absurd h hzero, fun g x hx hp => ?_⟩
    · exact (hi.held_store ha (a.place_leave c.cpu) _ _).mpr (Or.inr ⟨rfl, rfl⟩)
    · rcases (hi.held_store ha (a.place_leave c.cpu) g x).mp hx with ⟨-, hne⟩ | ⟨-, rfl⟩
      · exact absurd hp hne
      · rfl

/-- The caller's window goes first: the bookkeeping gives back the recorded
window, the register write goes to window 0. -/
theorem free_unassign_ok (ht : Table l s.dev) (tm : a64fx_task_mapping)
    {a : a64fx_task_allocation} {w : ℕ} (hr : Records l a c.cpu w) (hw4 : w < MAX_BW_PER_CMG) :
    ∃ win_blades, oss_a64fx_hwb_free_unassign c (hw.cmg c.cpu) (some (hw.slot c.cpu)) tm a s =
      .ok (a.give (hw.slot c.cpu) c.cpu, { set_wr c c.cpu 0 0 0 s with
        dev := s.dev.give_window tm (hw.cmg c.cpu) (hw.slot c.cpu) w win_blades
          (a.give (hw.slot c.cpu) c.cpu) }) := by
  have hw64 : w < 4 := hw4
  obtain ⟨hcpu, -, hppe⟩ := ht.entry hr.1
  have hptr : win_blades_ptr (w : ℤ) = .ok ⟨w, hw4⟩ := by
    unfold win_blades_ptr
    rw [dif_pos ⟨by omega, by exact_mod_cast hw64⟩]
    rfl
  refine ⟨Function.update ((s.dev.cmgs (hw.cmg c.cpu)).pe_map (hw.slot c.cpu)).win_blades
    ⟨w, hw4⟩ A64FX_HWB_UNASSIGNED_WIN, ?_⟩
  unfold oss_a64fx_hwb_free_unassign
  simp only [pemap_deref, hcpu, hppe, window_ptr_ppe (l.online_present _ hr.1), Loops.ok_bind,
    hr.2.2, clear_bit_ok (show w < 64 by omega), hptr, smp_assign]
  rfl

/-- What a BB_FREE of another thread of group `g` does to the allocation `a`. The
caller's CPU leaves the blade, if it is among its CPUs. The blade survives it when
another CPU is left, and of the window registers only register 0 of the caller's
CPU is written. -/
structure Withdrawn (c : Call hw) (g : ℕ) (a : a64fx_task_allocation) (s s' : Kernel) : Prop where
  active_count : s'.dev.active_count = s.dev.active_count
  cleared : a.assign_mask.getLsbD c.cpu = true → s'.regs.assign_sync_wr =
    Function.update s.regs.assign_sync_wr c.cpu
      (Function.update (s.regs.assign_sync_wr c.cpu) 0 (assign_sync_wr_val 0 0))
  kept : (∃ k, k ≠ c.cpu ∧ a.cpumask.getLsbD k = true) → ∃ x, Held s'.dev g x ∧ x.place = a.place
  dropped : a.cpumask.getLsbD c.cpu = true → (a.leave c.cpu).cpumask = 0 → Dropped a s s'
  unassigned : ∀ g' x, Held s'.dev g' x → x.place = a.place → x.assign_mask.getLsbD c.cpu = false

/-- What is left of a window that goes before the CPU does. -/
theorem Dropped.of_give {tm : a64fx_task_mapping} {a : a64fx_task_allocation} {t : Kernel}
    {j : Fin MAX_PE_PER_CMG} {k : ℕ} (hi : Inv l s.dev) (ha : Held s.dev tm.group a)
    (hheld : ∀ g x, Held t.dev g x ↔ Held (s.dev.store_alloc tm (a.give j k)) g x)
    (hbb : t.regs.init_sync_bb = s.regs.init_sync_bb)
    (hcount : t.dev.active_count = s.dev.active_count) (hlocks : t.locks = s.locks)
    (hd : Dropped (a.give j k) t s') : Dropped a s s' := by
  have hplace := a.place_give j k
  refine ⟨fun g x => ?_, hd.init_sync_bb.trans hbb, hd.active_count.trans hcount,
    hd.locks.trans hlocks⟩
  rw [hd.held, hheld, hi.held_store ha hplace]
  constructor
  · rintro ⟨⟨hx, -⟩ | ⟨-, rfl⟩, hne⟩
    · exact ⟨hx, hne⟩
    · exact absurd rfl hne
  · rintro ⟨hx, hne⟩
    exact ⟨Or.inl ⟨hx, hne⟩, hne⟩

/-- The caller's CPU has a window for the blade: it goes first, with the write to
register 0. -/
theorem free_withdraw_assigned {tm : a64fx_task_mapping} {a : a64fx_task_allocation}
    {cmg : Fin MAX_NUM_CMG} (hi : Inv l s.dev) (hg : tm.group = c.task.tgid)
    (ha : Held s.dev tm.group a) (hc : a.cmg = cmg.val)
    (hmem : a.cpumask.getLsbD c.cpu = true) (hassign : a.assign_mask.getLsbD c.cpu = true)
    (hmis : a.window (hw.slot c.cpu) ≠ 0 → ok .misdirected)
    (hrel : (a.leave c.cpu).cpumask = 0 → ok .release) :
    ∃ s', oss_a64fx_hwb_free_withdraw c cmg tm a s = .ok s' ∧ ReflTransGen (Micro l c ok) s s' ∧
      s'.locks = s.locks ∧ Withdrawn c tm.group a s s' := by
  have hget : Micro l c ok s (get_cpu s) := .locks s.locks (s.preempt_count + 1)
  obtain ⟨w, hw4, hr⟩ := (hi.sane _ a ha).recorded hassign
  obtain ⟨wb, hun⟩ := free_unassign_ok (c := c) (s := get_cpu s) hi.table tm hr hw4
  have hwin : a.window (hw.slot c.cpu) = w := hr.2.2
  have hmicro : Micro l c ok (get_cpu s) { set_wr c c.cpu 0 0 0 (get_cpu s) with
      dev := (get_cpu s).dev.give_window tm (hw.cmg c.cpu) (hw.slot c.cpu) w wb
        (a.give (hw.slot c.cpu) c.cpu) } := by
    refine .give_window tm a c.cpu w 0 wb hg ha hr ?_
    by_cases hw0 : w = 0
    · exact Or.inl hw0.symm
    · exact Or.inr ⟨rfl, hmis (by rw [hwin]; exact_mod_cast hw0)⟩
  have hi₁ := Micro.inv (s := get_cpu s) hi hmicro
  have hplace := a.place_give (hw.slot c.cpu) c.cpu
  have ha₁ : Held ((get_cpu s).dev.give_window tm (hw.cmg c.cpu) (hw.slot c.cpu) w wb
      (a.give (hw.slot c.cpu) c.cpu)) tm.group (a.give (hw.slot c.cpu) c.cpu) :=
    (hi.held_store ha hplace _ _).mpr (Or.inr ⟨rfl, rfl⟩)
  have hfree : (a.give (hw.slot c.cpu) c.cpu).assign_mask.getLsbD c.cpu = false := by
    simp [a64fx_task_allocation.give]
  obtain ⟨s', hleave, hpath, hleft⟩ := free_leave_spec hi₁ hg ha₁ hc hmem hfree hrel
  have hregs : s'.regs.assign_sync_wr = Function.update s.regs.assign_sync_wr c.cpu
      (Function.update (s.regs.assign_sync_wr c.cpu) 0 (assign_sync_wr_val 0 0)) :=
    hleft.assign_sync_wr.trans
      (set_wr_assign_sync_wr c.cpu_online (by decide) (by decide) 0 (get_cpu s))
  refine ⟨s', ?_, ((ReflTransGen.single hget).tail hmicro).trans hpath, hleft.locks,
    hleft.active_count, fun _ => hregs, fun h => ⟨_, hleft.kept (leave_cpumask_ne_zero h), rfl⟩,
    fun _ h0 => ?_, fun g x hx hp => ?_⟩
  · unfold oss_a64fx_hwb_free_withdraw
    have hpe : get_pemap (get_cpu s).dev (hw.cmg c.cpu) (hw.ppe c.cpu) =
        some (hw.slot c.cpu) := get_pemap_online hi.table hr.1
    simp only [Machine.read_peinfo, cpumask_test_cpu, hmem, if_true, hassign, hpe, hun,
      Loops.ok_bind]
    exact hleave
  · refine Dropped.of_give hi ha (fun _ _ => Iff.rfl) ?_ ?_ ?_ (hleft.dropped h0)
    · exact set_wr_init_sync_bb _ _ _ _ _
    · rfl
    · rfl
  · rw [hleft.assign_mask g x hx hp]
    exact hfree

/-- **A BB_FREE of another thread of the group.** -/
theorem free_withdraw_spec {tm : a64fx_task_mapping} {a : a64fx_task_allocation}
    {cmg : Fin MAX_NUM_CMG} (hi : Inv l s.dev) (hg : tm.group = c.task.tgid)
    (ha : Held s.dev tm.group a) (hc : a.cmg = cmg.val)
    (hmis : a.assign_mask.getLsbD c.cpu = true → a.window (hw.slot c.cpu) ≠ 0 → ok .misdirected)
    (hrel : a.cpumask.getLsbD c.cpu = true → (a.leave c.cpu).cpumask = 0 → ok .release) :
    ∃ s', oss_a64fx_hwb_free_withdraw c cmg tm a s = .ok s' ∧ ReflTransGen (Micro l c ok) s s' ∧
      s'.locks = s.locks ∧ Withdrawn c tm.group a s s' := by
  have hget : Micro l c ok s (get_cpu s) := .locks s.locks (s.preempt_count + 1)
  by_cases hassign : a.assign_mask.getLsbD c.cpu = true
  · have hmem := (hi.sane _ a ha).subset _ hassign
    exact free_withdraw_assigned hi hg ha hc hmem hassign (hmis hassign) (hrel hmem)
  have hfree := Bool.eq_false_iff.mpr hassign
  by_cases hmem : a.cpumask.getLsbD c.cpu = true
  · -- no window to give back
    obtain ⟨s', hleave, hpath, hleft⟩ :=
      free_leave_spec (s := get_cpu s) hi hg ha hc hmem hfree (hrel hmem)
    refine ⟨s', ?_, (ReflTransGen.single hget).trans hpath, hleft.locks, hleft.active_count,
      fun h => absurd h hassign, fun h => ⟨_, hleft.kept (leave_cpumask_ne_zero h), rfl⟩,
      fun _ h0 => ?_, fun g x hx hp => ?_⟩
    · unfold oss_a64fx_hwb_free_withdraw
      simp only [Machine.read_peinfo, cpumask_test_cpu, hmem, if_true, hfree, Bool.false_eq_true,
        if_false, pure_bind]
      exact hleave
    · have hdrop := hleft.dropped h0
      exact ⟨hdrop.held, hdrop.init_sync_bb, hdrop.active_count, hdrop.locks⟩
    · rw [hleft.assign_mask g x hx hp]
      exact hfree
  · -- not one of the blade's CPUs: only the preemption count has changed
    refine ⟨get_cpu s, ?_, .single hget, rfl, rfl, fun h => absurd h hassign,
      fun _ => ⟨a, ha, rfl⟩, fun h => absurd h hmem, fun g x hx hp => ?_⟩
    · unfold oss_a64fx_hwb_free_withdraw
      simp only [Machine.read_peinfo, cpumask_test_cpu, Bool.eq_false_iff.mpr hmem,
        Bool.false_eq_true, if_false]
      rfl
    · rw [(hi.unique hx ha hp).2]
      exact hfree

/-! ## BB_FREE under its lock -/

/-- Nothing to free: the group has no mapping, or none for the blade. -/
theorem free_missing (ht : Table l s.dev) (hlock : s.locks = Locks.free)
    (cmg : Fin MAX_NUM_CMG) (blade : ℤ)
    (hno : ∀ a, Held s.dev c.task.tgid a → a.cmg = cmg.val → (a.blade : ℤ) ≠ blade) :
    oss_a64fx_hwb_free c cmg.val blade s = .ok (-EINVAL, s) := by
  have hback : ({ s with locks := Locks.free } : Kernel) = s := by rw [← hlock]
  unfold oss_a64fx_hwb_free
  simp only [spin_lock_dev_free hlock, Loops.ok_bind]
  cases hget : get_taskmap s.dev c.task with
  | none =>
      simp only [pure_bind, spin_unlock_dev_held, Loops.ok_bind, hback]
      rfl
  | some m =>
      obtain ⟨hm, hg⟩ := mem_of_get_taskmap hget
      have hnone : get_allocation (s.dev.cmgs cmg) m blade = none :=
        (get_allocation_eq_none ht).mpr fun a ha => hno a ⟨m, hm, hg, ha⟩
      unfold oss_a64fx_hwb_free_blade
      simp only [cmgs_ptr_ok, Loops.ok_bind, hnone, pure_bind, spin_unlock_dev_held, hback]
      rfl

/-- What BB_FREE makes of the branch for the thread in the mapping. -/
theorem free_owner_eq (hi : Inv l s.dev) (hlock : s.locks = Locks.free) {m : a64fx_task_mapping}
    (hm : m ∈ s.dev.task_list) (hg : m.group = c.task.tgid) {a : a64fx_task_allocation}
    (ha : a ∈ m.allocs) {cmg : Fin MAX_NUM_CMG} (hc : a.cmg = cmg.val)
    (hpid : c.task.pid = m.task.pid) {t t' : Kernel}
    (hfree : free_allocation c cmg m a { s with locks := Locks.dev_held } = .ok t)
    (hun : unregister_if_empty c m t = .ok t') (hlocks : t'.locks = Locks.dev_held) :
    oss_a64fx_hwb_free c cmg.val a.blade s = .ok (0, { t' with locks := Locks.free }) := by
  unfold oss_a64fx_hwb_free oss_a64fx_hwb_free_blade
  simp only [spin_lock_dev_free hlock, Loops.ok_bind, hi.lists.get_taskmap hm hg, cmgs_ptr_ok,
    get_allocation_of_mem hi.table hi.lists hm ha hc, if_pos hpid, hfree, hun, pure_bind,
    spin_unlock_dev_held hlocks]
  rfl

/-- **BB_FREE by the thread in the mapping** releases the blade and returns 0. -/
theorem free_by_owner (ok : Kind → Prop) (hi : Inv l s.dev) (hlock : s.locks = Locks.free)
    {m : a64fx_task_mapping} (hm : m ∈ s.dev.task_list) (hg : m.group = c.task.tgid)
    {a : a64fx_task_allocation} (ha : a ∈ m.allocs) {cmg : Fin MAX_NUM_CMG} (hc : a.cmg = cmg.val)
    (hpid : c.task.pid = m.task.pid) (hok : ok .release) :
    ∃ s', oss_a64fx_hwb_free c cmg.val a.blade s = .ok (0, s') ∧ ReflTransGen (Micro l c ok) s s' ∧
      s'.locks = Locks.free ∧ Dropped a s s' := by
  obtain ⟨t, t', hfree, hun, hpath, hdrop⟩ := release_spec (c := c)
    (s := { s with locks := Locks.dev_held }) hi hg ⟨m, hm, rfl, ha⟩ hc hok
  refine ⟨{ t' with locks := Locks.free },
    free_owner_eq hi hlock hm hg ha hc hpid hfree hun hdrop.locks, path_locked hpath, rfl,
    hdrop.held, hdrop.init_sync_bb, hdrop.active_count, hlock.symm⟩

/-- What BB_FREE makes of the branch for another thread of the group. -/
theorem free_other_eq (hi : Inv l s.dev) (hlock : s.locks = Locks.free) {m : a64fx_task_mapping}
    (hm : m ∈ s.dev.task_list) (hg : m.group = c.task.tgid) {a : a64fx_task_allocation}
    (ha : a ∈ m.allocs) {cmg : Fin MAX_NUM_CMG} (hc : a.cmg = cmg.val)
    (hpid : c.task.pid ≠ m.task.pid) {t : Kernel} (hwith : oss_a64fx_hwb_free_withdraw c cmg m a
      { s with locks := Locks.dev_held } = .ok t) (hlocks : t.locks = Locks.dev_held) :
    oss_a64fx_hwb_free c cmg.val a.blade s = .ok (0, { t with locks := Locks.free }) := by
  have hgroup : c.task.tgid = m.task.tgid := hg.symm
  unfold oss_a64fx_hwb_free oss_a64fx_hwb_free_blade
  simp only [spin_lock_dev_free hlock, Loops.ok_bind, hi.lists.get_taskmap hm hg, cmgs_ptr_ok,
    get_allocation_of_mem hi.table hi.lists hm ha hc, if_neg hpid, if_pos hgroup, hwith, pure_bind,
    spin_unlock_dev_held hlocks]
  rfl

/-- **BB_FREE by another thread of the group** returns 0 whatever it does. -/
theorem free_by_other (ok : Kind → Prop) (hi : Inv l s.dev) (hlock : s.locks = Locks.free)
    {m : a64fx_task_mapping} (hm : m ∈ s.dev.task_list) (hg : m.group = c.task.tgid)
    {a : a64fx_task_allocation} (ha : a ∈ m.allocs) {cmg : Fin MAX_NUM_CMG} (hc : a.cmg = cmg.val)
    (hpid : c.task.pid ≠ m.task.pid)
    (hmis : a.assign_mask.getLsbD c.cpu = true → a.window (hw.slot c.cpu) ≠ 0 → ok .misdirected)
    (hrel : a.cpumask.getLsbD c.cpu = true → (a.leave c.cpu).cpumask = 0 → ok .release) :
    ∃ s', oss_a64fx_hwb_free c cmg.val a.blade s = .ok (0, s') ∧ ReflTransGen (Micro l c ok) s s' ∧
      s'.locks = Locks.free ∧ Withdrawn c m.group a s s' := by
  obtain ⟨t, hwith, hpath, hlocks, hout⟩ := free_withdraw_spec (c := c)
    (s := { s with locks := Locks.dev_held }) hi hg ⟨m, hm, rfl, ha⟩ hc hmis hrel
  refine ⟨{ t with locks := Locks.free }, free_other_eq hi hlock hm hg ha hc hpid hwith hlocks,
    path_locked hpath, rfl, hout.active_count, hout.cleared, hout.kept, fun h h0 => ?_,
    hout.unassigned⟩
  have hdrop := hout.dropped h h0
  exact ⟨hdrop.held, hdrop.init_sync_bb, hdrop.active_count, hlock.symm⟩

/-! ## Close -/

/-- **A close.** With the count at zero it does nothing; otherwise it takes one
off the count, and the thread in the mapping takes its mapping down. -/
theorem close_spec (ok : Kind → Prop) (hi : Inv l s.dev) (hlock : s.locks = Locks.free)
    (hcnt : ok .count)
    (hok : ∀ m ∈ s.dev.task_list, m.group = c.task.tgid → c.task.pid = m.task.pid →
      s.dev.active_count > 0 → m.allocs = [] ∨ ok .release) :
    ∃ s', oss_a64fx_hwb_close c s = .ok ({ err := 0 }, s') ∧ ReflTransGen (Micro l c ok) s s' ∧
      s'.locks = Locks.free ∧ s'.regs.init_sync_bb = s.regs.init_sync_bb ∧
      s'.dev.active_count = (if s.dev.active_count > 0 then s.dev.active_count - 1
        else s.dev.active_count) ∧
      s'.dev.task_list = (if s.dev.active_count > 0 ∧
          ∃ m ∈ s.dev.task_list, m.group = c.task.tgid ∧ c.task.pid = m.task.pid
        then Keyed.erase a64fx_task_mapping.group c.task.tgid s.dev.task_list
        else s.dev.task_list) := by
  have hback : ({ s with locks := Locks.free } : Kernel) = s := by rw [← hlock]
  by_cases hcount : s.dev.active_count > 0
  · by_cases hown : ∃ m ∈ s.dev.task_list, m.group = c.task.tgid ∧ c.task.pid = m.task.pid
    · obtain ⟨m, hm, hg, hpid⟩ := hown
      have hstep : Micro l c ok s
          { s with dev := { s.dev with active_count := s.dev.active_count - 1 } } :=
        .count _ hcnt
      have hi₁ := hstep.inv hi
      obtain ⟨t, hun, hpath, hrel⟩ := unregister_task_spec (c := c) (m := m)
        (s := { s with
          dev := { s.dev with active_count := s.dev.active_count - 1 }, locks := Locks.dev_held })
        hi₁ hm hg (hok m hm hg hpid hcount)
      refine ⟨{ t with locks := Locks.free }, ?_, ?_, rfl, hrel.init_sync_bb, ?_, ?_⟩
      · unfold oss_a64fx_hwb_close
        have hget : get_taskmap { s.dev with active_count := s.dev.active_count - 1 } c.task =
            some m := hi.lists.get_taskmap hm hg
        simp only [spin_lock_dev_free hlock, Loops.ok_bind, if_pos hcount, hget, if_pos hpid, hun,
          spin_unlock_dev_held hrel.locks]
        rfl
      · exact (ReflTransGen.single hstep).trans (path_locked hpath)
      · rw [if_pos hcount]
        exact hrel.active_count
      · rw [if_pos ⟨hcount, m, hm, hg, hpid⟩, ← hg]
        exact hrel.task_list
    · -- no mapping, or one that another thread of the group created
      refine ⟨{ s with dev := { s.dev with active_count := s.dev.active_count - 1 } }, ?_,
        .single (.count _ hcnt), hlock, rfl, by rw [if_pos hcount],
        by rw [if_neg fun h => hown h.2]⟩
      unfold oss_a64fx_hwb_close
      simp only [spin_lock_dev_free hlock, Loops.ok_bind, if_pos hcount]
      cases hget : get_taskmap { s.dev with active_count := s.dev.active_count - 1 } c.task with
      | none =>
          simp only [pure_bind, spin_unlock_dev_held, Loops.ok_bind]
          rw [← hlock]
          rfl
      | some m =>
          obtain ⟨hm, hg⟩ := mem_of_get_taskmap hget
          have hpid : ¬c.task.pid = m.task.pid := fun h => hown ⟨m, hm, hg, h⟩
          simp only [if_neg hpid, pure_bind, spin_unlock_dev_held, Loops.ok_bind]
          rw [← hlock]
          rfl
  · refine ⟨s, ?_, .refl, hlock, rfl, by rw [if_neg hcount], by rw [if_neg fun h => hcount h.1]⟩
    unfold oss_a64fx_hwb_close
    simp only [spin_lock_dev_free hlock, Loops.ok_bind, if_neg hcount, pure_bind,
      spin_unlock_dev_held, hback]
    rfl

end A64fxHwb
