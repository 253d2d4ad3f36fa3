/-
The requests of other CPUs, a window ahead.

A request of a thread on another CPU gives the same reply with the change of a BW
request and without it, and the change is still on top of what it leaves. The one
request that would not is left out: the release of the allocation itself. The change is
still to be made in the first run, so no allocation of that run records the window, and
no other allocation is given back with it.
-/
import A64fxHwb.Ahead

set_option autoImplicit false

namespace A64fxHwb

open BitWord Relation Runs Footprint

variable {hw : Machine} {l : Load hw} {x : WindowWrite} {c c' : Call hw} {i : Fin MAX_NUM_CMG}
variable {d : a64fx_hwb_device} {s t u v : Kernel}

/-! ## Withdrawing a CPU -/

namespace Counterpart

variable {tm : a64fx_task_mapping} {a a' : a64fx_task_allocation}

theorem fields (h : Counterpart x c tm a a') :
    a'.blade = a.blade ∧ a'.cpumask = a.cpumask ∧ a'.place = a.place := by
  cases h with
  | other => exact ⟨rfl, rfl, rfl⟩
  | own =>
      have hplace := x.place_alloc (hw.slot c.cpu) c.cpu a
      exact ⟨congrArg Prod.snd hplace, x.cpumask_alloc _ _ a, hplace⟩

/-- The two agree on the other CPUs: on whether they have a window, -/
theorem assign_mask (h : Counterpart x c tm a a') {k : ℕ} (hk : k ≠ c.cpu) :
    a'.assign_mask.getLsbD k = a.assign_mask.getLsbD k := by
  cases h with
  | other => rfl
  | own =>
      rw [x.alloc_eq]
      cases x.takes with
      | true =>
          show (setBit a.assign_mask c.cpu).getLsbD k = _
          rw [getLsbD_setBit]
          simp [hk.symm]
      | false =>
          show (clearBit a.assign_mask c.cpu).getLsbD k = _
          rw [getLsbD_clearBit]
          simp [hk.symm]

/-- on which it is, if the CPU is one of the CMG, -/
theorem window (h : Counterpart x c tm a a') {j : Fin MAX_PE_PER_CMG}
    (hj : tm.group = c.task.tgid → a.place = x.place c → j ≠ hw.slot c.cpu) :
    a'.window j = a.window j := by
  cases h with
  | other => rfl
  | own hg hp => exact x.window_alloc (hj hg hp) _ _

/-- and so they do when such a CPU gives its window back, -/
theorem give (h : Counterpart x c tm a a') {j : Fin MAX_PE_PER_CMG} {k : ℕ} (hk : k ≠ c.cpu)
    (hj : tm.group = c.task.tgid → a.place = x.place c → j ≠ hw.slot c.cpu) :
    Counterpart x c tm (a.give j k) (a'.give j k) := by
  cases h with
  | other hne => exact .other hne
  | own hg hp hidle =>
      have hslot := hj hg hp
      have hcomm := x.alloc_comm ⟨false, 0, 0⟩ hslot.symm hk.symm a
      refine (show (x.alloc (hw.slot c.cpu) c.cpu a).give j k = x.alloc (hw.slot c.cpu) c.cpu
        (a.give j k) from hcomm.symm) ▸ .own hg hp fun _ => ⟨(hidle hp).1, ?_⟩
      exact (Function.update_of_ne hslot.symm _ _).trans (hidle hp).2

/-- and when another CPU leaves. -/
theorem leave (h : Counterpart x c tm a a') {k : ℕ} (hk : k ≠ c.cpu) :
    Counterpart x c tm (a.leave k) (a'.leave k) := by
  cases h with
  | other hne => exact .other hne
  | own hg hp hidle =>
      have hcomm : (x.alloc (hw.slot c.cpu) c.cpu a).leave k =
          x.alloc (hw.slot c.cpu) c.cpu (a.leave k) := by
        rw [x.alloc_eq, x.alloc_eq]
        rfl
      refine hcomm ▸ .own hg hp fun _ => ⟨?_, (hidle hp).2⟩
      rw [a64fx_task_allocation.getLsbD_leave, (hidle hp).1]
      simp [hk]

end Counterpart

/-- Another CPU of the blade in the two runs, on its way out. -/
structure Withdrawing (l : Load hw) (x : WindowWrite) (c : Call hw) (i : Fin MAX_NUM_CMG)
    (tm : a64fx_task_mapping) (y z : a64fx_task_allocation × Kernel) : Prop where
  alloc : Counterpart x c tm y.1 z.1
  kernel : Ahead l x c y.2 z.2
  window : i = hw.cmg c.cpu → y.1.window (hw.slot c.cpu) ≠ (x.window : ℤ)
  many : tm.group = c.task.tgid → y.1.place ≠ x.place c → y.2.num_allocs tm.group ≠ some 1

theorem free_unassign_ahead (hcpu : c'.cpu ≠ c.cpu) {tm : a64fx_task_mapping}
    {a a' : a64fx_task_allocation}
    (h : Withdrawing l x c (hw.cmg c'.cpu) tm (a, s) (a', t))
    (hcmg : tm.group = c.task.tgid → a.place = x.place c → hw.cmg c'.cpu = hw.cmg c.cpu) :
    Twin (Withdrawing l x c (hw.cmg c'.cpu) tm)
      (oss_a64fx_hwb_free_unassign c' (hw.cmg c'.cpu)
        (get_pemap s.dev (hw.cmg c'.cpu) (hw.ppe c'.cpu)) tm a s)
      (oss_a64fx_hwb_free_unassign c' (hw.cmg c'.cpu)
        (get_pemap t.dev (hw.cmg c'.cpu) (hw.ppe c'.cpu)) tm a' t) := by
  have hp' := c'.online_present _ c'.cpu_online
  have hk : Ahead l x c s t := h.kernel
  have hal : Counterpart x c tm a a' := h.alloc
  have ht := hk.table
  have ht' : Table l t.dev := hk.sameTable.table ht
  have hslot := Call.slot_ne hcpu
  unfold oss_a64fx_hwb_free_unassign
  cases hon : l.online.getLsbD c'.cpu with
  | false =>
      rw [get_pemap_offline ht hp' hon, get_pemap_offline ht' hp' hon]
      exact .error _
  | true =>
      -- the entry of the CPU is the same in both runs
      have hentry : (t.dev.cmgs (hw.cmg c'.cpu)).pe_map (hw.slot c'.cpu) =
          (s.dev.cmgs (hw.cmg c'.cpu)).pe_map (hw.slot c'.cpu) := by
        rw [hk.eq]
        exact x.pe_map_device hslot s.dev
      have hown := hal.window (j := hw.slot c'.cpu) fun hg hpl => hslot (hcmg hg hpl)
      have hgive := hal.give (j := hw.slot c'.cpu) hcpu fun hg hpl => hslot (hcmg hg hpl)
      obtain ⟨hcpu_id, -, hppe⟩ := ht.entry hon
      rw [get_pemap_online ht hon, get_pemap_online ht' hon]
      simp only [pemap_deref, Loops.ok_bind, hentry, hown, hcpu_id, hppe, window_ptr_ppe hp',
        smp_assign]
      refine Twin.bind_same fun bw_map _ => Twin.bind_same fun w _ => ?_
      have hpe := hk.with_pe (i := hw.cmg c'.cpu) (j := hw.slot c'.cpu)
        (f := fun p => { p with
          bw_map := bw_map
          win_blades := Function.update
            ((s.dev.cmgs (hw.cmg c'.cpu)).pe_map (hw.slot c'.cpu)).win_blades w
            A64FX_HWB_UNASSIGNED_WIN }) (fun _ => ⟨rfl, rfl, rfl⟩)
        fun hc hs => absurd hs (hslot hc)
      have hstore := hpe.store_alloc hgive
      have hother : c'.cpu = c.cpu → (0 : ℤ) ≠ x.window := fun heq => absurd heq hcpu
      have hregs := hstore.set_wr c' hother 0 0
      refine .ok ⟨hgive, hregs, fun hc => ?_, fun hg hne => ?_⟩
      · have hsame : (a.give (hw.slot c'.cpu) c'.cpu).window (hw.slot c.cpu) =
            a.window (hw.slot c.cpu) := Function.update_of_ne (hslot hc).symm _ _
        exact hsame ▸ h.window hc
      · -- the mapping is changed in no other way
        intro h1
        exact h.many hg hne ((num_allocs_store_alloc _ tm _ tm.group s rfl).symm.trans h1)

theorem cpumask_to_ppemask_same {d' : a64fx_hwb_device} (h : SameTable d d')
    (i : Fin MAX_NUM_CMG) (mask : cpumask_t) :
    cpumask_to_ppemask (d'.cmgs i) mask = cpumask_to_ppemask (d.cmgs i) mask := by
  have hcpu : ∀ j, ((d'.cmgs i).pe_map j).cpu_id = ((d.cmgs i).pe_map j).cpu_id :=
    fun j => (h.pe i j).1
  have hppe : ∀ j, ((d'.cmgs i).pe_map j).ppe_id = ((d.cmgs i).pe_map j).ppe_id :=
    fun j => (h.pe i j).2.2
  unfold cpumask_to_ppemask
  simp only [h.slots i, hcpu, hppe]

theorem free_leave_ahead (hon : l.online.getLsbD c.cpu = true) (hcpu : c'.cpu ≠ c.cpu)
    {tm : a64fx_task_mapping} {a a' : a64fx_task_allocation}
    (h : Withdrawing l x c i tm (a, s) (a', t)) :
    Twin (Ahead l x c) (oss_a64fx_hwb_free_leave c' i tm a s)
      (oss_a64fx_hwb_free_leave c' i tm a' t) := by
  have hleave : Counterpart x c tm (a.leave c'.cpu) (a'.leave c'.cpu) := h.alloc.leave hcpu
  obtain ⟨hblade, hmask, -⟩ := hleave.fields
  have hblade' : a'.blade = a.blade := h.alloc.fields.1
  have hleft : Ahead l x c (with_left c' i tm a s) (with_left c' i tm a' t) := by
    have harm := h.kernel.arm_blade c' i a.blade
      (cpumask_to_ppemask (s.dev.cmgs i) (a.leave c'.cpu).cpumask)
    unfold with_left
    rw [hmask, hblade', cpumask_to_ppemask_same h.kernel.sameTable]
    exact harm.store_alloc hleave
  rw [free_leave_eq, free_leave_eq, hmask]
  refine Twin.ite (fun hzero => ?_) fun _ => .ok hleft
  have hal : Counterpart x c tm a a' := h.alloc
  cases hal with
  | own hg hp hidle =>
      -- the CPU of the change is still one of the blade's
      have hbit := (eq_zero_iff _).mp ((weight_eq_zero_iff _).mp hzero) c.cpu
      rw [a64fx_task_allocation.getLsbD_leave, (hidle hp).1] at hbit
      simp [hcpu] at hbit
  | other hne =>
      have hfree := free_allocation_ahead c' (a := a.leave c'.cpu) hon hleft hne h.window
      refine hfree.bind_ok fun u v hu huv => ?_
      refine unregister_if_empty_ahead c' huv fun hg => num_allocs_ne_zero hu ?_
      have hcount : (with_left c' i tm a s).num_allocs tm.group = s.num_allocs tm.group :=
        num_allocs_store_alloc s.dev tm (a.leave c'.cpu) tm.group s rfl
      rw [hcount]
      exact h.many hg (hne hg)

theorem free_withdraw_ahead (hon : l.online.getLsbD c.cpu = true) (hcpu : c'.cpu ≠ c.cpu)
    {tm : a64fx_task_mapping} {a a' : a64fx_task_allocation}
    (h : Withdrawing l x c i tm (a, s) (a', t)) (hc : a.cmg = i.val)
    (hassign : a.assign_mask.getLsbD c'.cpu = true → hw.cmg c'.cpu = i) :
    Twin (Ahead l x c) (oss_a64fx_hwb_free_withdraw c' i tm a s)
      (oss_a64fx_hwb_free_withdraw c' i tm a' t) := by
  have hal : Counterpart x c tm a a' := h.alloc
  have hget : Withdrawing l x c i tm (a, get_cpu s) (a', get_cpu t) :=
    ⟨h.alloc, h.kernel.get_cpu, h.window, h.many⟩
  unfold oss_a64fx_hwb_free_withdraw
  simp only [Machine.read_peinfo, cpumask_test_cpu, hal.fields.2.1, hal.assign_mask hcpu]
  refine Twin.ite (fun _ => ?_) fun _ => .ok h.kernel.get_cpu
  refine Twin.ite (fun hbit => ?_) fun _ => ?_
  · obtain rfl := hassign hbit
    have hcmg : tm.group = c.task.tgid → a.place = x.place c →
        hw.cmg c'.cpu = hw.cmg c.cpu := by
      intro _ hp
      have hcc : a.cmg = (hw.cmg c.cpu).val := congrArg Prod.fst hp
      exact Fin.ext (hc.symm.trans hcc)
    exact (free_unassign_ahead hcpu hget hcmg).bind fun y z hyz => free_leave_ahead hon hcpu hyz
  · rw [pure_bind, pure_bind]
    exact free_leave_ahead hon hcpu hget

/-! ## BB_FREE -/

/-- The change is still to be made: its allocation is held, and the window is vacant. -/
structure Untaken (l : Load hw) (x : WindowWrite) (c : Call hw) (d : a64fx_hwb_device) :
    Prop where
  inv : Inv l d
  online : l.online.getLsbD c.cpu = true
  held : ∃ a, Held d c.task.tgid a ∧ a.place = x.place c
  vacant : x.Vacant c d

theorem Untaken.ahead (h : Untaken l x c s.dev) : Ahead l x c s (x.apply c s) :=
  ⟨rfl, h.inv.table, h.vacant⟩

/-- Nobody records the window of the PE: its bit would be set. -/
theorem Untaken.window (h : Untaken l x c d) {g : ℕ} {a : a64fx_task_allocation}
    (ha : Held d g a) (hc : a.cmg = (hw.cmg c.cpu).val) :
    a.window (hw.slot c.cpu) ≠ (x.window : ℤ) := by
  intro hrec
  have hr : Records l a c.cpu x.window := ⟨h.online, hc.symm, hrec⟩
  have hbit := h.inv.bw_of_records ha hr
  rw [h.vacant.free] at hbit
  exact Bool.noConfusion hbit

/-- A mapping of the group with another allocation has two. -/
theorem Untaken.many (h : Untaken l x c s.dev) {m : a64fx_task_mapping}
    (hm : m ∈ s.dev.task_list) (hg : m.group = c.task.tgid) {a : a64fx_task_allocation}
    (ha : a ∈ m.allocs) (hne : a.place ≠ x.place c) : s.num_allocs m.group ≠ some 1 := by
  intro h1
  obtain ⟨b, hb, hplace⟩ := h.held
  have hbm : b ∈ m.allocs := hb.mem_allocs h.inv.lists hm hg
  have hmap : s.mapping m.group = some m := Keyed.lookup_of_mem h.inv.lists.groups hm
  have hnum := (h.inv.lists.mapping m hm).num_allocs
  rw [Kernel.num_allocs, hmap, Option.map_some] at h1
  have hlen : m.allocs.length = 1 := by
    have hone := Option.some.inj h1
    omega
  obtain ⟨z, hz⟩ := List.length_eq_one_iff.mp hlen
  rw [hz, List.mem_singleton] at ha hbm
  exact hne (by rw [ha, ← hbm]; exact hplace)

/-- The allocations the two runs find for one blade. -/
theorem get_allocation_ahead (h : Ahead l x c s t) {m : a64fx_task_mapping}
    (hm : m ∈ s.dev.task_list) (i : Fin MAX_NUM_CMG) (blade : ℕ) :
    (get_allocation (s.dev.cmgs i) m blade = none ∧
        get_allocation (t.dev.cmgs i) (x.mapping c m) blade = none) ∨
      ∃ a a', get_allocation (s.dev.cmgs i) m blade = some a ∧
        get_allocation (t.dev.cmgs i) (x.mapping c m) blade = some a' ∧
        Counterpart x c m a a' := by
  have ht' : Table l t.dev := h.sameTable.table h.table
  rw [get_allocation_lookup h.table, get_allocation_lookup ht']
  unfold WindowWrite.mapping
  by_cases hg : m.group = c.task.tgid
  · rw [if_pos hg]
    unfold a64fx_task_mapping.alter
    rw [Keyed.lookup_modify fun a ha => (x.place_alloc _ _ a).trans ha]
    cases hfound : Keyed.lookup a64fx_task_allocation.place (i.val, blade) m.allocs with
    | none => exact Or.inl ⟨rfl, rfl⟩
    | some a =>
        have hplace : a.place = (i.val, blade) := Keyed.lookup_key hfound
        refine Or.inr ⟨a, _, rfl, rfl, ?_⟩
        beta_reduce
        by_cases hp : (i.val, blade) = x.place c
        · rw [if_pos hp]
          exact .own hg (hplace.trans hp) (h.vacant.idle m hm hg a (Keyed.lookup_mem hfound))
        · rw [if_neg hp]
          exact .other fun _ heq => hp (hplace.symm.trans heq)
  · rw [if_neg hg]
    cases Keyed.lookup a64fx_task_allocation.place (i.val, blade) m.allocs with
    | none => exact Or.inl ⟨rfl, rfl⟩
    | some a => exact Or.inr ⟨a, a, rfl, rfl, .other fun heq => absurd heq hg⟩

/-- A mapping is followed by its group only. -/
theorem free_mapping (x : WindowWrite) (c : Call hw) (m : a64fx_task_mapping)
    (a : a64fx_task_allocation) (s : Kernel) :
    free_allocation c' i (x.mapping c m) a s = free_allocation c' i m a s ∧
      unregister_if_empty c' (x.mapping c m) s = unregister_if_empty c' m s ∧
      oss_a64fx_hwb_free_withdraw c' i (x.mapping c m) a s =
        oss_a64fx_hwb_free_withdraw c' i m a s := by
  unfold WindowWrite.mapping
  by_cases hg : m.group = c.task.tgid
  · rw [if_pos hg]
    exact ⟨rfl, rfl, rfl⟩
  · rw [if_neg hg]
    exact ⟨rfl, rfl, rfl⟩

/-- A value, and the two states it was computed in. -/
def AheadResults {ρ : Type} (l : Load hw) (x : WindowWrite) (c : Call hw) (y z : ρ × Kernel) :
    Prop :=
  y.1 = z.1 ∧ Ahead l x c y.2 z.2

theorem free_blade_ahead (hu : Untaken l x c s.dev) (h : Ahead l x c s t)
    (hcpu : c'.cpu ≠ c.cpu) {m : a64fx_task_mapping} (hm : m ∈ s.dev.task_list)
    (i : Fin MAX_NUM_CMG) (blade : ℕ)
    (hspare : ∀ a, get_allocation (s.dev.cmgs i) m blade = some a →
      c'.task.pid = m.task.pid → m.group = c.task.tgid → a.place ≠ x.place c) :
    Twin (AheadResults l x c) (oss_a64fx_hwb_free_blade c' i.val blade m s)
      (oss_a64fx_hwb_free_blade c' i.val blade (x.mapping c m) t) := by
  unfold oss_a64fx_hwb_free_blade
  simp only [(x.task_mapping c m).1, (free_mapping x c m _ _).1, (free_mapping x c m _ _).2.2]
  rw [cmgs_ptr_ok, Loops.ok_bind, Loops.ok_bind]
  rcases get_allocation_ahead h hm i blade with ⟨hnone, hnone'⟩ | ⟨a, a', hsome, hsome', hal⟩
  · rw [hnone, hnone']
    exact .ok ⟨rfl, h⟩
  rw [hsome, hsome']
  simp only
  obtain ⟨ha, hc, -⟩ := get_allocation_eq_some h.table hsome
  have hheld : Held s.dev m.group a := ⟨m, hm, rfl, ha⟩
  have hwindow : i = hw.cmg c.cpu → a.window (hw.slot c.cpu) ≠ (x.window : ℤ) := by
    rintro rfl
    exact hu.window hheld hc
  have hmany : m.group = c.task.tgid → a.place ≠ x.place c → s.num_allocs m.group ≠ some 1 :=
    fun hg hne => hu.many hm hg ha hne
  refine Twin.ite (fun hpid => ?_) fun _ => Twin.ite (fun _ => ?_) fun _ => .ok ⟨rfl, h⟩
  · -- the thread in the mapping frees another blade
    have hne : m.group = c.task.tgid → a.place ≠ x.place c := hspare a hsome hpid
    cases hal with
    | own hg hp => exact absurd hp (hne hg)
    | other =>
        have hfree := free_allocation_ahead c' (a := a) hu.online h hne hwindow
        refine hfree.bind_ok fun u v hok huv => ?_
        rw [(free_mapping (i := i) x c m a v).2.1]
        have hun := unregister_if_empty_ahead c' huv fun hg =>
          num_allocs_ne_zero hok (hmany hg (hne hg))
        exact hun.bind fun u' v' huv' => .ok ⟨rfl, huv'⟩
  · have hassign : a.assign_mask.getLsbD c'.cpu = true → hw.cmg c'.cpu = i := by
      intro hbit
      obtain ⟨-, hcmg, -⟩ := ((hu.inv.sane _ a hheld).assign_mask c'.cpu).mp hbit
      exact Fin.ext (hcmg.trans hc)
    exact (free_withdraw_ahead hu.online hcpu ⟨hal, h, hwindow, hmany⟩ hc hassign).bind
      fun u v huv => .ok ⟨rfl, huv⟩

/-- The change leaves the locks alone. -/
theorem Ahead.locks (h : Ahead l x c s t) : t.locks = s.locks := by
  rw [h.eq]
  rfl

/-- The end of a function that has `dev_lock`. -/
theorem unlock_dev_ahead {ρ : Type} {r r' : ρ} (hr : r = r') (h : Ahead l x c s t) :
    Twin (AheadResults l x c) (spin_unlock_dev s >>= fun s => pure (r, s))
      (spin_unlock_dev t >>= fun t => pure (r', t)) := by
  unfold spin_unlock_dev
  rw [h.locks]
  by_cases hheld : s.locks.dev_lock = true
  · rw [if_pos hheld, if_pos hheld]
    exact .ok ⟨hr, h.with_locks _⟩
  · rw [if_neg hheld, if_neg hheld]
    exact .error _

theorem free_ahead (hu : Untaken l x c s.dev) (h : Ahead l x c s t)
    (hlock : s.locks = Locks.free) (hcpu : c'.cpu ≠ c.cpu) (i : Fin MAX_NUM_CMG) (blade : ℕ)
    (hspare : ∀ m a, get_taskmap s.dev c'.task = some m →
      get_allocation (s.dev.cmgs i) m blade = some a → c'.task.pid = m.task.pid →
        m.group = c.task.tgid → a.place ≠ x.place c) :
    Twin (AheadResults l x c) (oss_a64fx_hwb_free c' i.val blade s)
      (oss_a64fx_hwb_free c' i.val blade t) := by
  have hheld := h.with_locks Locks.dev_held
  unfold oss_a64fx_hwb_free
  rw [spin_lock_dev_free hlock, spin_lock_dev_free (h.locks.trans hlock), Loops.ok_bind,
    Loops.ok_bind, get_taskmap_ahead hheld]
  cases hm : get_taskmap s.dev c'.task with
  | none => exact unlock_dev_ahead rfl hheld
  | some m =>
      have hblade := free_blade_ahead (s := { s with locks := Locks.dev_held }) hu hheld hcpu
        (mem_of_get_taskmap hm).1 i blade fun a => hspare m a hm
      refine hblade.bind fun y z hyz => ?_
      exact unlock_dev_ahead hyz.1 hyz.2

/-! ## Open and close -/

/-- A write to the number of open files. -/
theorem Ahead.with_active_count (h : Ahead l x c s t) (n : ℤ) :
    Ahead l x c { s with dev := { s.dev with active_count := n } }
      { t with dev := { t.dev with active_count := n } } := by
  refine h.of_dev ?_ ⟨rfl, rfl, fun _ => ⟨rfl, rfl, rfl⟩, fun _ _ => ⟨rfl, rfl, rfl⟩⟩
    (h.vacant.congr rfl fun m hm => Or.inl hm)
  rw [h.eq]
  rfl

theorem Ahead.active_count (h : Ahead l x c s t) :
    t.dev.active_count = s.dev.active_count := by
  rw [h.eq]
  rfl

theorem open_ahead (h : Ahead l x c s t) (hlock : s.locks = Locks.free) :
    Twin (AheadResults l x c) (oss_a64fx_hwb_open s) (oss_a64fx_hwb_open t) := by
  have hcount := (h.with_locks Locks.dev_held).with_active_count (s.dev.active_count + 1)
  unfold oss_a64fx_hwb_open
  rw [spin_lock_dev_free hlock, spin_lock_dev_free (h.locks.trans hlock), Loops.ok_bind,
    Loops.ok_bind, h.active_count]
  exact unlock_dev_ahead rfl hcount

theorem close_ahead (hu : Untaken l x c s.dev) (h : Ahead l x c s t)
    (hlock : s.locks = Locks.free)
    (hspare : ∀ m, get_taskmap s.dev c'.task = some m → s.dev.active_count > 0 →
      c'.task.pid = m.task.pid → m.group ≠ c.task.tgid) :
    Twin (AheadResults l x c) (oss_a64fx_hwb_close c' s) (oss_a64fx_hwb_close c' t) := by
  have hheld := h.with_locks Locks.dev_held
  have hcount := hheld.with_active_count (s.dev.active_count - 1)
  unfold oss_a64fx_hwb_close
  rw [spin_lock_dev_free hlock, spin_lock_dev_free (h.locks.trans hlock), Loops.ok_bind,
    Loops.ok_bind, h.active_count]
  simp only [pure_bind]
  refine Twin.ite (fun hpos => ?_) fun _ => unlock_dev_ahead rfl hheld
  rw [get_taskmap_ahead hcount]
  cases hm : get_taskmap { s.dev with active_count := s.dev.active_count - 1 } c'.task with
  | none => exact unlock_dev_ahead rfl hcount
  | some m =>
      simp only [Option.map_some, (x.task_mapping c m).1]
      refine Twin.ite (fun hpid => ?_) fun _ => unlock_dev_ahead rfl hcount
      have hg : m.group ≠ c.task.tgid := hspare m hm hpos hpid
      have hun : Twin (Ahead l x c) (unregister_task c' m _) (unregister_task c' m _) :=
        unregister_task_ahead hu.online hcount hg fun a ha hc =>
          hu.window ⟨m, (mem_of_get_taskmap hm).1, rfl, ha⟩ hc
      rw [WindowWrite.mapping_of_ne hg]
      exact hun.bind fun u v huv => unlock_dev_ahead rfl huv

/-! ## BB_ALLOC -/

/-- The mapping a BB_ALLOC works with in each run. -/
theorem allocate_taskmap_ahead (hu : Untaken l x c s.dev) (h : Ahead l x c s t)
    (c' : Call hw) :
    (oss_a64fx_hwb_allocate_taskmap c' t).1 =
        (oss_a64fx_hwb_allocate_taskmap c' s).1.map (x.mapping c) ∧
      Ahead l x c (oss_a64fx_hwb_allocate_taskmap c' s).2
        (oss_a64fx_hwb_allocate_taskmap c' t).2 ∧
      Untaken l x c (oss_a64fx_hwb_allocate_taskmap c' s).2.dev ∧
      ∀ m, (oss_a64fx_hwb_allocate_taskmap c' s).1 = some m →
        m ∈ (oss_a64fx_hwb_allocate_taskmap c' s).2.dev.task_list := by
  have hget' := get_taskmap_ahead h c'.task
  rcases mapped_or_no_memory c' s with ⟨m, u, hm⟩ | ⟨hget, hmem⟩
  · have hm' := hm
    have hmem : ∀ m', some m = some m' → m' ∈ u.dev.task_list := by
      intro m' hm'
      rw [← Option.some.inj hm']
      exact hm.mem.1
    rw [allocate_taskmap_of_mapped hm]
    cases hm with
    | found _ hget =>
        rw [hget, Option.map_some] at hget'
        rw [allocate_taskmap_of_mapped (.found _ hget')]
        exact ⟨rfl, h, hu, hmem⟩
    | created hget hk =>
        rw [hget, Option.map_none] at hget'
        rw [allocate_taskmap_of_mapped (.created hget' hk)]
        -- the group of the change has a mapping, so this is another one
        have hother : c'.task.tgid ≠ c.task.tgid := by
          obtain ⟨a, ⟨m, hm, hg, -⟩, -⟩ := hu.held
          intro heq
          exact get_taskmap_eq_none.mp hget m hm (hg.trans heq.symm)
        have hmapped := h.map_group hother
        have hheld : ∃ a, Held (s.dev.map_group c'.task) c.task.tgid a ∧ a.place = x.place c := by
          obtain ⟨a, ha, hp⟩ := hu.held
          exact ⟨a, (hm'.held _ a).mpr ha, hp⟩
        refine ⟨?_, hmapped, ⟨hm'.inv hu.inv, hu.online, hheld, hmapped.vacant⟩, hmem⟩
        rw [Option.map_some, WindowWrite.mapping_of_ne (m := ⟨c'.task, [], 0⟩) hother]
  · rw [hget, Option.map_none] at hget'
    rw [allocate_taskmap_no_memory hget hmem, allocate_taskmap_no_memory hget' hmem]
    exact ⟨rfl, h, hu, fun m hm => by cases hm⟩

/-- A blade taken in both runs. It is not the one of the change, which is taken. -/
theorem allocated_ahead (h : Ahead l x c s t) (c' : Call hw) {m : a64fx_task_mapping}
    {b : ℕ} (hb : b < MAX_BB_PER_CMG)
    (hne : m.group = c.task.tgid → (i.val, b) ≠ x.place c) (mask : cpumask_t) :
    Ahead l x c (allocated c' m i b mask s) (allocated c' (x.mapping c m) i b mask t) := by
  have ht' : Table l t.dev := h.sameTable.table h.table
  obtain ⟨hcmg, hblade⟩ := init_allocation_spec h.table i m hb mask
  have hplace : (init_allocation (s.dev.cmgs i) m b mask).place = (i.val, b) := by
    rw [a64fx_task_allocation.place, hcmg, hblade]
  have hinit : init_allocation (t.dev.cmgs i) (x.mapping c m) b mask =
      init_allocation (s.dev.cmgs i) m b mask := by
    unfold init_allocation
    rw [(x.task_mapping c m).1, ht'.cmg_id i, h.table.cmg_id i]
  have harm := h.arm_blade c' i b (cpumask_to_ppemask (s.dev.cmgs i) mask)
  have hhold := harm.hold m (a := init_allocation (s.dev.cmgs i) m b mask) fun hg => by
    rw [hplace]
    exact hne hg
  unfold allocated
  rw [hinit, cpumask_to_ppemask_same h.sameTable]
  unfold a64fx_hwb_device.hold_alloc a64fx_hwb_device.with_taskmap
  rw [x.group_mapping]
  exact hhold.with_bb i fun bb_active =>
    setBit bb_active (init_allocation (s.dev.cmgs i) m b mask).blade

/-- The search for a blade. -/
theorem blade_outcome_ahead (hu : Untaken l x c s.dev) (h : Ahead l x c s t) (c' : Call hw)
    {m : a64fx_task_mapping} (hm : m ∈ s.dev.task_list) (i : Fin MAX_NUM_CMG)
    (mask : cpumask_t) : AheadResults l x c (blade_outcome c' i mask m s)
      (blade_outcome c' i mask (x.mapping c m) t) := by
  have hnum : t.dev.num_bb_per_cmg = s.dev.num_bb_per_cmg := h.sameTable.num_bb
  have hreg : ∀ b, is_registered c' i (x.mapping c m) b t = is_registered c' i m b s := by
    intro b
    unfold is_registered
    rcases get_allocation_ahead h hm i b with ⟨hnone, hnone'⟩ | ⟨a, a', hsome, hsome', -⟩
    · rw [hnone, hnone']
    · rw [hsome, hsome']
      rfl
  unfold blade_outcome
  simp only [h.bb_active i, hnum, hreg]
  generalize hb : firstZero (s.dev.cmgs i).bb_active MAX_BB_PER_CMG = b
  by_cases hlt : b < s.dev.num_bb_per_cmg
  · simp only [if_pos hlt]
    refine ⟨rfl, ?_⟩
    cases hr : is_registered c' i m b s with
    | false => exact h
    | true =>
        refine allocated_ahead h c' (hu.inv.table.num_bb ▸ hlt) (fun hg hp => ?_) mask
        -- the group has no allocation for the blade that is found
        obtain ⟨a, ha, hpa⟩ := hu.held
        have hmem : a ∈ m.allocs := ha.mem_allocs hu.inv.lists hm hg
        obtain ⟨hc, hb'⟩ := Prod.mk.inj (hpa.trans hp.symm)
        have hfound : get_allocation (s.dev.cmgs i) m b = some a := by
          rw [← hb']
          exact get_allocation_of_mem hu.inv.table hu.inv.lists hm hmem hc
        rw [is_registered, hfound] at hr
        exact Bool.noConfusion hr
  · simp only [if_neg hlt]
    exact ⟨rfl, h⟩

theorem allocate_ahead (hu : Untaken l x c s.dev) (h : Ahead l x c s t)
    (hlock : s.locks = Locks.free) (c' : Call hw) (i : Fin MAX_NUM_CMG) (mask : cpumask_t) :
    Twin (AheadResults l x c) (oss_a64fx_hwb_allocate c' i.val mask s)
      (oss_a64fx_hwb_allocate c' i.val mask t) := by
  have hheld := h.with_locks Locks.dev_held
  obtain ⟨hmap, hahead, huntaken, hmem⟩ :=
    allocate_taskmap_ahead (s := { s with locks := Locks.dev_held }) hu hheld c'
  unfold oss_a64fx_hwb_allocate
  rw [if_neg (cmg_in_range i), if_neg (cmg_in_range i), spin_lock_dev_free hlock,
    spin_lock_dev_free (h.locks.trans hlock), Loops.ok_bind, Loops.ok_bind]
  generalize oss_a64fx_hwb_allocate_taskmap c' { s with locks := Locks.dev_held } = y
    at hmap hahead huntaken hmem ⊢
  generalize oss_a64fx_hwb_allocate_taskmap c' { t with locks := Locks.dev_held } = z
    at hmap hahead ⊢
  obtain ⟨tm, u⟩ := y
  obtain ⟨tm', v⟩ := z
  simp only at hmap hahead huntaken hmem
  subst hmap
  cases tm with
  | none => exact unlock_dev_ahead rfl hahead
  | some m =>
      have hnum := huntaken.inv.table.num_bb.le
      have hnum' := (hahead.sameTable.table hahead.table).num_bb.le
      have hblade := blade_outcome_ahead huntaken hahead c' (hmem m rfl) i mask
      simp only [Option.map_some, allocate_blade_run hnum, allocate_blade_run hnum',
        Loops.ok_bind]
      exact unlock_dev_ahead hblade.1 hblade.2

/-! ## Any request -/

/-- What the run of another CPU must not do: release the allocation of the change. -/
def Event.Spares (e : Event hw) (s : Kernel) (g : ℕ) (p : ℕ × ℕ) : Prop :=
  (∀ arg ioc m, e.request = .ioctl (.BB_FREE arg) → arg.read = some ioc →
      get_taskmap s.dev e.call.task = some m → e.call.task.pid = m.task.pid → m.group = g →
        (ioc.cmg.toNat, ioc.bb.toNat) ≠ p) ∧
    ∀ m, e.request = .close → get_taskmap s.dev e.call.task = some m →
      s.dev.active_count > 0 → e.call.task.pid = m.task.pid → m.group ≠ g

/-- What another CPU takes or gives back leaves the window vacant. -/
theorem WindowWrite.Vacant.apply (h : x.Vacant c s.dev) (hcpu : c'.cpu ≠ c.cpu)
    (y : WindowWrite) : x.Vacant c (y.apply c' s).dev := by
  have hslot := Call.slot_ne hcpu.symm
  refine ⟨?_, fun m hm hg a ha => ?_⟩
  · show (((y.device c' s.dev).cmgs _).pe_map _).bw_map.getLsbD _ = false
    rw [y.pe_map_device hslot]
    exact h.free
  · rcases Keyed.mem_of_mem_modify hm with hold | ⟨m, hold, -, rfl⟩
    · exact h.idle m hold hg a ha
    rcases Keyed.mem_of_mem_modify ha with hal | ⟨a, hal, hkey, rfl⟩
    · exact h.idle m hold hg a hal
    · -- the allocation of the change, at the slot of another CPU
      intro hplace
      rw [y.place_alloc] at hplace
      obtain ⟨hmask, hwin⟩ := h.idle m hold hg a hal hplace
      have hcmg : hw.cmg c.cpu = hw.cmg c'.cpu :=
        Fin.ext (congrArg Prod.fst (hplace.symm.trans hkey))
      rw [y.cpumask_alloc, y.window_alloc (hslot hcmg)]
      exact ⟨hmask, hwin⟩

theorem performed_ahead (h : Ahead l x c s t) (hcpu : c'.cpu ≠ c.cpu)
    (y : Option WindowWrite) : Ahead l x c (performed c' s y) (performed c' t y) := by
  cases y with
  | none => exact h
  | some y =>
      have hsame : SameTable s.dev (y.apply c' s).dev := y.sameTable_device c' s.dev
      refine ⟨?_, hsame.table h.table, h.vacant.apply hcpu y⟩
      rw [h.eq]
      exact y.apply_comm x hcpu s

variable {e : Event hw}

/-- A BW request of another CPU. -/
theorem windows_ahead (hs : Settled l s) (ht : Settled l t) (h : Ahead l x c s t)
    (hcpu : e.call.cpu ≠ c.cpu) (he : e.OnWindows) :
    Twin (AheadResults l x c) (handle e s) (handle e t) := by
  obtain ⟨blade, decision, hdecision⟩ := event_decision l he
  have hview : view e.call blade t = view e.call blade s := by
    have ht' := ht.inv.table
    rw [h.eq] at ht' ⊢
    exact view_apply h.table x hcpu blade ht'
  rw [hdecision s hs.inv hs.locks, hdecision t ht.inv ht.locks, hview]
  cases decision (view e.call blade s) with
  | error f => exact .error f
  | ok y => exact .ok ⟨rfl, performed_ahead h hcpu y.2⟩

theorem alloc_event_ahead (hs : Settled l s) (hu : Untaken l x c s.dev) (h : Ahead l x c s t)
    {arg : AllocArg} (he : e.request = .ioctl (.BB_ALLOC arg)) :
    Twin (AheadResults l x c) (handle e s) (handle e t) := by
  have hcheck : ∀ m, check_cpumask e.call.online t.dev m = check_cpumask e.call.online s.dev m :=
    fun m => check_cpumask_same h.sameTable e.call.online m
  by_cases hacc : ∃ ioc mask, arg.read = some ioc ∧ arg.pemask = some mask ∧
      0 ≤ check_cpumask e.call.online s.dev mask
  · obtain ⟨ioc, mask, hread, hmask, hpos⟩ := hacc
    obtain ⟨i, hi, -⟩ := accepted_of_check hs.inv.table hpos
    have hpos' : 0 ≤ check_cpumask e.call.online t.dev mask := by
      rw [hcheck]
      exact hpos
    rw [alloc_event_eq he hread hmask hpos, alloc_event_eq he hread hmask hpos', hcheck, hi]
    refine (allocate_ahead hu h hs.locks e.call i mask).map fun y z hyz => ?_
    exact ⟨congrArg (alloc_reply arg i.val) hyz.1, hyz.2⟩
  · have hrefused : ∀ ioc mask, arg.read = some ioc → arg.pemask = some mask →
        check_cpumask e.call.online s.dev mask < 0 := fun ioc mask hread hmask =>
      not_le.mp fun hpos => hacc ⟨ioc, mask, hread, hmask, hpos⟩
    rw [alloc_event_refused he hrefused, alloc_event_refused he fun ioc mask hread hmask => by
      rw [hcheck]
      exact hrefused ioc mask hread hmask]
    exact .ok ⟨rfl, h⟩

theorem free_event_ahead (hs : Settled l s) (hu : Untaken l x c s.dev) (h : Ahead l x c s t)
    (hcpu : e.call.cpu ≠ c.cpu) (hrange : e.CmgInRange)
    (hspare : e.Spares s c.task.tgid (x.place c)) {arg : UserArg fujitsu_hwb_ioc_bb_ctl}
    (he : e.request = .ioctl (.BB_FREE arg)) :
    Twin (AheadResults l x c) (handle e s) (handle e t) := by
  cases hread : arg.read with
  | none =>
      have hunread : e.Unread := Or.inr (Or.inr ⟨arg, he, hread⟩)
      rw [handle_unread hunread, handle_unread hunread]
      exact .ok ⟨rfl, h⟩
  | some ioc =>
      have hlt := hrange arg ioc he hread
      rw [free_event_map he hread, free_event_map he hread]
      refine (free_ahead hu h hs.locks hcpu ⟨ioc.cmg.toNat, hlt⟩ ioc.bb.toNat
        fun m a hget halloc hpid hg => ?_).map fun y z hyz =>
          ⟨congrArg (free_reply arg ioc) hyz.1, hyz.2⟩
      obtain ⟨-, hc, hb⟩ := get_allocation_eq_some hs.inv.table halloc
      have hplace : a.place = (ioc.cmg.toNat, ioc.bb.toNat) := by
        rw [a64fx_task_allocation.place, hc, Int.natCast_inj.mp hb]
      rw [hplace]
      exact hspare.1 arg ioc m he hread hget hpid hg

/-- **A request of another CPU, a window ahead.** -/
theorem handle_ahead (hs : Settled l s) (ht : Settled l t) (hu : Untaken l x c s.dev)
    (h : Ahead l x c s t) (hcpu : e.call.cpu ≠ c.cpu) (hrange : e.CmgInRange)
    (hreset : e.request ≠ .ioctl .RESET) (hspare : e.Spares s c.task.tgid (x.place c)) :
    Twin (AheadResults l x c) (handle e s) (handle e t) := by
  cases he : e.request with
  | «open» =>
      unfold handle
      rw [he]
      exact open_ahead h hs.locks
  | close =>
      unfold handle
      rw [he]
      exact close_ahead hu h hs.locks fun m hm hpos => hspare.2 m he hm hpos
  | ioctl ioc => cases ioc with
    | GET_PE_INFO arg =>
        have hsame : ∀ u, handle e u = (oss_a64fx_hwb_get_peinfo_ioctl e.call arg u) := fun u => by
          unfold handle
          rw [he]
          rfl
        rw [hsame, hsame]
        unfold oss_a64fx_hwb_get_peinfo_ioctl
        cases arg.read with
        | none => exact .ok ⟨rfl, h⟩
        | some ioc => exact Twin.ite (fun _ => .ok ⟨rfl, h⟩) fun _ => .ok ⟨rfl, h⟩
    | BW_ASSIGN arg => exact windows_ahead hs ht h hcpu (Or.inl ⟨arg, he⟩)
    | BW_UNASSIGN arg => exact windows_ahead hs ht h hcpu (Or.inr ⟨arg, he⟩)
    | BB_ALLOC arg => exact alloc_event_ahead hs hu h he
    | BB_FREE arg => exact free_event_ahead hs hu h hcpu hrange hspare he
    | RESET => exact absurd he hreset
    | other =>
        unfold handle
        rw [he]
        exact .ok ⟨rfl, h⟩

end A64fxHwb
