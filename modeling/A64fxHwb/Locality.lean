/-
What a request for a group and a CMG can look at and write.

A kernel state is split into cells: the mapping of each group, the data and the blade
registers of each CMG, the window registers of each CPU, and a rest that no request
writes; the number of mappings and the preemption count are counters. A request of a
group that is about one CMG keeps to the mapping of the group, the data and the blade
registers of the CMG, and the window registers of the CPUs of the CMG. This is shown
function by function, over the code, for two runs side by side from two states that
have the same in these cells (`Twins`).
-/
import A64fxHwb.Footprint
import A64fxHwb.Outcome

set_option autoImplicit false

namespace A64fxHwb

open BitWord Relation Runs Footprint

variable {hw : Machine} {l : Load hw} {c : Call hw} {g : ℕ} {i : Fin MAX_NUM_CMG}
variable {s₀ t₀ s t s' t' : Kernel}

/-! ## The cells of a kernel state -/

inductive Cell
  | mapping (g : ℕ)
  | cmg (i : Fin MAX_NUM_CMG)
  | init_sync_bb (i : Fin MAX_NUM_CMG)
  | assign_sync_wr (cpu : ℕ)
  | rest

inductive Counter
  | num_tasks
  | preempt_count

/-- The part of the state that the four requests leave alone, less the locks. -/
structure Rest where
  num_cmgs : ℕ
  num_bb_per_cmg : ℕ
  num_bw_per_cmg : ℕ
  max_pe_per_cmg : ℕ
  active_count : ℤ
  hwb_ctrl : ℕ → BitVec 64
  bst_sync_wr : ℕ → ℕ → BitVec 64

def Kernel.rest (s : Kernel) : Rest where
  num_cmgs := s.dev.num_cmgs
  num_bb_per_cmg := s.dev.num_bb_per_cmg
  num_bw_per_cmg := s.dev.num_bw_per_cmg
  max_pe_per_cmg := s.dev.max_pe_per_cmg
  active_count := s.dev.active_count
  hwb_ctrl := s.regs.hwb_ctrl
  bst_sync_wr := s.regs.bst_sync_wr

abbrev Cell.Val : Cell → Type
  | .mapping _ => Option a64fx_task_mapping
  | .cmg _ => a64fx_cmg_device
  | .init_sync_bb _ => ℕ → BitVec 64
  | .assign_sync_wr _ => ℕ → BitVec 64
  | .rest => Rest

/-- The mapping `get_taskmap` finds for a thread of group `g`. -/
def Kernel.mapping (s : Kernel) (g : ℕ) : Option a64fx_task_mapping :=
  Keyed.lookup a64fx_task_mapping.group g s.dev.task_list

theorem get_taskmap_eq (s : Kernel) (task : task_struct) :
    get_taskmap s.dev task = s.mapping task.tgid := rfl

/-- The cells, and the two counters. -/
def cells : Layout Kernel Cell Counter Cell.Val where
  cell x s :=
    match x with
    | .mapping g => s.mapping g
    | .cmg i => s.dev.cmgs i
    | .init_sync_bb i => s.regs.init_sync_bb i
    | .assign_sync_wr cpu => s.regs.assign_sync_wr cpu
    | .rest => s.rest
  count k s :=
    match k with
    | .num_tasks => s.dev.num_tasks
    | .preempt_count => s.preempt_count

/-- The cells of a request of group `g` about CMG `i`. -/
def footprint (hw : Machine) (g : ℕ) (i : Fin MAX_NUM_CMG) : Set Cell := fun x =>
  match x with
  | .mapping g' => g' = g
  | .cmg j => j = i
  | .init_sync_bb j => j = i
  | .assign_sync_wr cpu => hw.cmg cpu = i
  | .rest => False

/-- Different groups and different CMGs have no cell in common. -/
theorem disjoint_footprint {g' : ℕ} {i' : Fin MAX_NUM_CMG} (hg : g ≠ g') (hi : i ≠ i') {x : Cell}
    (h : x ∈ footprint hw g i) : x ∉ footprint hw g' i' := by
  intro h'
  cases x with
  | mapping =>
      have h1 : _ = g := h
      exact hg (h1.symm.trans h')
  | cmg =>
      have h1 : _ = i := h
      exact hi (h1.symm.trans h')
  | init_sync_bb =>
      have h1 : _ = i := h
      exact hi (h1.symm.trans h')
  | assign_sync_wr =>
      have h1 : hw.cmg _ = i := h
      exact hi (h1.symm.trans h')
  | rest => exact h

/-- The two states have the same in these cells. -/
structure Inside (hw : Machine) (g : ℕ) (i : Fin MAX_NUM_CMG) (s t : Kernel) : Prop where
  mapping : s.mapping g = t.mapping g
  cmg : s.dev.cmgs i = t.dev.cmgs i
  init_sync_bb : s.regs.init_sync_bb i = t.regs.init_sync_bb i
  assign_sync_wr : ∀ k, hw.cmg k = i → s.regs.assign_sync_wr k = t.regs.assign_sync_wr k

/-- The two states have the same in all others. -/
structure Outside (hw : Machine) (g : ℕ) (i : Fin MAX_NUM_CMG) (s s' : Kernel) : Prop where
  mapping : ∀ g', g' ≠ g → s.mapping g' = s'.mapping g'
  cmg : ∀ j, j ≠ i → s.dev.cmgs j = s'.dev.cmgs j
  init_sync_bb : ∀ j, j ≠ i → s.regs.init_sync_bb j = s'.regs.init_sync_bb j
  assign_sync_wr : ∀ k, hw.cmg k ≠ i → s.regs.assign_sync_wr k = s'.regs.assign_sync_wr k
  rest : s.rest = s'.rest

theorem agree_footprint : cells.Agree (footprint hw g i) s t ↔ Inside hw g i s t := by
  constructor
  · intro h
    exact ⟨h (.mapping g) rfl, h (.cmg i) rfl, h (.init_sync_bb i) rfl,
      fun k hk => h (.assign_sync_wr k) hk⟩
  · intro h x hx
    cases x with
    | mapping g' =>
        have hx' : g' = g := hx
        rw [hx']
        exact h.mapping
    | cmg j =>
        have hx' : j = i := hx
        rw [hx']
        exact h.cmg
    | init_sync_bb j =>
        have hx' : j = i := hx
        rw [hx']
        exact h.init_sync_bb
    | assign_sync_wr k => exact h.assign_sync_wr k hx
    | rest => exact False.elim hx

theorem agree_compl : cells.Agree (footprint hw g i)ᶜ s s' ↔ Outside hw g i s s' := by
  constructor
  · intro h
    exact ⟨fun g' hg => h (.mapping g') hg, fun j hj => h (.cmg j) hj,
      fun j hj => h (.init_sync_bb j) hj, fun k hk => h (.assign_sync_wr k) hk, h .rest id⟩
  · intro h x hx
    cases x with
    | mapping g' => exact h.mapping g' hx
    | cmg j => exact h.cmg j hx
    | init_sync_bb j => exact h.init_sync_bb j hx
    | assign_sync_wr k => exact h.assign_sync_wr k hx
    | rest => exact h.rest

/-- Only the locks and the counters differ. -/
theorem Outside.refl (s : Kernel) (hdev : s'.dev = s.dev) (hregs : s'.regs = s.regs) :
    Outside hw g i s s' := by
  refine ⟨fun _ _ => ?_, fun _ _ => by rw [hdev], fun _ _ => by rw [hregs],
    fun _ _ => by rw [hregs], ?_⟩
  · rw [Kernel.mapping, Kernel.mapping, hdev]
  · rw [Kernel.rest, Kernel.rest, hdev, hregs]

/-! ## Two runs side by side -/

/-- What the functions below the locks rely on: the core table, and one mapping for
each group. -/
structure Shape (l : Load hw) (d : a64fx_hwb_device) : Prop where
  table : Table l d
  groups : (d.task_list.map a64fx_task_mapping.group).Nodup

theorem Inv.shape {d : a64fx_hwb_device} (hi : Inv l d) : Shape l d := ⟨hi.table, hi.lists.groups⟩

/-- Two runs that started in `s₀` and `t₀` have come to `s` and `t`. -/
structure Twins (l : Load hw) (g : ℕ) (i : Fin MAX_NUM_CMG) (s₀ t₀ s t : Kernel) : Prop where
  step : cells.Step (footprint hw g i) s₀ t₀ s t
  locks : s.locks = t.locks
  left : Shape l s.dev
  right : Shape l t.dev

namespace Twins

/-- A counter that is left alone. -/
theorem same {a b : ℤ} : a = a + 0 ∧ b = b + 0 := ⟨(add_zero a).symm, (add_zero b).symm⟩

theorem inside (h : Twins l g i s₀ t₀ s t) : Inside hw g i s t := agree_footprint.mp h.step.agree

theorem start (h : Inside hw g i s t) (hlocks : s.locks = t.locks) (hs : Shape l s.dev)
    (ht : Shape l t.dev) : Twins l g i s t s t :=
  ⟨.refl (agree_footprint.mpr h), hlocks, hs, ht⟩

/-- One more step of both runs, which adds `n` to the number of mappings and `p` to the
preemption count. -/
theorem next (h : Twins l g i s₀ t₀ s t) (hin : Inside hw g i s' t') (hs : Outside hw g i s s')
    (ht : Outside hw g i t t') {n p : ℤ}
    (hnum : s'.dev.num_tasks = s.dev.num_tasks + n ∧ t'.dev.num_tasks = t.dev.num_tasks + n)
    (hpre : s'.preempt_count = s.preempt_count + p ∧ t'.preempt_count = t.preempt_count + p)
    (hlocks : s'.locks = t'.locks) (hl : Shape l s'.dev) (hr : Shape l t'.dev) :
    Twins l g i s₀ t₀ s' t' := by
  refine ⟨h.step.trans ⟨agree_footprint.mpr hin, agree_compl.mpr hs, agree_compl.mpr ht, ?_⟩,
    hlocks, hl, hr⟩
  intro k
  cases k with
  | num_tasks =>
      show s'.dev.num_tasks - s.dev.num_tasks = t'.dev.num_tasks - t.dev.num_tasks
      omega
  | preempt_count =>
      show s'.preempt_count - s.preempt_count = t'.preempt_count - t.preempt_count
      omega

/-- A write to the data of the CMG. -/
theorem with_cmg (h : Twins l g i s₀ t₀ s t) (f : a64fx_cmg_device → a64fx_cmg_device)
    (hf : ∀ x, (f x).cmg_id = x.cmg_id ∧ (f x).num_pes = x.num_pes ∧ (f x).cmgmask = x.cmgmask)
    (hp : ∀ x j, ((f x).pe_map j).cpu_id = (x.pe_map j).cpu_id ∧
      ((f x).pe_map j).cmg_id = (x.pe_map j).cmg_id ∧
      ((f x).pe_map j).ppe_id = (x.pe_map j).ppe_id) :
    Twins l g i s₀ t₀ { s with dev := s.dev.with_cmg i f }
      { t with dev := t.dev.with_cmg i f } := by
  have hin := h.inside
  have hout : ∀ u : Kernel, Outside hw g i u { u with dev := u.dev.with_cmg i f } := fun u =>
    ⟨fun _ _ => rfl, fun j hj => (Function.update_of_ne hj _ _).symm, fun _ _ => rfl,
      fun _ _ => rfl, rfl⟩
  refine h.next ⟨hin.mapping, ?_, hin.init_sync_bb, hin.assign_sync_wr⟩ (hout s) (hout t) same same
    h.locks ?_ ?_
  · show Function.update s.dev.cmgs i (f (s.dev.cmgs i)) i =
      Function.update t.dev.cmgs i (f (t.dev.cmgs i)) i
    rw [Function.update_self, Function.update_self, hin.cmg]
  · exact ⟨(SameTable.with_cmg s.dev i f hf hp).table h.left.table, h.left.groups⟩
  · exact ⟨(SameTable.with_cmg t.dev i f hf hp).table h.right.table, h.right.groups⟩

/-- A write to the bookkeeping of one PE of the CMG. -/
theorem with_pe (h : Twins l g i s₀ t₀ s t) (j : Fin MAX_PE_PER_CMG)
    (f : a64fx_core_mapping → a64fx_core_mapping)
    (hf : ∀ p, (f p).cpu_id = p.cpu_id ∧ (f p).cmg_id = p.cmg_id ∧ (f p).ppe_id = p.ppe_id) :
    Twins l g i s₀ t₀ { s with dev := s.dev.with_cmg i fun d => d.with_pe j f }
      { t with dev := t.dev.with_cmg i fun d => d.with_pe j f } := by
  refine h.with_cmg _ (fun x => ⟨rfl, rfl, rfl⟩) fun x j' => ?_
  by_cases hj : j' = j
  · rw [hj, a64fx_cmg_device.with_pe]
    simp only [Function.update_self]
    exact hf _
  · rw [a64fx_cmg_device.with_pe]
    simp only [Function.update_of_ne hj, and_self]

/-- A write to the mapping of the group. -/
theorem with_taskmap (h : Twins l g i s₀ t₀ s t) {tm : a64fx_task_mapping} (hg : tm.group = g)
    (f : a64fx_task_mapping → a64fx_task_mapping) (hf : ∀ m, (f m).group = m.group) :
    Twins l g i s₀ t₀ { s with dev := s.dev.with_taskmap tm f }
      { t with dev := t.dev.with_taskmap tm f } := by
  have hin := h.inside
  have hkey : ∀ m : a64fx_task_mapping, m.group = tm.group → (f m).group = tm.group :=
    fun m hm => (hf m).trans hm
  have hout : ∀ u : Kernel, Outside hw g i u { u with dev := u.dev.with_taskmap tm f } := by
    intro u
    refine ⟨fun g' hg' => ?_, fun _ _ => rfl, fun _ _ => rfl, fun _ _ => rfl, rfl⟩
    exact (Keyed.lookup_modify_of_ne hkey (hg ▸ hg') u.dev.task_list).symm
  have hmapping : ∀ u : Kernel, ({ u with dev := u.dev.with_taskmap tm f } : Kernel).mapping g =
      (u.mapping g).map f := by
    intro u
    rw [← hg]
    exact Keyed.lookup_modify_self hkey u.dev.task_list
  have hshape : ∀ u : Kernel, Shape l u.dev → Shape l (u.dev.with_taskmap tm f) := by
    intro u hu
    refine ⟨⟨hu.table.num_cmgs, hu.table.num_bb, hu.table.cmg_id, hu.table.filled, hu.table.slot,
      hu.table.cmgmask⟩, ?_⟩
    rw [a64fx_hwb_device.with_taskmap, Keyed.map_key_modify hkey]
    exact hu.groups
  refine h.next ⟨?_, hin.cmg, hin.init_sync_bb, hin.assign_sync_wr⟩ (hout s) (hout t) same same
    h.locks (hshape s h.left) (hshape t h.right)
  rw [hmapping, hmapping, hin.mapping]

theorem store_alloc (h : Twins l g i s₀ t₀ s t) {tm : a64fx_task_mapping} (hg : tm.group = g)
    (a : a64fx_task_allocation) :
    Twins l g i s₀ t₀ { s with dev := s.dev.store_alloc tm a }
      { t with dev := t.dev.store_alloc tm a } :=
  h.with_taskmap hg _ fun _ => rfl

/-- A new mapping for the group, -/
theorem map_group (h : Twins l g i s₀ t₀ s t) {task : task_struct} (hg : task.tgid = g)
    (hnone : s.mapping g = none) :
    Twins l g i s₀ t₀ { s with dev := s.dev.map_group task }
      { t with dev := t.dev.map_group task } := by
  have hin := h.inside
  have hm : (⟨task, [], 0⟩ : a64fx_task_mapping).group = g := hg
  have hout : ∀ u : Kernel, Outside hw g i u { u with dev := u.dev.map_group task } := by
    intro u
    refine ⟨fun g' hg' => ?_, fun _ _ => rfl, fun _ _ => rfl, fun _ _ => rfl, rfl⟩
    have hne : (⟨task, [], 0⟩ : a64fx_task_mapping).group ≠ g' := fun h => hg' (h.symm.trans hm)
    exact (Keyed.lookup_cons_of_ne hne).symm
  have hshape : ∀ u : Kernel, u.mapping g = none → Shape l u.dev →
      Shape l (u.dev.map_group task) := by
    intro u hu hshape
    refine ⟨⟨hshape.table.num_cmgs, hshape.table.num_bb, hshape.table.cmg_id, hshape.table.filled,
      hshape.table.slot, hshape.table.cmgmask⟩, ?_⟩
    rw [a64fx_hwb_device.map_group, List.map_cons, List.nodup_cons]
    refine ⟨fun hmem => ?_, hshape.groups⟩
    obtain ⟨m, hm, hmg⟩ := List.mem_map.mp hmem
    exact Keyed.lookup_eq_none.mp hu m hm (hmg.trans hg)
  refine h.next ⟨?_, hin.cmg, hin.init_sync_bb, hin.assign_sync_wr⟩ (hout s) (hout t) ⟨rfl, rfl⟩
    same h.locks (hshape s hnone h.left) (hshape t (hin.mapping ▸ hnone) h.right)
  exact (Keyed.lookup_cons_self hm).trans (Keyed.lookup_cons_self hm).symm

/-- and the mapping of the group unlinked. -/
theorem unmap_group (h : Twins l g i s₀ t₀ s t) :
    Twins l g i s₀ t₀ { s with dev := s.dev.unmap_group g }
      { t with dev := t.dev.unmap_group g } := by
  have hin := h.inside
  have hout : ∀ u : Kernel, Outside hw g i u { u with dev := u.dev.unmap_group g } := fun u =>
    ⟨fun g' hg' => (Keyed.lookup_erase_of_ne hg' u.dev.task_list).symm, fun _ _ => rfl,
      fun _ _ => rfl, fun _ _ => rfl, rfl⟩
  have hshape : ∀ u : Kernel, Shape l u.dev → Shape l (u.dev.unmap_group g) := fun u hu =>
    ⟨⟨hu.table.num_cmgs, hu.table.num_bb, hu.table.cmg_id, hu.table.filled, hu.table.slot,
      hu.table.cmgmask⟩, Keyed.nodup_map_key_erase hu.groups⟩
  refine h.next ⟨?_, hin.cmg, hin.init_sync_bb, hin.assign_sync_wr⟩ (hout s) (hout t) ⟨rfl, rfl⟩
    same h.locks (hshape s h.left) (hshape t h.right)
  exact (Keyed.lookup_erase_self h.left.groups).trans
      (Keyed.lookup_erase_self h.right.groups).symm

/-- A write to the registers, of the CMG's blades or of its CPUs' windows. -/
theorem with_regs (h : Twins l g i s₀ t₀ s t) {r r' : hwb_regs}
    (hbb : r.init_sync_bb i = r'.init_sync_bb i)
    (hwr : ∀ k, hw.cmg k = i → r.assign_sync_wr k = r'.assign_sync_wr k)
    (hs : Outside hw g i s { s with regs := r }) (ht : Outside hw g i t { t with regs := r' }) :
    Twins l g i s₀ t₀ { s with regs := r } { t with regs := r' } := by
  have hin := h.inside
  exact h.next ⟨hin.mapping, hin.cmg, hbb, hwr⟩ hs ht same same h.locks h.left h.right

/-- A window register of a CPU of the CMG. -/
theorem set_wr (h : Twins l g i s₀ t₀ s t) {k : ℕ} (hk : hw.cmg k = i) (window valid blade : ℤ) :
    Twins l g i s₀ t₀ (A64fxHwb.set_wr c k window valid blade s)
      (A64fxHwb.set_wr c k window valid blade t) := by
  have hin := h.inside
  unfold A64fxHwb.set_wr smp_call_function_single
  by_cases hon : 0 ≤ (k : ℤ) ∧ c.online.getLsbD (k : ℤ).toNat = true
  swap
  · rw [if_neg hon, if_neg hon]
    exact h
  rw [if_pos hon, if_pos hon, Int.toNat_natCast]
  unfold write_assign_sync_wr
  by_cases hrange : window < 0 ∨ window ≥ MAX_BW_PER_CMG ∨ blade < 0 ∨ blade ≥ MAX_BB_PER_CMG
  · simp only [if_pos hrange]
    exact h
  · simp only [if_neg hrange]
    have hout : ∀ u : Kernel, Outside hw g i u { u with regs := { u.regs with
        assign_sync_wr := Function.update u.regs.assign_sync_wr k (Function.update
          (u.regs.assign_sync_wr k) window.toNat (assign_sync_wr_val valid blade)) } } := by
      intro u
      refine ⟨fun _ _ => rfl, fun _ _ => rfl, fun _ _ => rfl, fun k' hk' => ?_, rfl⟩
      have hne : k' ≠ k := fun heq => hk' (heq ▸ hk)
      exact (Function.update_of_ne hne _ _).symm
    refine h.with_regs hin.init_sync_bb (fun k' hk' => ?_) (hout s) (hout t)
    by_cases heq : k' = k
    · rw [heq]
      show Function.update s.regs.assign_sync_wr k _ k = Function.update t.regs.assign_sync_wr k _ k
      rw [Function.update_self, Function.update_self, hin.assign_sync_wr k hk]
    · show Function.update s.regs.assign_sync_wr k _ k' =
        Function.update t.regs.assign_sync_wr k _ k'
      rw [Function.update_of_ne heq, Function.update_of_ne heq]
      exact hin.assign_sync_wr k' hk'

/-- A blade register of the CMG: whichever CPU of the CMG writes it. -/
theorem smp_any (h : Twins l g i s₀ t₀ s t) {cpus : cpumask_t}
    (hcpus : ∀ k, cpus.getLsbD k = true → hw.cmg k = i) (info : hwb_allocate_info) :
    Twins l g i s₀ t₀ (smp_call_function_any c cpus (oss_a64fx_hwb_allocate_func hw info) s)
      (smp_call_function_any c cpus (oss_a64fx_hwb_allocate_func hw info) t) := by
  have hin := h.inside
  unfold smp_call_function_any oss_a64fx_hwb_allocate_func
  by_cases hnone : cpus &&& c.online = 0
  · rw [if_pos hnone, if_pos hnone]
    exact h
  rw [if_neg hnone, if_neg hnone]
  have hmem := c.any_mem _ hnone
  generalize c.any (cpus &&& c.online) = k at hmem
  rw [BitVec.getLsbD_and, Bool.and_eq_true] at hmem
  have hk : hw.cmg k = i := hcpus k hmem.1
  unfold write_init_sync_bb
  by_cases hrange : info.blade < 0 ∨ info.blade ≥ MAX_BB_PER_CMG ∨ info.ppemask = 0
  · simp only [if_pos hrange]
    exact h
  · simp only [if_neg hrange, hk]
    have hout : ∀ u : Kernel, Outside hw g i u { u with regs := { u.regs with
        init_sync_bb := Function.update u.regs.init_sync_bb i (Function.update
          (u.regs.init_sync_bb i) info.blade.toNat (init_sync_bb_val info.ppemask)) } } := fun u =>
      ⟨fun _ _ => rfl, fun _ _ => rfl, fun j hj => (Function.update_of_ne hj _ _).symm,
        fun _ _ => rfl, rfl⟩
    refine h.with_regs ?_ hin.assign_sync_wr (hout s) (hout t)
    show Function.update s.regs.init_sync_bb i _ i = Function.update t.regs.init_sync_bb i _ i
    rw [Function.update_self, Function.update_self, hin.init_sync_bb]

theorem arm_blade (h : Twins l g i s₀ t₀ s t) (blade : ℤ) (mask : BitVec 64) :
    Twins l g i s₀ t₀ (A64fxHwb.arm_blade c i blade mask s)
      (A64fxHwb.arm_blade c i blade mask t) := by
  have harm := h.smp_any (c := c) (fun k hk => ((h.left.table.cmgmask i k).mp hk).2)
    { blade := blade, cmg := 0, ppemask := mask }
  unfold A64fxHwb.arm_blade
  rw [← h.inside.cmg]
  exact harm

theorem get_cpu (h : Twins l g i s₀ t₀ s t) :
    Twins l g i s₀ t₀ (A64fxHwb.get_cpu s) (A64fxHwb.get_cpu t) := by
  have hin := h.inside
  exact h.next ⟨hin.mapping, hin.cmg, hin.init_sync_bb, hin.assign_sync_wr⟩ (.refl s rfl rfl)
    (.refl t rfl rfl) same ⟨rfl, rfl⟩ h.locks h.left h.right

theorem put_cpu (h : Twins l g i s₀ t₀ s t) :
    Twins l g i s₀ t₀ (A64fxHwb.put_cpu s) (A64fxHwb.put_cpu t) := by
  have hin := h.inside
  exact h.next ⟨hin.mapping, hin.cmg, hin.init_sync_bb, hin.assign_sync_wr⟩ (.refl s rfl rfl)
    (.refl t rfl rfl) same ⟨sub_eq_add_neg _ _, sub_eq_add_neg _ _⟩ h.locks h.left h.right

theorem with_locks (h : Twins l g i s₀ t₀ s t) (L : Locks) :
    Twins l g i s₀ t₀ { s with locks := L } { t with locks := L } := by
  have hin := h.inside
  exact h.next ⟨hin.mapping, hin.cmg, hin.init_sync_bb, hin.assign_sync_wr⟩ (.refl s rfl rfl)
    (.refl t rfl rfl) same same rfl h.left h.right

end Twins

/-! ## Giving a blade back -/

/-- The two walks of `free_allocation` over the assign mask. -/
structure LoopTwins (l : Load hw) (g : ℕ) (i : Fin MAX_NUM_CMG) (s₀ t₀ : Kernel)
    (x y : FreeLoop) : Prop where
  kernel : Twins l g i s₀ t₀ x.kernel y.kernel
  alloc : x.alloc = y.alloc
  pemap : x.pemap = y.pemap
  slot : ∀ j, x.pemap = some j → j.val < (x.kernel.dev.cmgs i).num_pes

/-- The slot the walk looks at is one of the CMG's, found now or for an earlier CPU. -/
theorem slot_lt_of_found {cmg : a64fx_cmg_device} (cpu : ℕ) {pe : Option (Fin MAX_PE_PER_CMG)}
    (hslot : ∀ j, pe = some j → j.val < cmg.num_pes) (j : Fin MAX_PE_PER_CMG)
    (h : (cmg.slots.find? fun j => decide ((cmg.pe_map j).cpu_id = cpu)).or pe = some j) :
    j.val < cmg.num_pes := by
  rcases Option.or_eq_some_iff.mp h with hfind | ⟨-, hpe⟩
  · exact (cmg.mem_slots j).mp (List.mem_of_find?_eq_some hfind)
  · exact hslot j hpe

theorem pemap_deref_eq_ok {pe : Option (Fin MAX_PE_PER_CMG)} {j : Fin MAX_PE_PER_CMG}
    (h : pemap_deref pe = .ok j) : pe = some j := by
  cases pe with
  | none => cases h
  | some j' =>
      cases h
      rfl

/-- The entry that is found belongs to a CPU of the CMG, whichever CPU it was looked up
for. -/
theorem cmg_of_slot {d : a64fx_hwb_device} (ht : Table l d) {j : Fin MAX_PE_PER_CMG}
    (hj : j.val < (d.cmgs i).num_pes) :
    ∃ k : ℕ, ((d.cmgs i).pe_map j).cpu_id = k ∧ hw.cmg k = i := by
  obtain ⟨k, -, hc, -, hcpu, -⟩ := ht.filled i j hj
  exact ⟨k, hcpu, hc⟩

theorem free_allocation_cpu_twin {tm : a64fx_task_mapping} (hg : tm.group = g) {x y : FreeLoop}
    (h : LoopTwins l g i s₀ t₀ x y) (cpu : ℕ) :
    Twin (LoopTwins l g i s₀ t₀) (free_allocation_cpu c i tm x cpu)
      (free_allocation_cpu c i tm y cpu) := by
  obtain ⟨ks, a, pe⟩ := x
  obtain ⟨kt, a', pe'⟩ := y
  obtain ⟨hk, ha, hpe, hslot⟩ := h
  simp only at hk ha hpe hslot
  subst ha
  subst hpe
  have hcmg : kt.dev.cmgs i = ks.dev.cmgs i := hk.inside.cmg.symm
  unfold free_allocation_cpu
  simp only [hcmg]
  have hfound := slot_lt_of_found cpu hslot
  generalize ((ks.dev.cmgs i).slots.find? fun j =>
    decide (((ks.dev.cmgs i).pe_map j).cpu_id = cpu)).or pe = found at hfound
  refine Twin.bind_same fun j hj => ?_
  have hjlt := hfound j (pemap_deref_eq_ok hj)
  obtain ⟨k, hcpu, hkc⟩ := cmg_of_slot hk.left.table hjlt
  refine Twin.bind_same fun ppe _ => ?_
  refine Twin.ite (fun _ => ?_) fun _ => .ok ⟨hk, rfl, rfl, hfound⟩
  refine Twin.bind_same fun bw_map _ => ?_
  -- the register, the bit, and the allocation
  have hregs := hk.set_wr (c := c) hkc (a.window ppe) 0 0
  have hbit := hregs.with_pe j (fun p => { p with bw_map := bw_map }) fun _ => ⟨rfl, rfl, rfl⟩
  have hstore := hbit.store_alloc hg { a with
    assign_mask := cpumask_clear_cpu cpu a.assign_mask
    window := Function.update a.window ppe A64FX_HWB_UNASSIGNED_WIN
    assign_count := a.assign_count - 1 }
  simp only [smp_assign, hcpu]
  refine .ok ⟨hstore, rfl, rfl, fun j' hj' => ?_⟩
  have hlt := hfound j' hj'
  show j'.val < (Function.update ks.dev.cmgs i ((ks.dev.cmgs i).with_pe j _) i).num_pes
  rw [Function.update_self]
  exact hlt

/-- `free_allocation` after its walk: the refused register write, the blade's bit, and
the list. -/
def free_allocation_rest (c : Call hw) (i : Fin MAX_NUM_CMG) (tm : a64fx_task_mapping)
    (a : a64fx_task_allocation) (s : Kernel) : Except Fault Kernel := do
  let s := arm_blade c i a.blade 0 s
  let bb_active ← clear_bit a.blade (s.dev.cmgs i).bb_active
  let dev := s.dev.with_cmg i fun d => { d with bb_active := bb_active }
  return { s with dev := dev.with_taskmap tm (a64fx_task_mapping.drop a.place) }

theorem free_allocation_parts (tm : a64fx_task_mapping) (a : a64fx_task_allocation) (s : Kernel) :
    free_allocation c i tm a s = (test_bit c a.blade (s.dev.cmgs i).bb_active >>= fun active =>
      if active then
        (if a.assign_count > 0 then free_allocation_loop c i tm ⟨s, a, none⟩
          else .ok ⟨s, a, none⟩) >>= fun x => free_allocation_rest c i tm a x.kernel
      else .ok { s with dev := s.dev.with_taskmap tm (a64fx_task_mapping.drop a.place) }) := by
  unfold free_allocation
  congr 1
  funext active
  by_cases hactive : active = true
  · simp only [if_pos hactive]
    by_cases hcount : a.assign_count > 0
    · simp only [if_pos hcount]
      rfl
    · simp only [if_neg hcount]
      rfl
  · simp only [if_neg hactive]
    rfl

theorem free_allocation_rest_twin {tm : a64fx_task_mapping} (hg : tm.group = g)
    (a : a64fx_task_allocation) (h : Twins l g i s₀ t₀ s t) :
    Twin (Twins l g i s₀ t₀) (free_allocation_rest c i tm a s)
      (free_allocation_rest c i tm a t) := by
  have harm := h.arm_blade (c := c) a.blade 0
  unfold free_allocation_rest
  simp only
  rw [← harm.inside.cmg]
  refine Twin.bind_same fun bb_active _ => ?_
  have hbit := harm.with_cmg (fun d => { d with bb_active := bb_active })
    (fun _ => ⟨rfl, rfl, rfl⟩) fun _ _ => ⟨rfl, rfl, rfl⟩
  exact .ok (hbit.with_taskmap hg (a64fx_task_mapping.drop a.place) fun _ => rfl)

theorem free_allocation_twin {tm : a64fx_task_mapping} (hg : tm.group = g)
    (h : Twins l g i s₀ t₀ s t) (a : a64fx_task_allocation) :
    Twin (Twins l g i s₀ t₀) (free_allocation c i tm a s) (free_allocation c i tm a t) := by
  rw [free_allocation_parts, free_allocation_parts, ← h.inside.cmg]
  refine Twin.bind_same fun active _ => ?_
  refine Twin.ite (fun _ => ?_) fun _ =>
    .ok (h.with_taskmap hg (a64fx_task_mapping.drop a.place) fun _ => rfl)
  have hstart : LoopTwins l g i s₀ t₀ ⟨s, a, none⟩ ⟨t, a, none⟩ := ⟨h, rfl, rfl, nofun⟩
  refine Twin.bind (R := LoopTwins l g i s₀ t₀) ?_ fun x y hxy =>
    free_allocation_rest_twin hg a hxy.kernel
  refine Twin.ite (fun _ => ?_) fun _ => .ok hstart
  -- the walk, one CPU after the other
  refine Twin.foldlM (fun cpu _ x y hxy => ?_) hstart
  rw [← hxy.alloc]
  exact Twin.ite (fun _ => free_allocation_cpu_twin hg hxy cpu) fun _ => .ok hxy

theorem unregister_if_empty_twin {tm : a64fx_task_mapping} (hg : tm.group = g)
    (h : Twins l g i s₀ t₀ s t) :
    Twin (Twins l g i s₀ t₀) (unregister_if_empty c tm s) (unregister_if_empty c tm t) := by
  have hgroup : tm.task.tgid = g := hg
  unfold unregister_if_empty
  rw [get_taskmap_eq, get_taskmap_eq, hgroup, ← h.inside.mapping]
  cases hm : s.mapping g with
  | none => exact .error _
  | some m =>
      have hmg : m.group = g := Keyed.lookup_key hm
      by_cases hzero : m.num_allocs = 0
      · simp only [if_pos hzero]
        rw [unregister_task_empty hzero, unregister_task_empty hzero, hmg]
        exact .ok h.unmap_group
      · simp only [if_neg hzero]
        exact .ok h

/-- A value, and the state it was computed in. -/
def TwinResults {ρ : Type} (l : Load hw) (g : ℕ) (i : Fin MAX_NUM_CMG) (s₀ t₀ : Kernel)
    (x y : ρ × Kernel) : Prop :=
  x.1 = y.1 ∧ Twins l g i s₀ t₀ x.2 y.2

/-- The locks are the same in both runs, so taking or releasing one succeeds in both or in
none. -/
theorem spin_unlock_dev_twin (h : Twins l g i s₀ t₀ s t) :
    Twin (Twins l g i s₀ t₀) (spin_unlock_dev s) (spin_unlock_dev t) := by
  unfold spin_unlock_dev
  rw [← h.locks]
  by_cases hheld : s.locks.dev_lock = true
  · rw [if_pos hheld, if_pos hheld]
    exact .ok (h.with_locks _)
  · rw [if_neg hheld, if_neg hheld]
    exact .error _

theorem spin_lock_cmg_twin (h : Twins l g i s₀ t₀ s t) (j : Fin MAX_NUM_CMG) :
    Twin (fun u v => Twins l g i s₀ t₀ u v ∧ u.dev = s.dev) (spin_lock_cmg j s)
      (spin_lock_cmg j t) := by
  unfold spin_lock_cmg
  rw [← h.locks]
  by_cases hheld : s.locks.cmg_lock j = true
  · rw [if_pos hheld, if_pos hheld]
    exact .error _
  · rw [if_neg hheld, if_neg hheld]
    exact .ok ⟨h.with_locks _, rfl⟩

theorem spin_unlock_cmg_twin (h : Twins l g i s₀ t₀ s t) (j : Fin MAX_NUM_CMG) :
    Twin (Twins l g i s₀ t₀) (spin_unlock_cmg j s) (spin_unlock_cmg j t) := by
  unfold spin_unlock_cmg
  rw [← h.locks]
  by_cases hheld : s.locks.cmg_lock j = true
  · rw [if_pos hheld, if_pos hheld]
    exact .ok (h.with_locks _)
  · rw [if_neg hheld, if_neg hheld]
    exact .error _

/-- The end of a function that has one CMG's lock. -/
theorem unlock_cmg_return {ρ : Type} (h : Twins l g i s₀ t₀ s t) (j : Fin MAX_NUM_CMG) (r : ρ) :
    Twin (TwinResults l g i s₀ t₀) (spin_unlock_cmg j s >>= fun s => pure (r, s))
      (spin_unlock_cmg j t >>= fun t => pure (r, t)) :=
  (spin_unlock_cmg_twin h j).bind fun _ _ hun => .ok ⟨rfl, hun⟩

theorem get_pemap_twin (h : Twins l g i s₀ t₀ s t) (ppe : ℕ) :
    get_pemap t.dev i ppe = get_pemap s.dev i ppe := by
  unfold get_pemap
  rw [h.inside.cmg]

/-- What `get_pemap` found on the CMG is the entry of a CPU of the CMG. -/
theorem cmg_of_deref {d : a64fx_hwb_device} (ht : Table l d) {ppe : ℕ} {j : Fin MAX_PE_PER_CMG}
    (hj : pemap_deref (get_pemap d i ppe) = .ok j) :
    ∃ k : ℕ, ((d.cmgs i).pe_map j).cpu_id = k ∧ hw.cmg k = i := by
  have hsome := List.mem_of_find?_eq_some (pemap_deref_eq_ok hj)
  exact cmg_of_slot ht (((d.cmgs i).mem_slots j).mp hsome)

theorem free_unassign_twin {tm : a64fx_task_mapping} (hg : tm.group = g)
    (h : Twins l g i s₀ t₀ s t) (a : a64fx_task_allocation) (ppe : ℕ) :
    Twin (TwinResults l g i s₀ t₀)
      (oss_a64fx_hwb_free_unassign c i (get_pemap s.dev i ppe) tm a s)
      (oss_a64fx_hwb_free_unassign c i (get_pemap t.dev i ppe) tm a t) := by
  rw [get_pemap_twin h ppe]
  unfold oss_a64fx_hwb_free_unassign
  rw [← h.inside.cmg]
  refine Twin.bind_same fun j hj => ?_
  obtain ⟨k, hcpu, hkc⟩ := cmg_of_deref h.left.table hj
  simp only [hcpu]
  refine Twin.bind_same fun p _ => ?_
  refine Twin.bind_same fun bw_map _ => ?_
  refine Twin.bind_same fun w _ => ?_
  -- the entry, the allocation, and a window register of the CPU
  have hentry := h.with_pe j (fun q => { q with
    bw_map := bw_map
    win_blades := Function.update ((s.dev.cmgs i).pe_map j).win_blades w A64FX_HWB_UNASSIGNED_WIN })
    fun _ => ⟨rfl, rfl, rfl⟩
  have hstore := hentry.store_alloc hg { a with
    window := Function.update a.window p A64FX_HWB_UNASSIGNED_WIN
    assign_mask := cpumask_clear_cpu c.cpu a.assign_mask
    assign_count := a.assign_count - 1 }
  exact .ok ⟨rfl, hstore.set_wr (c := c) hkc 0 0 0⟩

theorem free_leave_twin {tm : a64fx_task_mapping} (hg : tm.group = g)
    (h : Twins l g i s₀ t₀ s t) (a : a64fx_task_allocation) :
    Twin (Twins l g i s₀ t₀) (oss_a64fx_hwb_free_leave c i tm a s)
      (oss_a64fx_hwb_free_leave c i tm a t) := by
  have hleft : Twins l g i s₀ t₀ (with_left c i tm a s) (with_left c i tm a t) := by
    have harm := h.arm_blade (c := c) a.blade
      (cpumask_to_ppemask (s.dev.cmgs i) (a.leave c.cpu).cpumask)
    have hstore := harm.store_alloc hg (a.leave c.cpu)
    unfold with_left
    rw [← h.inside.cmg]
    exact hstore
  rw [free_leave_eq, free_leave_eq]
  refine Twin.ite (fun _ => ?_) fun _ => .ok hleft
  refine (free_allocation_twin hg hleft _).bind fun u v huv => ?_
  exact unregister_if_empty_twin hg huv

/-- A CPU with a window in the allocation is a CPU of the CMG; any other leaves without
a look at the table. -/
theorem free_withdraw_twin {tm : a64fx_task_mapping} (hg : tm.group = g)
    (h : Twins l g i s₀ t₀ s t) {a : a64fx_task_allocation}
    (hassign : a.assign_mask.getLsbD c.cpu = true → hw.cmg c.cpu = i) :
    Twin (Twins l g i s₀ t₀) (oss_a64fx_hwb_free_withdraw c i tm a s)
      (oss_a64fx_hwb_free_withdraw c i tm a t) := by
  have hcpu := h.get_cpu
  unfold oss_a64fx_hwb_free_withdraw
  simp only [Machine.read_peinfo]
  refine Twin.ite (fun _ => ?_) fun _ => .ok hcpu
  refine Twin.ite (fun hbit => ?_) fun _ => ?_
  · rw [hassign hbit]
    refine (free_unassign_twin hg hcpu a (hw.ppe c.cpu)).bind fun x y hxy => ?_
    obtain ⟨ha, htwins⟩ := hxy
    rw [ha]
    exact free_leave_twin hg htwins y.1
  · rw [pure_bind, pure_bind]
    exact free_leave_twin hg hcpu a

/-! ## BB_FREE -/

theorem free_blade_twin {tm : a64fx_task_mapping} (hg : tm.group = g)
    (h : Twins l g i s₀ t₀ s t) (blade : ℤ)
    (hassign : ∀ a, get_allocation (s.dev.cmgs i) tm blade = some a →
      a.assign_mask.getLsbD c.cpu = true → hw.cmg c.cpu = i) :
    Twin (TwinResults l g i s₀ t₀) (oss_a64fx_hwb_free_blade c i.val blade tm s)
      (oss_a64fx_hwb_free_blade c i.val blade tm t) := by
  unfold oss_a64fx_hwb_free_blade
  rw [cmgs_ptr_ok, Loops.ok_bind, Loops.ok_bind, ← h.inside.cmg]
  cases hfound : get_allocation (s.dev.cmgs i) tm blade with
  | none => exact .ok ⟨rfl, h⟩
  | some a =>
      refine Twin.ite (fun _ => ?_) fun _ => Twin.ite (fun _ => ?_) fun _ => .ok ⟨rfl, h⟩
      · -- the thread in the mapping
        refine (free_allocation_twin hg h a).bind fun u v huv => ?_
        refine (unregister_if_empty_twin hg huv).bind fun u' v' huv' => ?_
        exact .ok ⟨rfl, huv'⟩
      · refine (free_withdraw_twin hg h (hassign a hfound)).bind fun u v huv => ?_
        exact .ok ⟨rfl, huv⟩

/-- The end of a function that has `dev_lock`. -/
theorem unlock_dev_return {ρ : Type} {r r' : ρ} (hr : r = r') (h : Twins l g i s₀ t₀ s t) :
    Twin (TwinResults l g i s₀ t₀) (spin_unlock_dev s >>= fun s => pure (r, s))
      (spin_unlock_dev t >>= fun t => pure (r', t)) :=
  (spin_unlock_dev_twin h).bind fun _ _ hun => .ok ⟨hr, hun⟩

theorem free_twin (h : Twins l g i s₀ t₀ s t) (hlock : s.locks = Locks.free)
    (hg : c.task.tgid = g) (blade : ℤ)
    (hassign : ∀ m a, s.mapping g = some m → get_allocation (s.dev.cmgs i) m blade = some a →
      a.assign_mask.getLsbD c.cpu = true → hw.cmg c.cpu = i) :
    Twin (TwinResults l g i s₀ t₀) (oss_a64fx_hwb_free c i.val blade s)
      (oss_a64fx_hwb_free c i.val blade t) := by
  have hlock' : t.locks = Locks.free := h.locks ▸ hlock
  have hheld := h.with_locks Locks.dev_held
  unfold oss_a64fx_hwb_free
  rw [spin_lock_dev_free hlock, spin_lock_dev_free hlock', Loops.ok_bind, Loops.ok_bind]
  rw [get_taskmap_eq, get_taskmap_eq, hg, ← hheld.inside.mapping]
  cases hm : ({ s with locks := Locks.dev_held } : Kernel).mapping g with
  | none => exact unlock_dev_return rfl hheld
  | some m =>
      refine (free_blade_twin (Keyed.lookup_key hm) hheld blade fun a => hassign m a hm).bind
        fun x y hxy => ?_
      exact unlock_dev_return hxy.1 hxy.2

/-! ## BB_ALLOC -/

theorem new_allocation_twin {tm : a64fx_task_mapping} (hg : tm.group = g)
    (h : Twins l g i s₀ t₀ s t) (blade : ℕ) (mask : cpumask_t) :
    Twin (TwinResults l g i s₀ t₀) (new_allocation c i tm blade mask s)
      (new_allocation c i tm blade mask t) := by
  unfold new_allocation
  rw [← h.inside.cmg]
  cases hfound : get_allocation (s.dev.cmgs i) tm blade with
  | some a =>
      simp only [hfound]
      exact .ok ⟨rfl, h⟩
  | none =>
      simp only [hfound]
      cases hmem : c.kmalloc_alloc with
      | false => exact .ok ⟨rfl, h⟩
      | true =>
          have hlink := h.with_taskmap hg (fun m => { m with
            allocs := init_allocation (s.dev.cmgs i) tm blade mask :: m.allocs
            num_allocs := m.num_allocs + 1 }) fun _ => rfl
          have harm := hlink.smp_any (c := c)
            (fun k hk => ((h.left.table.cmgmask i k).mp hk).2) {
              blade := blade, cmg := (s.dev.cmgs i).cmg_id
              ppemask := cpumask_to_ppemask (s.dev.cmgs i) mask }
          simp only [Bool.not_true, Bool.false_eq_true, if_false]
          refine Twin.bind_same fun bb_active _ => ?_
          have hbit := harm.with_cmg (fun d => { d with bb_active := bb_active })
            (fun _ => ⟨rfl, rfl, rfl⟩) fun _ _ => ⟨rfl, rfl, rfl⟩
          exact .ok ⟨rfl, hbit⟩

theorem allocate_blade_twin {tm : a64fx_task_mapping} (hg : tm.group = g)
    (h : Twins l g i s₀ t₀ s t) (mask : cpumask_t) :
    Twin (TwinResults l g i s₀ t₀) (oss_a64fx_hwb_allocate_blade c i.val mask tm s)
      (oss_a64fx_hwb_allocate_blade c i.val mask tm t) := by
  unfold oss_a64fx_hwb_allocate_blade register_allocation
  rw [cmgs_ptr_ok, Loops.ok_bind, Loops.ok_bind, ← h.inside.cmg, h.left.table.num_bb,
    h.right.table.num_bb]
  generalize firstZero (s.dev.cmgs i).bb_active MAX_BB_PER_CMG = bit
  refine Twin.ite (fun _ => ?_) fun _ => .ok ⟨rfl, h⟩
  cases hfound : get_allocation (s.dev.cmgs i) tm bit with
  | some a => exact .ok ⟨rfl, h⟩
  | none =>
      refine (new_allocation_twin hg h bit mask).bind fun x y hxy => ?_
      exact .ok ⟨rfl, hxy.2⟩

theorem allocate_taskmap_twin (hg : c.task.tgid = g) (h : Twins l g i s₀ t₀ s t) :
    TwinResults l g i s₀ t₀ (oss_a64fx_hwb_allocate_taskmap c s)
        (oss_a64fx_hwb_allocate_taskmap c t) ∧
      ∀ m, (oss_a64fx_hwb_allocate_taskmap c s).1 = some m → m.group = g := by
  unfold oss_a64fx_hwb_allocate_taskmap new_taskmap
  rw [get_taskmap_eq, get_taskmap_eq, hg, ← h.inside.mapping]
  cases hm : s.mapping g with
  | some m =>
      refine ⟨⟨rfl, h⟩, fun m' hm' => ?_⟩
      cases hm'
      exact Keyed.lookup_key hm
  | none =>
      cases hmem : c.kmalloc_taskmap with
      | false => exact ⟨⟨rfl, h⟩, nofun⟩
      | true =>
          refine ⟨⟨rfl, h.map_group hg hm⟩, fun m' hm' => ?_⟩
          cases hm'
          exact hg

theorem allocate_twin (h : Twins l g i s₀ t₀ s t) (hlock : s.locks = Locks.free)
    (hg : c.task.tgid = g) (mask : cpumask_t) :
    Twin (TwinResults l g i s₀ t₀) (oss_a64fx_hwb_allocate c i.val mask s)
      (oss_a64fx_hwb_allocate c i.val mask t) := by
  have hlock' : t.locks = Locks.free := h.locks ▸ hlock
  obtain ⟨⟨hmap, htwins⟩, hgroup⟩ := allocate_taskmap_twin hg (h.with_locks Locks.dev_held)
  unfold oss_a64fx_hwb_allocate
  refine Twin.ite (fun _ => .ok ⟨rfl, h⟩) fun _ => ?_
  rw [spin_lock_dev_free hlock, spin_lock_dev_free hlock', Loops.ok_bind, Loops.ok_bind]
  generalize oss_a64fx_hwb_allocate_taskmap c { s with locks := Locks.dev_held } = x
    at hmap htwins hgroup ⊢
  generalize oss_a64fx_hwb_allocate_taskmap c { t with locks := Locks.dev_held } = y
    at hmap htwins ⊢
  obtain ⟨tm, u⟩ := x
  obtain ⟨tm', v⟩ := y
  simp only at hmap htwins hgroup
  subst hmap
  cases tm with
  | none => exact unlock_dev_return rfl htwins
  | some m =>
      refine (allocate_blade_twin (hgroup m rfl) htwins mask).bind fun x y hxy => ?_
      exact unlock_dev_return hxy.1 hxy.2

/-! ## BW_ASSIGN and BW_UNASSIGN -/

theorem assign_locked_twin {tm : a64fx_task_mapping} (hg : tm.group = g)
    (h : Twins l g i s₀ t₀ s t) (a : a64fx_task_allocation) (ppe : ℕ) (blade window : ℤ) :
    Twin (TwinResults l g i s₀ t₀)
      (oss_a64fx_hwb_assign_locked c i (get_pemap s.dev i ppe) blade window tm a s)
      (oss_a64fx_hwb_assign_locked c i (get_pemap t.dev i ppe) blade window tm a t) := by
  rw [get_pemap_twin h ppe]
  unfold oss_a64fx_hwb_assign_locked
  refine (spin_lock_cmg_twin h i).bind fun u v hlocked => ?_
  obtain ⟨huv, hdev⟩ := hlocked
  rw [← hdev]
  refine Twin.ite (fun _ => unlock_cmg_return huv i _) fun _ => ?_
  refine Twin.bind_same fun j hj => ?_
  obtain ⟨k, hcpu, hkc⟩ := cmg_of_deref huv.left.table hj
  rw [← huv.inside.cmg]
  simp only [hcpu]
  refine Twin.bind_same fun p _ => ?_
  refine Twin.bind_same fun chosen _ => ?_
  cases chosen with
  | none => exact unlock_cmg_return huv i _
  | some w =>
      simp only
      by_cases hrange : w ≥ 0 ∧ w < MAX_BW_PER_CMG
      swap
      · simp only [if_neg hrange, pure_bind, Bool.false_eq_true, if_false]
        exact unlock_cmg_return huv i _
      simp only [if_pos hrange, pure_bind]
      refine Twin.bind_same fun used _ => ?_
      cases used with
      | true => exact unlock_cmg_return huv i _
      | false =>
          -- the window is free: its bit, its register and the allocation
          refine Twin.bind_same fun bw_map _ => ?_
          have hregs := huv.set_wr (c := c) hkc w 1 blade
          have hbit := hregs.with_pe j (fun q => { q with bw_map := bw_map })
            fun _ => ⟨rfl, rfl, rfl⟩
          exact unlock_cmg_return (hbit.store_alloc hg { a with
            window := Function.update a.window p w
            assign_mask := cpumask_set_cpu k a.assign_mask
            assign_count := a.assign_count + 1 }) i _

theorem assign_find_twin (hg : c.task.tgid = g) (h : Twins l g i s₀ t₀ s t)
    (hi : hw.cmg c.cpu = i) (blade window : ℤ) :
    Twin (TwinResults l g i s₀ t₀) (oss_a64fx_hwb_assign_find c blade window s)
      (oss_a64fx_hwb_assign_find c blade window t) := by
  unfold oss_a64fx_hwb_assign_find
  simp only [Machine.read_peinfo, hi]
  rw [get_taskmap_eq, get_taskmap_eq, hg, ← h.inside.mapping]
  cases hm : s.mapping g with
  | none => exact .ok ⟨rfl, h⟩
  | some m =>
      simp only
      rw [← h.inside.cmg]
      cases hfound : get_allocation (s.dev.cmgs i) m blade with
      | none => exact .ok ⟨rfl, h⟩
      | some a => exact assign_locked_twin (Keyed.lookup_key hm) h a (hw.ppe c.cpu) blade window

theorem unassign_locked_twin {tm : a64fx_task_mapping} (hg : tm.group = g)
    (h : Twins l g i s₀ t₀ s t) {j : Fin MAX_PE_PER_CMG}
    (hj : ∃ k : ℕ, ((s.dev.cmgs i).pe_map j).cpu_id = k ∧ hw.cmg k = i)
    (hi : hw.cmg c.cpu = i) (p : Fin MAX_PE_PER_CMG) (blade window : ℤ)
    (a : a64fx_task_allocation) :
    Twin (TwinResults l g i s₀ t₀)
      (oss_a64fx_hwb_unassign_locked c i j p blade window tm a s)
      (oss_a64fx_hwb_unassign_locked c i j p blade window tm a t) := by
  obtain ⟨k, hcpu, hkc⟩ := hj
  unfold oss_a64fx_hwb_unassign_locked
  refine (spin_lock_cmg_twin h i).bind fun u v hlocked => ?_
  obtain ⟨huv, hdev⟩ := hlocked
  rw [← hdev] at hcpu
  -- the register that is read is one of the caller's CPU
  have hread : read_assign_sync_wr c.cpu window v.regs =
      read_assign_sync_wr c.cpu window u.regs := by
    unfold read_assign_sync_wr
    rw [huv.inside.assign_sync_wr c.cpu hi]
  simp only [hread]
  rw [← huv.inside.cmg]
  simp only [hcpu]
  refine Twin.bind_same fun used _ => ?_
  refine Twin.ite (fun _ => ?_) fun _ => unlock_cmg_return huv i _
  refine Twin.bind_same fun bw_map _ => ?_
  refine Twin.bind_same fun bw_map' _ => ?_
  have hregs := huv.set_wr (c := c) hkc window 0 0
  have hbit := hregs.with_pe j (fun q => { q with bw_map := bw_map' }) fun _ => ⟨rfl, rfl, rfl⟩
  exact unlock_cmg_return (hbit.store_alloc hg { a with
    window := Function.update a.window p A64FX_HWB_UNASSIGNED_WIN
    assign_mask := cpumask_clear_cpu k a.assign_mask
    assign_count := a.assign_count - 1 }) i _

theorem unassign_find_twin (hg : c.task.tgid = g) (h : Twins l g i s₀ t₀ s t)
    (hi : hw.cmg c.cpu = i) (blade : ℤ) :
    Twin (TwinResults l g i s₀ t₀) (oss_a64fx_hwb_unassign_find c blade s)
      (oss_a64fx_hwb_unassign_find c blade t) := by
  unfold oss_a64fx_hwb_unassign_find
  simp only [Machine.read_peinfo, hi]
  rw [get_taskmap_eq, get_taskmap_eq, hg, ← h.inside.mapping, get_pemap_twin h]
  cases hm : s.mapping g with
  | none => exact .ok ⟨rfl, h⟩
  | some m =>
      simp only
      rw [← h.inside.cmg]
      cases hfound : get_allocation (s.dev.cmgs i) m blade with
      | none => exact .ok ⟨rfl, h⟩
      | some a =>
          simp only
          refine Twin.bind_same fun j hj => ?_
          refine Twin.bind_same fun p _ => ?_
          refine Twin.ite (fun _ => ?_) fun _ => .ok ⟨rfl, h⟩
          exact unassign_locked_twin (Keyed.lookup_key hm) h (cmg_of_deref h.left.table hj) hi p
            blade (a.window p) a

theorem assign_blade_twin (h : Twins l g i s₀ t₀ s t) (hlock : s.locks = Locks.free)
    (hg : c.task.tgid = g) (hi : hw.cmg c.cpu = i) (blade window : ℤ) :
    Twin (TwinResults l g i s₀ t₀) (oss_a64fx_hwb_assign_blade c blade window s)
      (oss_a64fx_hwb_assign_blade c blade window t) := by
  have hlock' : t.locks = Locks.free := h.locks ▸ hlock
  unfold oss_a64fx_hwb_assign_blade
  refine Twin.ite (fun _ => .ok ⟨rfl, h⟩) fun _ => ?_
  rw [spin_lock_dev_free hlock, spin_lock_dev_free hlock', Loops.ok_bind, Loops.ok_bind]
  refine (assign_find_twin hg (h.with_locks Locks.dev_held).get_cpu hi blade window).bind
    fun x y hxy => ?_
  exact unlock_dev_return hxy.1 hxy.2.put_cpu

theorem unassign_blade_twin (h : Twins l g i s₀ t₀ s t) (hlock : s.locks = Locks.free)
    (hg : c.task.tgid = g) (hi : hw.cmg c.cpu = i) (blade : ℤ) :
    Twin (TwinResults l g i s₀ t₀) (oss_a64fx_hwb_unassign_blade c blade s)
      (oss_a64fx_hwb_unassign_blade c blade t) := by
  have hlock' : t.locks = Locks.free := h.locks ▸ hlock
  unfold oss_a64fx_hwb_unassign_blade
  refine Twin.ite (fun _ => .ok ⟨rfl, h⟩) fun _ => ?_
  rw [spin_lock_dev_free hlock, spin_lock_dev_free hlock', Loops.ok_bind, Loops.ok_bind]
  refine (unassign_find_twin hg (h.with_locks Locks.dev_held).get_cpu hi blade).bind
    fun x y hxy => ?_
  exact unlock_dev_return hxy.1 hxy.2.put_cpu

end A64fxHwb
