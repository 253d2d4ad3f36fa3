/-
Two runs of which one is a window ahead.

The change a BW request makes on one PE (`WindowWrite`) is put on top of a state, and
the functions of the driver are run from both states by a thread on another CPU: they
do the same in both runs, and the change is still on top of what they leave. This needs
that the change is not written over. No call from another CPU writes the window of the
PE in the allocation or the register of the window; what another thread's BB_FREE gives
back on the same PE are other windows, since the window the first run does not have is
recorded nowhere. Here are the writes of the driver, and the functions that give blades
and mappings back.
-/
import A64fxHwb.Commute
import A64fxHwb.Live

set_option autoImplicit false

namespace A64fxHwb

open BitWord Relation Runs Footprint

variable {hw : Machine} {l : Load hw} {x : WindowWrite} {c c' : Call hw} {i : Fin MAX_NUM_CMG}
variable {d : a64fx_hwb_device} {s t u v : Kernel}

/-! ## The change, on the device and on the registers -/

namespace WindowWrite

/-- The place of the allocation the change is about. -/
def place (x : WindowWrite) (c : Call hw) : ℕ × ℕ := ((hw.cmg c.cpu).val, x.blade)

/-- What the change makes of the device, -/
def device (x : WindowWrite) (c : Call hw) (d : a64fx_hwb_device) : a64fx_hwb_device :=
  (d.with_cmg (hw.cmg c.cpu) fun y => y.with_pe (hw.slot c.cpu) x.entry).alter c.task.tgid
    (x.place c) (x.alloc (hw.slot c.cpu) c.cpu)

/-- and of the registers. -/
def written (x : WindowWrite) (c : Call hw) (r : hwb_regs) : hwb_regs :=
  { r with
    assign_sync_wr := Function.update r.assign_sync_wr c.cpu
      (x.registers (r.assign_sync_wr c.cpu)) }

/-- A write to a CMG that commutes with the change of the PE's entry. -/
theorem device_with_cmg {f : a64fx_cmg_device → a64fx_cmg_device}
    (hf : i = hw.cmg c.cpu → ∀ y : a64fx_cmg_device,
      f (y.with_pe (hw.slot c.cpu) x.entry) = (f y).with_pe (hw.slot c.cpu) x.entry) :
    (x.device c d).with_cmg i f = x.device c (d.with_cmg i f) := by
  have hcomm : (d.with_cmg (hw.cmg c.cpu) fun y => y.with_pe (hw.slot c.cpu) x.entry).with_cmg i f =
      (d.with_cmg i f).with_cmg (hw.cmg c.cpu) fun y => y.with_pe (hw.slot c.cpu) x.entry :=
    with_cmg_comm d fun h => hf h.symm
  exact congrArg (fun d : a64fx_hwb_device => d.alter c.task.tgid (x.place c)
    (x.alloc (hw.slot c.cpu) c.cpu)) hcomm

/-- A write to a mapping that commutes with the change of the allocation, if it is one of
the caller's group. -/
theorem device_with_taskmap {tm : a64fx_task_mapping}
    {f : a64fx_task_mapping → a64fx_task_mapping} (hgroup : ∀ m, (f m).group = m.group)
    (hf : tm.group = c.task.tgid → ∀ m : a64fx_task_mapping,
      f (m.alter (x.place c) (x.alloc (hw.slot c.cpu) c.cpu)) =
        (f m).alter (x.place c) (x.alloc (hw.slot c.cpu) c.cpu)) :
    (x.device c d).with_taskmap tm f = x.device c (d.with_taskmap tm f) := by
  have hlist : Keyed.modify a64fx_task_mapping.group tm.group f
      (Keyed.modify a64fx_task_mapping.group c.task.tgid
        (fun m => m.alter (x.place c) (x.alloc (hw.slot c.cpu) c.cpu)) d.task_list) =
      Keyed.modify a64fx_task_mapping.group c.task.tgid
        (fun m => m.alter (x.place c) (x.alloc (hw.slot c.cpu) c.cpu))
        (Keyed.modify a64fx_task_mapping.group tm.group f d.task_list) :=
    Keyed.modify_comm (fun m hm => (hgroup m).trans hm) (by intro _ hm; exact hm) hf d.task_list
  exact congrArg (fun ms => ({ d.with_cmg (hw.cmg c.cpu) fun y =>
    y.with_pe (hw.slot c.cpu) x.entry with task_list := ms } : a64fx_hwb_device)) hlist

/-- Storing the allocation the change is about replaces what the change has made of it. -/
theorem device_store_own {tm : a64fx_task_mapping} {a : a64fx_task_allocation}
    (hg : tm.group = c.task.tgid) (hp : a.place = x.place c) :
    (x.device c d).with_taskmap tm
        (fun m => m.alter a.place fun _ => x.alloc (hw.slot c.cpu) c.cpu a) =
      x.device c (d.with_taskmap tm fun m => m.alter a.place fun _ => a) := by
  have hplace : ∀ b, b.place = x.place c → (x.alloc (hw.slot c.cpu) c.cpu b).place = x.place c :=
    fun b hb => (x.place_alloc _ _ b).trans hb
  have hmapping : ∀ m : a64fx_task_mapping,
      (m.alter (x.place c) (x.alloc (hw.slot c.cpu) c.cpu)).alter a.place
          (fun _ => x.alloc (hw.slot c.cpu) c.cpu a) =
        (m.alter a.place fun _ => a).alter (x.place c) (x.alloc (hw.slot c.cpu) c.cpu) := by
    intro m
    unfold a64fx_task_mapping.alter
    rw [hp, Keyed.modify_modify hplace, Keyed.modify_modify fun _ _ => hp]
  have hlist : Keyed.modify a64fx_task_mapping.group tm.group
      (fun m => m.alter a.place fun _ => x.alloc (hw.slot c.cpu) c.cpu a)
      (Keyed.modify a64fx_task_mapping.group c.task.tgid
        (fun m => m.alter (x.place c) (x.alloc (hw.slot c.cpu) c.cpu)) d.task_list) =
      Keyed.modify a64fx_task_mapping.group c.task.tgid
        (fun m => m.alter (x.place c) (x.alloc (hw.slot c.cpu) c.cpu))
        (Keyed.modify a64fx_task_mapping.group tm.group
          (fun m => m.alter a.place fun _ => a) d.task_list) := by
    rw [hg, Keyed.modify_modify (by intro _ hm; exact hm),
      Keyed.modify_modify (by intro _ hm; exact hm)]
    congr 1
    funext m
    exact hmapping m
  exact congrArg (fun ms => ({ d.with_cmg (hw.cmg c.cpu) fun y =>
    y.with_pe (hw.slot c.cpu) x.entry with task_list := ms } : a64fx_hwb_device)) hlist

theorem device_map_group {task : task_struct} (hg : task.tgid ≠ c.task.tgid) :
    (x.device c d).map_group task = x.device c (d.map_group task) := by
  have hne : (⟨task, [], 0⟩ : a64fx_task_mapping).group ≠ c.task.tgid := hg
  have hlist : Keyed.modify a64fx_task_mapping.group c.task.tgid
      (fun m => m.alter (x.place c) (x.alloc (hw.slot c.cpu) c.cpu))
      (⟨task, [], 0⟩ :: d.task_list) = ⟨task, [], 0⟩ :: Keyed.modify a64fx_task_mapping.group
        c.task.tgid (fun m => m.alter (x.place c) (x.alloc (hw.slot c.cpu) c.cpu))
        d.task_list := by
    rw [Keyed.modify, if_neg hne]
  exact congrArg (fun ms => ({ (d.with_cmg (hw.cmg c.cpu) fun y =>
    y.with_pe (hw.slot c.cpu) x.entry) with
      task_list := ms
      num_tasks := d.num_tasks + 1 } : a64fx_hwb_device)) hlist.symm

theorem device_unmap_group {g : ℕ} (hg : g ≠ c.task.tgid) :
    (x.device c d).unmap_group g = x.device c (d.unmap_group g) := by
  have hlist : Keyed.erase a64fx_task_mapping.group g
      (Keyed.modify a64fx_task_mapping.group c.task.tgid
        (fun m => m.alter (x.place c) (x.alloc (hw.slot c.cpu) c.cpu)) d.task_list) =
      Keyed.modify a64fx_task_mapping.group c.task.tgid
        (fun m => m.alter (x.place c) (x.alloc (hw.slot c.cpu) c.cpu))
        (Keyed.erase a64fx_task_mapping.group g d.task_list) :=
    Keyed.erase_modify_of_ne (by intro _ hm; exact hm) hg d.task_list
  exact congrArg (fun ms => ({ (d.with_cmg (hw.cmg c.cpu) fun y =>
    y.with_pe (hw.slot c.cpu) x.entry) with
      task_list := ms
      num_tasks := d.num_tasks - 1 } : a64fx_hwb_device)) hlist

/-- The change leaves the table alone. -/
theorem sameTable_device (x : WindowWrite) (c : Call hw) (d : a64fx_hwb_device) :
    SameTable d (x.device c d) := by
  have h := SameTable.with_pe d (hw.cmg c.cpu) (hw.slot c.cpu) x.entry fun _ => ⟨rfl, rfl, rfl⟩
  exact ⟨h.num_cmgs, h.num_bb, h.cmg, h.pe⟩

/-- So do the blade bits, -/
theorem bb_active_device (x : WindowWrite) (c : Call hw) (d : a64fx_hwb_device)
    (i : Fin MAX_NUM_CMG) : ((x.device c d).cmgs i).bb_active = (d.cmgs i).bb_active := by
  show (Function.update d.cmgs (hw.cmg c.cpu) _ i).bb_active = _
  by_cases hi : i = hw.cmg c.cpu
  · rw [hi, Function.update_self]
    rfl
  · rw [Function.update_of_ne hi]

/-- and the entries of the other PEs. -/
theorem pe_map_device (x : WindowWrite) {j : Fin MAX_PE_PER_CMG}
    (h : i = hw.cmg c.cpu → j ≠ hw.slot c.cpu) (d : a64fx_hwb_device) :
    ((x.device c d).cmgs i).pe_map j = (d.cmgs i).pe_map j := by
  show (Function.update d.cmgs (hw.cmg c.cpu) _ i).pe_map j = _
  by_cases hi : i = hw.cmg c.cpu
  · rw [hi, Function.update_self]
    exact Function.update_of_ne (h hi) _ _
  · rw [Function.update_of_ne hi]

/-- Another window of the PE given back. -/
theorem clear_entry (x : WindowWrite) {n : ℕ} (hn : n ≠ x.window) (p : a64fx_core_mapping) :
    ({ x.entry p with bw_map := clearBit (x.entry p).bw_map n } : a64fx_core_mapping) =
      x.entry { p with bw_map := clearBit p.bw_map n } :=
  congrArg (fun b => ({ p with bw_map := b } : a64fx_core_mapping))
    (mask_comm false x.takes hn p.bw_map)

theorem written_write_assign_sync_wr {k : ℕ} {window : ℤ}
    (h : k = c.cpu → window ≠ (x.window : ℤ)) (valid blade : ℤ) (r : hwb_regs) :
    (write_assign_sync_wr k window valid blade (x.written c r)).2 =
      x.written c (write_assign_sync_wr k window valid blade r).2 := by
  unfold write_assign_sync_wr
  by_cases hrange : window < 0 ∨ window ≥ MAX_BW_PER_CMG ∨ blade < 0 ∨ blade ≥ MAX_BB_PER_CMG
  · simp only [if_pos hrange]
  simp only [if_neg hrange, written]
  congr 1
  by_cases hk : k = c.cpu
  · -- another register of the CPU
    have hne : window.toNat ≠ x.window := by
      have hwindow := h hk
      omega
    rw [hk, Function.update_idem, Function.update_idem, Function.update_self,
      Function.update_self]
    unfold registers
    rw [Function.update_comm hne]
  · rw [Function.update_of_ne hk, Function.update_of_ne (Ne.symm hk), Function.update_comm hk]

theorem written_write_init_sync_bb (x : WindowWrite) (c : Call hw) (k : ℕ) (blade : ℤ)
    (mask : BitVec 64) (r : hwb_regs) : (write_init_sync_bb hw k blade mask (x.written c r)).2 =
      x.written c (write_init_sync_bb hw k blade mask r).2 := by
  unfold write_init_sync_bb
  by_cases hrange : blade < 0 ∨ blade ≥ MAX_BB_PER_CMG ∨ mask = 0
  · simp only [if_pos hrange]
  · simp only [if_neg hrange]
    rfl

/-! ## The window that is not taken -/

/-- If it is the allocation the change is about, the CPU is one of its CPUs and has no
window. -/
def Idle (x : WindowWrite) (c : Call hw) (a : a64fx_task_allocation) : Prop :=
  a.place = x.place c →
    a.cpumask.getLsbD c.cpu = true ∧ a.window (hw.slot c.cpu) = A64FX_HWB_UNASSIGNED_WIN

/-- The window is free, and the allocation has no window on the PE. -/
structure Vacant (x : WindowWrite) (c : Call hw) (d : a64fx_hwb_device) : Prop where
  free : d.bw (hw.cmg c.cpu) (hw.slot c.cpu) x.window = false
  idle : ∀ m ∈ d.task_list, m.group = c.task.tgid → ∀ a ∈ m.allocs, x.Idle c a

theorem Vacant.congr {d' : a64fx_hwb_device} (h : x.Vacant c d) (hcmgs : d'.cmgs = d.cmgs)
    (hlist : ∀ m ∈ d'.task_list, m ∈ d.task_list ∨ m.allocs = []) : x.Vacant c d' := by
  refine ⟨?_, fun m hm hg a ha => ?_⟩
  · rw [a64fx_hwb_device.bw, hcmgs]
    exact h.free
  · rcases hlist m hm with hm | hempty
    · exact h.idle m hm hg a ha
    · rw [hempty] at ha
      cases ha

theorem Vacant.with_cmg (h : x.Vacant c d) {f : a64fx_cmg_device → a64fx_cmg_device}
    (hf : i = hw.cmg c.cpu → ∀ y : a64fx_cmg_device,
      (y.pe_map (hw.slot c.cpu)).bw_map.getLsbD x.window = false →
        ((f y).pe_map (hw.slot c.cpu)).bw_map.getLsbD x.window = false) :
    x.Vacant c (d.with_cmg i f) := by
  refine ⟨?_, h.idle⟩
  show ((Function.update d.cmgs i (f (d.cmgs i)) (hw.cmg c.cpu)).pe_map _).bw_map.getLsbD _ = false
  by_cases hi : hw.cmg c.cpu = i
  · subst hi
    rw [Function.update_self]
    exact hf rfl _ h.free
  · rw [Function.update_of_ne hi]
    exact h.free

theorem Vacant.with_taskmap (h : x.Vacant c d) {tm : a64fx_task_mapping}
    {f : a64fx_task_mapping → a64fx_task_mapping} (hgroup : ∀ m, (f m).group = m.group)
    (hf : tm.group = c.task.tgid → ∀ m : a64fx_task_mapping,
      (∀ a ∈ m.allocs, x.Idle c a) → ∀ a ∈ (f m).allocs, x.Idle c a) :
    x.Vacant c (d.with_taskmap tm f) := by
  refine ⟨h.free, fun m hm hg => ?_⟩
  rcases Keyed.mem_of_mem_modify hm with hm | ⟨m', hm', hkey, rfl⟩
  · exact h.idle m hm hg
  · rw [hgroup] at hg
    exact hf (hkey.symm.trans hg) m' (h.idle m' hm' hg)

end WindowWrite

/-- The allocation one run works on and the one the other does: the same, or the one the
change is about before and after it. -/
inductive Counterpart (x : WindowWrite) (c : Call hw) (tm : a64fx_task_mapping) :
    a64fx_task_allocation → a64fx_task_allocation → Prop
  | other {a : a64fx_task_allocation} (h : tm.group = c.task.tgid → a.place ≠ x.place c) :
      Counterpart x c tm a a
  | own {a : a64fx_task_allocation} (hg : tm.group = c.task.tgid) (hp : a.place = x.place c)
      (hidle : x.Idle c a) : Counterpart x c tm a (x.alloc (hw.slot c.cpu) c.cpu a)

/-! ## A run that is a window ahead -/

/-- The second state is the first with the change on top, which the first has not. -/
structure Ahead (l : Load hw) (x : WindowWrite) (c : Call hw) (s t : Kernel) : Prop where
  eq : t = x.apply c s
  table : Table l s.dev
  vacant : x.Vacant c s.dev

namespace Ahead

theorem sameTable (h : Ahead l x c s t) : SameTable s.dev t.dev := by
  rw [h.eq]
  exact x.sameTable_device c s.dev

/-- A step of both runs on the device, -/
theorem of_dev (h : Ahead l x c s t) {d d' : a64fx_hwb_device} (hd : d' = x.device c d)
    (hsame : SameTable s.dev d) (hv : x.Vacant c d) :
    Ahead l x c { s with dev := d } { t with dev := d' } := by
  refine ⟨?_, hsame.table h.table, hv⟩
  rw [h.eq, hd]
  rfl

/-- and one on the registers. -/
theorem of_regs (h : Ahead l x c s t) {r r' : hwb_regs} (hr : r' = x.written c r) :
    Ahead l x c { s with regs := r } { t with regs := r' } := by
  refine ⟨?_, h.table, h.vacant⟩
  rw [h.eq, hr]
  rfl

theorem with_locks (h : Ahead l x c s t) (L : Locks) :
    Ahead l x c { s with locks := L } { t with locks := L } := by
  refine ⟨?_, h.table, h.vacant⟩
  rw [h.eq]
  rfl

theorem get_cpu (h : Ahead l x c s t) :
    Ahead l x c (A64fxHwb.get_cpu s) (A64fxHwb.get_cpu t) := by
  refine ⟨?_, h.table, h.vacant⟩
  rw [h.eq]
  rfl

/-- A write to the blade bits of a CMG. -/
theorem with_bb (h : Ahead l x c s t) (i : Fin MAX_NUM_CMG) (f : BitVec 64 → BitVec 64) :
    Ahead l x c { s with dev := s.dev.with_cmg i fun y => { y with bb_active := f y.bb_active } }
      { t with dev := t.dev.with_cmg i fun y => { y with bb_active := f y.bb_active } } := by
  refine h.of_dev ?_ ?_ (h.vacant.with_cmg fun _ _ hfree => hfree)
  · rw [h.eq]
    exact WindowWrite.device_with_cmg fun _ _ => rfl
  · exact SameTable.with_cmg s.dev i _ (fun _ => ⟨rfl, rfl, rfl⟩) fun _ _ => ⟨rfl, rfl, rfl⟩

/-- A write to the bookkeeping of a PE. On the PE of the change it must be one that leaves
the window alone. -/
theorem with_pe (h : Ahead l x c s t) {j : Fin MAX_PE_PER_CMG}
    {f : a64fx_core_mapping → a64fx_core_mapping}
    (hids : ∀ p, (f p).cpu_id = p.cpu_id ∧ (f p).cmg_id = p.cmg_id ∧ (f p).ppe_id = p.ppe_id)
    (hf : i = hw.cmg c.cpu → j = hw.slot c.cpu → ∀ p, f (x.entry p) = x.entry (f p) ∧
      (p.bw_map.getLsbD x.window = false → (f p).bw_map.getLsbD x.window = false)) :
    Ahead l x c { s with dev := s.dev.with_cmg i fun y => y.with_pe j f }
      { t with dev := t.dev.with_cmg i fun y => y.with_pe j f } := by
  refine h.of_dev ?_ (SameTable.with_pe s.dev i j f hids) (h.vacant.with_cmg ?_)
  · rw [h.eq]
    refine WindowWrite.device_with_cmg fun hi y => ?_
    unfold a64fx_cmg_device.with_pe
    congr 1
    by_cases hj : j = hw.slot c.cpu
    · simp only [hj, Function.update_idem, Function.update_self, (hf hi hj _).1]
    · simp only [Function.update_of_ne hj, Function.update_of_ne (Ne.symm hj)]
      exact Function.update_comm (Ne.symm hj) _ _ _
  · intro hi y hfree
    by_cases hj : hw.slot c.cpu = j
    · show (Function.update y.pe_map j (f (y.pe_map j)) _).bw_map.getLsbD _ = false
      rw [hj, Function.update_self]
      rw [hj] at hfree
      exact (hf hi hj.symm _).2 hfree
    · show (Function.update y.pe_map j (f (y.pe_map j)) _).bw_map.getLsbD _ = false
      rw [Function.update_of_ne hj]
      exact hfree

theorem bb_active (h : Ahead l x c s t) (i : Fin MAX_NUM_CMG) :
    (t.dev.cmgs i).bb_active = (s.dev.cmgs i).bb_active := by
  rw [h.eq]
  exact x.bb_active_device c s.dev i

/-- A window of the PE of CPU `k` given back, if it is another one. -/
theorem clear_window (h : Ahead l x c s t) (hon : l.online.getLsbD c.cpu = true) {k n : ℕ}
    (hk : l.online.getLsbD k = true) (hne : k = c.cpu → (n : ℤ) ≠ (x.window : ℤ)) :
    Ahead l x c
      { s with dev := s.dev.with_cmg (hw.cmg k) fun y =>
        y.with_pe (hw.slot k) fun p => { p with bw_map := clearBit p.bw_map n } }
      { t with dev := t.dev.with_cmg (hw.cmg k) fun y =>
        y.with_pe (hw.slot k) fun p => { p with bw_map := clearBit p.bw_map n } } := by
  refine h.with_pe (fun _ => ⟨rfl, rfl, rfl⟩) fun hc hs p => ⟨?_, fun hfree => ?_⟩
  · have hkc : k = c.cpu :=
      Machine.eq_of_slot (l.online_present k hk) (l.online_present _ hon) hc hs
    exact x.clear_entry (fun hn => hne hkc (by rw [hn])) p
  · show (clearBit p.bw_map n).getLsbD x.window = false
    rw [getLsbD_clearBit, hfree]
    rfl

/-- A write to a mapping. -/
theorem with_taskmap (h : Ahead l x c s t) {tm : a64fx_task_mapping}
    {f : a64fx_task_mapping → a64fx_task_mapping} (hgroup : ∀ m, (f m).group = m.group)
    (hf : tm.group = c.task.tgid → ∀ m : a64fx_task_mapping,
      f (m.alter (x.place c) (x.alloc (hw.slot c.cpu) c.cpu)) =
          (f m).alter (x.place c) (x.alloc (hw.slot c.cpu) c.cpu) ∧
        ((∀ a ∈ m.allocs, x.Idle c a) → ∀ a ∈ (f m).allocs, x.Idle c a)) :
    Ahead l x c { s with dev := s.dev.with_taskmap tm f }
      { t with dev := t.dev.with_taskmap tm f } := by
  refine h.of_dev ?_ ⟨rfl, rfl, fun _ => ⟨rfl, rfl, rfl⟩, fun _ _ => ⟨rfl, rfl, rfl⟩⟩
    (h.vacant.with_taskmap hgroup fun hg m => (hf hg m).2)
  rw [h.eq]
  exact WindowWrite.device_with_taskmap hgroup fun hg m => (hf hg m).1

/-- Storing an allocation. -/
theorem store_alloc (h : Ahead l x c s t) {tm : a64fx_task_mapping}
    {a a' : a64fx_task_allocation} (ha : Counterpart x c tm a a') :
    Ahead l x c { s with dev := s.dev.store_alloc tm a }
      { t with dev := t.dev.store_alloc tm a' } := by
  cases ha with
  | other hne =>
      refine h.with_taskmap (fun _ => rfl) fun hg m => ⟨?_, fun hidle b hb => ?_⟩
      · -- two entries of one list
        have hlist : Keyed.modify a64fx_task_allocation.place a.place (fun _ => a)
            (Keyed.modify a64fx_task_allocation.place (x.place c)
              (x.alloc (hw.slot c.cpu) c.cpu) m.allocs) =
            Keyed.modify a64fx_task_allocation.place (x.place c) (x.alloc (hw.slot c.cpu) c.cpu)
              (Keyed.modify a64fx_task_allocation.place a.place (fun _ => a) m.allocs) :=
          Keyed.modify_comm (fun _ _ => rfl) (fun b hb => (x.place_alloc _ _ b).trans hb)
            (fun hp => absurd hp (hne hg)) m.allocs
        exact congrArg (fun as => ({ m with allocs := as } : a64fx_task_mapping)) hlist
      · rcases Keyed.mem_of_mem_modify hb with hb | ⟨-, -, -, rfl⟩
        · exact hidle b hb
        · exact fun hp => absurd hp (hne hg)
  | own hg hp hidle =>
      have hplace : (x.alloc (hw.slot c.cpu) c.cpu a).place = a.place := x.place_alloc _ _ a
      refine h.of_dev ?_ ⟨rfl, rfl, fun _ => ⟨rfl, rfl, rfl⟩, fun _ _ => ⟨rfl, rfl, rfl⟩⟩ ?_
      · rw [h.eq]
        unfold a64fx_hwb_device.store_alloc
        rw [hplace]
        exact WindowWrite.device_store_own hg hp
      · refine h.vacant.with_taskmap (fun _ => rfl) fun _ m hm b hb => ?_
        rcases Keyed.mem_of_mem_modify hb with hb | ⟨-, -, -, rfl⟩
        · exact hm b hb
        · exact hidle

/-- Unlinking another allocation, -/
theorem drop (h : Ahead l x c s t) {tm : a64fx_task_mapping} {p : ℕ × ℕ}
    (hne : tm.group = c.task.tgid → p ≠ x.place c) :
    Ahead l x c { s with dev := s.dev.with_taskmap tm (a64fx_task_mapping.drop p) }
      { t with dev := t.dev.with_taskmap tm (a64fx_task_mapping.drop p) } := by
  refine h.with_taskmap (fun _ => rfl) fun hg m => ⟨?_, fun hidle b hb => ?_⟩
  · have hlist : Keyed.erase a64fx_task_allocation.place p
        (Keyed.modify a64fx_task_allocation.place (x.place c)
          (x.alloc (hw.slot c.cpu) c.cpu) m.allocs) =
        Keyed.modify a64fx_task_allocation.place (x.place c) (x.alloc (hw.slot c.cpu) c.cpu)
          (Keyed.erase a64fx_task_allocation.place p m.allocs) :=
      Keyed.erase_modify_of_ne (fun b hb => (x.place_alloc _ _ b).trans hb) (hne hg) m.allocs
    exact congrArg (fun as => ({ m with
      allocs := as
      num_allocs := m.num_allocs - 1 } : a64fx_task_mapping)) hlist
  · exact hidle b (Keyed.mem_of_mem_erase hb)

/-- and linking one. -/
theorem hold (h : Ahead l x c s t) (tm : a64fx_task_mapping) {a : a64fx_task_allocation}
    (hne : tm.group = c.task.tgid → a.place ≠ x.place c) :
    Ahead l x c
      { s with dev := s.dev.with_taskmap tm fun m =>
        { m with allocs := a :: m.allocs, num_allocs := m.num_allocs + 1 } }
      { t with dev := t.dev.with_taskmap tm fun m =>
        { m with allocs := a :: m.allocs, num_allocs := m.num_allocs + 1 } } := by
  refine h.with_taskmap (fun _ => rfl) fun hg m => ⟨?_, fun hidle b hb => ?_⟩
  · have hlist : a :: Keyed.modify a64fx_task_allocation.place (x.place c)
        (x.alloc (hw.slot c.cpu) c.cpu) m.allocs = Keyed.modify a64fx_task_allocation.place
        (x.place c) (x.alloc (hw.slot c.cpu) c.cpu) (a :: m.allocs) := by
      rw [Keyed.modify, if_neg (hne hg)]
    exact congrArg (fun as => ({ m with
      allocs := as
      num_allocs := m.num_allocs + 1 } : a64fx_task_mapping)) hlist
  · rcases List.mem_cons.mp hb with rfl | hb
    · exact fun hp => absurd hp (hne hg)
    · exact hidle b hb

/-- A mapping for another group, -/
theorem map_group (h : Ahead l x c s t) {task : task_struct} (hg : task.tgid ≠ c.task.tgid) :
    Ahead l x c { s with dev := s.dev.map_group task } { t with dev := t.dev.map_group task } := by
  refine h.of_dev ?_ ⟨rfl, rfl, fun _ => ⟨rfl, rfl, rfl⟩, fun _ _ => ⟨rfl, rfl, rfl⟩⟩
    (h.vacant.congr rfl fun m hm => ?_)
  · rw [h.eq]
    exact WindowWrite.device_map_group hg
  · rcases List.mem_cons.mp hm with rfl | hm
    · exact Or.inr rfl
    · exact Or.inl hm

/-- and the mapping of another group unlinked. -/
theorem unmap_group (h : Ahead l x c s t) {g : ℕ} (hg : g ≠ c.task.tgid) :
    Ahead l x c { s with dev := s.dev.unmap_group g } { t with dev := t.dev.unmap_group g } := by
  refine h.of_dev ?_ ⟨rfl, rfl, fun _ => ⟨rfl, rfl, rfl⟩, fun _ _ => ⟨rfl, rfl, rfl⟩⟩
    (h.vacant.congr rfl fun m hm => Or.inl (Keyed.mem_of_mem_erase hm))
  rw [h.eq]
  exact WindowWrite.device_unmap_group hg

/-- A write to a window register, if it is another one. -/
theorem set_wr (h : Ahead l x c s t) (c' : Call hw) {k : ℕ} {window : ℤ}
    (hne : k = c.cpu → window ≠ (x.window : ℤ)) (valid blade : ℤ) :
    Ahead l x c (A64fxHwb.set_wr c' k window valid blade s)
      (A64fxHwb.set_wr c' k window valid blade t) := by
  unfold A64fxHwb.set_wr smp_call_function_single
  by_cases hon : 0 ≤ (k : ℤ) ∧ c'.online.getLsbD (k : ℤ).toNat = true
  · rw [if_pos hon, if_pos hon, Int.toNat_natCast]
    refine h.of_regs ?_
    rw [h.eq]
    exact WindowWrite.written_write_assign_sync_wr hne valid blade s.regs
  · rw [if_neg hon, if_neg hon]
    exact h

/-- A write to a blade register. -/
theorem arm_blade (h : Ahead l x c s t) (c' : Call hw) (i : Fin MAX_NUM_CMG) (blade : ℤ)
    (mask : BitVec 64) :
    Ahead l x c (A64fxHwb.arm_blade c' i blade mask s)
      (A64fxHwb.arm_blade c' i blade mask t) := by
  have hmask : (t.dev.cmgs i).cmgmask = (s.dev.cmgs i).cmgmask := (h.sameTable.cmg i).2.2
  unfold A64fxHwb.arm_blade smp_call_function_any
  rw [hmask]
  by_cases hnone : (s.dev.cmgs i).cmgmask &&& c'.online = 0
  · rw [if_pos hnone, if_pos hnone]
    exact h
  · rw [if_neg hnone, if_neg hnone]
    refine h.of_regs ?_
    rw [h.eq]
    exact x.written_write_init_sync_bb c _ blade mask s.regs

end Ahead

/-! ## Giving a blade back -/

/-- The tables are the same, so a CPU is found in the same slot. -/
theorem find_cpu_same {d' : a64fx_hwb_device} (h : SameTable d d') (i : Fin MAX_NUM_CMG)
    (cpu : ℕ) : ((d'.cmgs i).slots.find? fun j => decide (((d'.cmgs i).pe_map j).cpu_id = cpu)) =
      (d.cmgs i).slots.find? fun j => decide (((d.cmgs i).pe_map j).cpu_id = cpu) := by
  have hids : ∀ j, ((d'.cmgs i).pe_map j).cpu_id = ((d.cmgs i).pe_map j).cpu_id :=
    fun j => (h.pe i j).1
  simp only [h.slots i, hids]

/-- Giving a window back records no other one. -/
theorem window_ne_of_given_back {f : Fin MAX_PE_PER_CMG → ℤ} {j' : Fin MAX_PE_PER_CMG} {w : ℕ}
    (h : f j' ≠ w) (j : Fin MAX_PE_PER_CMG) :
    Function.update f j A64FX_HWB_UNASSIGNED_WIN j' ≠ w := by
  by_cases hj : j' = j
  · rw [hj, Function.update_self]
    show (-1 : ℤ) ≠ w
    omega
  · rw [Function.update_of_ne hj]
    exact h

/-- The two walks of `free_allocation` over the assign mask of another allocation. -/
structure LoopAhead (l : Load hw) (x : WindowWrite) (c : Call hw) (i : Fin MAX_NUM_CMG)
    (tm : a64fx_task_mapping) (y z : FreeLoop) : Prop where
  kernel : Ahead l x c y.kernel z.kernel
  alloc : z.alloc = y.alloc
  pemap : z.pemap = y.pemap
  slot : ∀ j, y.pemap = some j → j.val < (y.kernel.dev.cmgs i).num_pes
  place : tm.group = c.task.tgid → y.alloc.place ≠ x.place c
  window : i = hw.cmg c.cpu → y.alloc.window (hw.slot c.cpu) ≠ (x.window : ℤ)

theorem free_allocation_cpu_ahead (hon : l.online.getLsbD c.cpu = true) {tm : a64fx_task_mapping}
    {y z : FreeLoop} (h : LoopAhead l x c i tm y z) (cpu : ℕ) :
    Twin (LoopAhead l x c i tm) (free_allocation_cpu c' i tm y cpu)
      (free_allocation_cpu c' i tm z cpu) := by
  obtain ⟨ks, a, pe⟩ := y
  obtain ⟨kt, a', pe'⟩ := z
  obtain ⟨hk, ha, hpe, hslot, hplace, hwindow⟩ := h
  simp only at hk ha hpe hslot hplace hwindow
  subst ha
  subst hpe
  have hsame := hk.sameTable
  unfold free_allocation_cpu
  simp only [find_cpu_same hsame]
  have hfound := slot_lt_of_found cpu hslot
  generalize ((ks.dev.cmgs i).slots.find? fun j =>
    decide (((ks.dev.cmgs i).pe_map j).cpu_id = cpu)).or pe' = found at hfound
  refine Twin.bind_same fun j hj => ?_
  have hjlt := hfound j (pemap_deref_eq_ok hj)
  -- the entry belongs to a CPU `k`, whichever it was looked up for
  obtain ⟨k, -, -, -, hcpu, -⟩ := hk.table.filled i j hjlt
  obtain ⟨hkon, hki, hkj⟩ := hk.table.slot_of_cpu_id hjlt hcpu
  subst hki
  subst hkj
  obtain ⟨-, -, hppe⟩ := hk.table.entry hkon
  rw [(hsame.pe _ _).1, (hsame.pe _ _).2.2, hppe, hcpu,
    window_ptr_ppe (l.online_present k hkon), Loops.ok_bind, Loops.ok_bind]
  refine Twin.ite (fun hrange => ?_) fun _ => .ok ⟨hk, rfl, rfl, hfound, hplace, hwindow⟩
  obtain ⟨n, hn⟩ := Int.eq_ofNat_of_zero_le hrange.1
  have hn64 : n < 64 := by
    have h4 : a'.window (hw.slot k) < 4 := hrange.2
    omega
  have hother : k = c.cpu → (n : ℤ) ≠ x.window := by
    rintro rfl
    rw [← hn]
    exact hwindow rfl
  rw [hn, clear_bit_ok hn64, clear_bit_ok hn64, Loops.ok_bind, Loops.ok_bind]
  -- the register, the bit, and the allocation
  have hregs := hk.set_wr c' hother 0 0
  have hbit := hregs.clear_window hon hkon hother
  have hstore := hbit.store_alloc (a := { a' with
    assign_mask := cpumask_clear_cpu cpu a'.assign_mask
    window := Function.update a'.window (hw.slot k) A64FX_HWB_UNASSIGNED_WIN
    assign_count := a'.assign_count - 1 }) (.other hplace)
  refine .ok ⟨hstore, rfl, rfl, fun j' hj' => ?_, hplace, fun hi => ?_⟩
  · have hlt := hfound j' hj'
    show j'.val < (Function.update ks.dev.cmgs (hw.cmg k) _ (hw.cmg k)).num_pes
    rw [Function.update_self]
    exact hlt
  · exact window_ne_of_given_back (hwindow hi) (hw.slot k)

theorem free_allocation_rest_ahead (h : Ahead l x c s t) {tm : a64fx_task_mapping}
    {a : a64fx_task_allocation} (hplace : tm.group = c.task.tgid → a.place ≠ x.place c) :
    Twin (Ahead l x c) (free_allocation_rest c' i tm a s) (free_allocation_rest c' i tm a t) := by
  have harm := h.arm_blade c' i a.blade 0
  have hbb := harm.bb_active i
  unfold free_allocation_rest
  simp only [hbb]
  refine Twin.bind_same fun bb_active _ => ?_
  exact .ok ((harm.with_bb i fun _ => bb_active).drop hplace)

theorem free_allocation_ahead (c' : Call hw) (hon : l.online.getLsbD c.cpu = true)
    (h : Ahead l x c s t) {tm : a64fx_task_mapping} {a : a64fx_task_allocation}
    (hplace : tm.group = c.task.tgid → a.place ≠ x.place c)
    (hwindow : i = hw.cmg c.cpu → a.window (hw.slot c.cpu) ≠ (x.window : ℤ)) :
    Twin (Ahead l x c) (free_allocation c' i tm a s) (free_allocation c' i tm a t) := by
  rw [free_allocation_parts, free_allocation_parts, h.bb_active i]
  refine Twin.bind_same fun active _ => ?_
  refine Twin.ite (fun _ => ?_) fun _ => .ok (h.drop hplace)
  have hstart : LoopAhead l x c i tm ⟨s, a, none⟩ ⟨t, a, none⟩ :=
    ⟨h, rfl, rfl, nofun, hplace, hwindow⟩
  refine Twin.bind (R := LoopAhead l x c i tm) ?_ fun y z hyz =>
    free_allocation_rest_ahead hyz.kernel hplace
  refine Twin.ite (fun _ => ?_) fun _ => .ok hstart
  -- the walk, one CPU after the other
  refine Twin.foldlM (fun cpu _ y z hyz => ?_) hstart
  rw [hyz.alloc]
  exact Twin.ite (fun _ => free_allocation_cpu_ahead hon hyz cpu) fun _ => .ok hyz

/-! ## How many allocations a mapping counts -/

/-- The count in the mapping of group `g`. -/
def Kernel.num_allocs (s : Kernel) (g : ℕ) : Option ℤ :=
  (s.mapping g).map a64fx_task_mapping.num_allocs

/-- Storing an allocation does not change it, -/
theorem num_allocs_store_alloc (d : a64fx_hwb_device) (tm : a64fx_task_mapping)
    (a : a64fx_task_allocation) (g : ℕ) (s : Kernel) (hs : s.dev.task_list = d.task_list) :
    ({ s with dev := d.store_alloc tm a } : Kernel).num_allocs g = s.num_allocs g := by
  unfold Kernel.num_allocs Kernel.mapping a64fx_hwb_device.store_alloc
  unfold a64fx_hwb_device.with_taskmap
  rw [Keyed.lookup_modify (by intro _ hm; exact hm), Option.map_map, hs]
  congr 1
  funext m
  show a64fx_task_mapping.num_allocs (if g = tm.group then _ else m) = m.num_allocs
  by_cases hg : g = tm.group
  · rw [if_pos hg]
  · rw [if_neg hg]

theorem num_allocs_of_free_allocation_cpu {tm : a64fx_task_mapping} {y z : FreeLoop} {cpu : ℕ}
    (h : free_allocation_cpu c' i tm y cpu = .ok z) (g : ℕ) :
    z.kernel.num_allocs g = y.kernel.num_allocs g := by
  unfold free_allocation_cpu at h
  simp only [Loops.bind_eq_ok] at h
  obtain ⟨pe, -, ppe, -, h⟩ := h
  split_ifs at h
  · rw [Loops.bind_eq_ok] at h
    obtain ⟨bw_map, -, h⟩ := h
    cases h
    exact num_allocs_store_alloc _ tm _ g y.kernel rfl
  · cases h
    rfl

/-- and a release takes one off it. -/
theorem num_allocs_of_free_allocation {tm : a64fx_task_mapping} {a : a64fx_task_allocation}
    (h : free_allocation c' i tm a s = .ok t) :
    t.num_allocs tm.group = (s.num_allocs tm.group).map fun n => n - 1 := by
  have hdrop : ∀ u : Kernel, u.num_allocs tm.group = s.num_allocs tm.group →
      ({ u with dev := u.dev.with_taskmap tm (a64fx_task_mapping.drop a.place) } :
        Kernel).num_allocs tm.group = (s.num_allocs tm.group).map fun n => n - 1 := by
    intro u hu
    rw [← hu]
    unfold Kernel.num_allocs Kernel.mapping a64fx_hwb_device.with_taskmap
    rw [Keyed.lookup_modify_self (by intro _ hm; exact hm), Option.map_map, Option.map_map]
    rfl
  have hrest : ∀ u : Kernel, u.num_allocs tm.group = s.num_allocs tm.group →
      free_allocation_rest c' i tm a u = .ok t →
      t.num_allocs tm.group = (s.num_allocs tm.group).map fun n => n - 1 := by
    intro u hu hrest
    unfold free_allocation_rest at hrest
    simp only [Loops.bind_eq_ok] at hrest
    obtain ⟨bb_active, -, hrest⟩ := hrest
    cases hrest
    exact hdrop { (arm_blade c' i a.blade 0 u) with dev := _ } hu
  rw [free_allocation_parts, Loops.bind_eq_ok] at h
  obtain ⟨active, -, h⟩ := h
  split_ifs at h
  · rw [Loops.bind_eq_ok] at h
    obtain ⟨y, hloop, h⟩ := h
    refine hrest y.kernel ?_ h
    refine (Loops.foldlM_ok (fun y => y.kernel.num_allocs tm.group = s.num_allocs tm.group)
      (fun _ => True) _ _ _ _ hloop rfl fun cpu _ u v hu hstep => ⟨?_, trivial⟩).1
    split_ifs at hstep
    · rw [num_allocs_of_free_allocation_cpu hstep]
      exact hu
    · cases hstep
      exact hu
  · exact hrest s rfl h
  · cases h
    exact hdrop s rfl

/-- The mapping of two allocations is not empty after the release of one. -/
theorem num_allocs_ne_zero {tm : a64fx_task_mapping} {a : a64fx_task_allocation}
    (h : free_allocation c' i tm a s = .ok t) (hmany : s.num_allocs tm.group ≠ some 1) :
    t.num_allocs tm.group ≠ some 0 := by
  rw [num_allocs_of_free_allocation h]
  intro h0
  obtain ⟨n, hn, hn0⟩ := Option.map_eq_some_iff.mp h0
  have h1 : n = 1 := by omega
  exact hmany (h1 ▸ hn)

/-! ## Unlinking a mapping -/

/-- What the second run finds for the mapping `m` of the first. -/
def WindowWrite.mapping (x : WindowWrite) (c : Call hw) (m : a64fx_task_mapping) :
    a64fx_task_mapping :=
  if m.group = c.task.tgid then m.alter (x.place c) (x.alloc (hw.slot c.cpu) c.cpu) else m

theorem WindowWrite.task_mapping (x : WindowWrite) (c : Call hw) (m : a64fx_task_mapping) :
    (x.mapping c m).task = m.task ∧ (x.mapping c m).num_allocs = m.num_allocs := by
  unfold mapping
  by_cases hg : m.group = c.task.tgid
  · rw [if_pos hg]
    exact ⟨rfl, rfl⟩
  · rw [if_neg hg]
    exact ⟨rfl, rfl⟩

theorem WindowWrite.group_mapping (x : WindowWrite) (c : Call hw) (m : a64fx_task_mapping) :
    (x.mapping c m).group = m.group :=
  congrArg task_struct.tgid (x.task_mapping c m).1

theorem WindowWrite.mapping_of_ne {m : a64fx_task_mapping} (hg : m.group ≠ c.task.tgid) :
    x.mapping c m = m :=
  if_neg hg

theorem get_taskmap_ahead (h : Ahead l x c s t) (task : task_struct) :
    get_taskmap t.dev task = (get_taskmap s.dev task).map (x.mapping c) := by
  have halter : get_taskmap t.dev task = (get_taskmap s.dev task).map fun m =>
      if task.tgid = c.task.tgid then m.alter (x.place c) (x.alloc (hw.slot c.cpu) c.cpu)
      else m := by
    rw [h.eq]
    exact get_taskmap_alter _ _ _ _ _
  rw [halter]
  cases hm : get_taskmap s.dev task with
  | none => rfl
  | some m =>
      have hg : m.group = task.tgid := (mem_of_get_taskmap hm).2
      rw [Option.map_some, Option.map_some, ← hg]
      rfl

theorem unregister_if_empty_ahead (c' : Call hw) (h : Ahead l x c s t) {tm : a64fx_task_mapping}
    (hmany : tm.group = c.task.tgid → s.num_allocs tm.group ≠ some 0) :
    Twin (Ahead l x c) (unregister_if_empty c' tm s) (unregister_if_empty c' tm t) := by
  unfold unregister_if_empty
  rw [get_taskmap_ahead h]
  cases hm : get_taskmap s.dev tm.task with
  | none => exact .error _
  | some m =>
      have hmg : m.group = tm.group := (mem_of_get_taskmap hm).2
      have hnum := (x.task_mapping c m).2
      simp only [Option.map_some, hnum]
      refine Twin.ite (fun hzero => ?_) fun _ => .ok h
      rw [unregister_task_empty hzero, unregister_task_empty (hnum.trans hzero),
        x.group_mapping]
      refine .ok (h.unmap_group fun hg => hmany (hmg.symm.trans hg) ?_)
      -- the mapping of the caller's group still has an allocation
      have hmap : s.mapping tm.group = some m := hm
      rw [Kernel.num_allocs, hmap, Option.map_some, hzero]

/-- The mapping of another group goes with everything it holds. -/
theorem unregister_task_ahead (hon : l.online.getLsbD c.cpu = true) (h : Ahead l x c s t)
    {m : a64fx_task_mapping} (hg : m.group ≠ c.task.tgid)
    (hwindow : ∀ a ∈ m.allocs, a.cmg = (hw.cmg c.cpu).val →
      a.window (hw.slot c.cpu) ≠ (x.window : ℤ)) :
    Twin (Ahead l x c) (unregister_task c' m s) (unregister_task c' m t) := by
  unfold unregister_task
  simp only [pure_bind]
  refine Twin.ite (fun _ => ?_) fun _ => .ok (h.unmap_group hg)
  refine Twin.bind (R := Ahead l x c) ?_ fun u v huv => .ok (huv.unmap_group hg)
  refine Twin.foldlM (fun a ha u v huv => ?_) h
  refine Twin.bind_same fun cmg hcmg => ?_
  refine free_allocation_ahead c' hon huv (fun heq => absurd heq hg) fun hc => ?_
  refine hwindow a ha ?_
  rw [← cmgs_ptr_eq_ok hcmg, hc]

end A64fxHwb
