/-
What a BW_ASSIGN or a BW_UNASSIGN looks at and writes: the caller's own PE.

The two requests look at the CPUs of the blade, at the window the blade has on the
caller's PE, at the window bits of that PE and at the window registers of that CPU
(`View`), and they change nothing but these, the CPUs of the blade apart
(`WindowWrite`). So a request from one CPU does not see what another CPU has done, and
the changes of two CPUs can be made in either order, even to one allocation.
-/
import A64fxHwb.Footprint
import A64fxHwb.Outcome

set_option autoImplicit false

namespace A64fxHwb

open BitWord Relation Runs Footprint

variable {hw : Machine} {l : Load hw} {c c' : Call hw} {s : Kernel}

/-! ## Changing one allocation in place -/

/-- The allocation of the mapping for the place `p`, changed by `f`. -/
def a64fx_task_mapping.alter (m : a64fx_task_mapping) (p : ℕ × ℕ)
    (f : a64fx_task_allocation → a64fx_task_allocation) : a64fx_task_mapping :=
  { m with allocs := Keyed.modify a64fx_task_allocation.place p f m.allocs }

/-- The allocation of group `g` for the place `p`, changed by `f`. -/
def a64fx_hwb_device.alter (d : a64fx_hwb_device) (g : ℕ) (p : ℕ × ℕ)
    (f : a64fx_task_allocation → a64fx_task_allocation) : a64fx_hwb_device :=
  { d with task_list := Keyed.modify a64fx_task_mapping.group g (fun m => m.alter p f) d.task_list }

/-- Storing what `f` makes of an allocation that was found is a change in place. -/
theorem store_alloc_eq_alter {d : a64fx_hwb_device} {m : a64fx_task_mapping}
    {a : a64fx_task_allocation} (hl : Lists d) (hm : m ∈ d.task_list) (ha : a ∈ m.allocs)
    {f : a64fx_task_allocation → a64fx_task_allocation} (hp : (f a).place = a.place) :
    d.store_alloc m (f a) = d.alter m.group a.place f := by
  unfold a64fx_hwb_device.store_alloc a64fx_hwb_device.alter a64fx_hwb_device.with_taskmap
  congr 1
  refine Keyed.modify_congr fun x hx => ?_
  have hxm : x = m := by
    rw [Keyed.lookup_of_mem hl.groups hm] at hx
    exact (Option.some.inj hx).symm
  rw [hxm, hp]
  unfold a64fx_task_mapping.alter
  congr 1
  refine Keyed.modify_congr fun y hy => ?_
  have hya : y = a := by
    rw [Keyed.lookup_of_mem (hl.mapping m hm).places ha] at hy
    exact (Option.some.inj hy).symm
  rw [hya]

/-- Two changes in place commute if they are about different places, or commute on the
allocation of the place. -/
theorem alter_comm (d : a64fx_hwb_device) (g g' : ℕ) {p p' : ℕ × ℕ}
    {f f' : a64fx_task_allocation → a64fx_task_allocation} (hf : ∀ a, (f a).place = a.place)
    (hf' : ∀ a, (f' a).place = a.place) (hcomm : p = p' → ∀ a, f (f' a) = f' (f a)) :
    (d.alter g p f).alter g' p' f' = (d.alter g' p' f').alter g p f := by
  have hmapping : ∀ m : a64fx_task_mapping,
      (m.alter p f).alter p' f' = (m.alter p' f').alter p f := by
    intro m
    have h : Keyed.modify a64fx_task_allocation.place p f
        (Keyed.modify a64fx_task_allocation.place p' f' m.allocs) =
        Keyed.modify a64fx_task_allocation.place p' f'
          (Keyed.modify a64fx_task_allocation.place p f m.allocs) :=
      Keyed.modify_comm (fun a ha => (hf a).trans ha) (fun a ha => (hf' a).trans ha) hcomm
        m.allocs
    unfold a64fx_task_mapping.alter
    rw [h]
  have h : Keyed.modify a64fx_task_mapping.group g' (fun m => m.alter p' f')
      (Keyed.modify a64fx_task_mapping.group g (fun m => m.alter p f) d.task_list) =
      Keyed.modify a64fx_task_mapping.group g (fun m => m.alter p f)
        (Keyed.modify a64fx_task_mapping.group g' (fun m => m.alter p' f') d.task_list) := by
    refine Keyed.modify_comm ?_ ?_ (fun _ m => hmapping m) d.task_list
    · exact fun _ hg => hg
    · exact fun _ hg => hg
  unfold a64fx_hwb_device.alter
  rw [h]

/-- Writes to two CMGs commute, and so do two writes to one if they do on its data. -/
theorem with_cmg_comm (d : a64fx_hwb_device) {i i' : Fin MAX_NUM_CMG}
    {f f' : a64fx_cmg_device → a64fx_cmg_device} (h : i = i' → ∀ y, f' (f y) = f (f' y)) :
    (d.with_cmg i f).with_cmg i' f' = (d.with_cmg i' f').with_cmg i f := by
  unfold a64fx_hwb_device.with_cmg
  congr 1
  by_cases hi : i = i'
  · subst hi
    simp only [Function.update_self, Function.update_idem, h rfl]
  · simp only [Function.update_of_ne hi, Function.update_of_ne (Ne.symm hi)]
    exact Function.update_comm hi _ _ _

/-- Writes to the entries of two PEs commute. -/
theorem with_pe_comm (d : a64fx_hwb_device) {i i' : Fin MAX_NUM_CMG} {j j' : Fin MAX_PE_PER_CMG}
    (f f' : a64fx_core_mapping → a64fx_core_mapping) (h : i = i' → j ≠ j') :
    (d.with_cmg i fun x => x.with_pe j f).with_cmg i' (fun x => x.with_pe j' f') =
      (d.with_cmg i' fun x => x.with_pe j' f').with_cmg i fun x => x.with_pe j f := by
  refine with_cmg_comm d fun hi y => ?_
  have hj := h hi
  unfold a64fx_cmg_device.with_pe
  simp only [Function.update_of_ne hj, Function.update_of_ne hj.symm]
  congr 1
  exact Function.update_comm hj _ _ _

/-- Two CPUs of one CMG have different slots. -/
theorem Call.slot_ne (h : c.cpu ≠ c'.cpu) (hc : hw.cmg c.cpu = hw.cmg c'.cpu) :
    hw.slot c.cpu ≠ hw.slot c'.cpu := by
  have hp := c.online_present _ c.cpu_online
  have hp' := c'.online_present _ c'.cpu_online
  exact fun hs => h (Machine.eq_of_slot hp hp' hc hs)

/-! ## The changes -/

/-- A change a BW request makes: window `window` of the caller's PE taken for the blade, or
given back by it. -/
structure WindowWrite where
  takes : Bool
  blade : ℕ
  window : ℕ

namespace WindowWrite

/-- The allocation, with the window of slot `j`, whose CPU is `k`. -/
def alloc (x : WindowWrite) (j : Fin MAX_PE_PER_CMG) (k : ℕ) (a : a64fx_task_allocation) :
    a64fx_task_allocation :=
  bif x.takes then a.take j k x.window else a.give j k

/-- The entry of the PE. -/
def entry (x : WindowWrite) (p : a64fx_core_mapping) : a64fx_core_mapping :=
  { p with bw_map := bif x.takes then setBit p.bw_map x.window else clearBit p.bw_map x.window }

/-- The window registers of the CPU. -/
def registers (x : WindowWrite) (wr : ℕ → BitVec 64) : ℕ → BitVec 64 :=
  Function.update wr x.window
    (bif x.takes then assign_sync_wr_val 1 x.blade else assign_sync_wr_val 0 0)

/-- The state. -/
def apply (x : WindowWrite) (c : Call hw) (s : Kernel) : Kernel :=
  let dev := s.dev.with_cmg (hw.cmg c.cpu) fun d => d.with_pe (hw.slot c.cpu) x.entry
  { s with
    dev := dev.alter c.task.tgid ((hw.cmg c.cpu).val, x.blade) (x.alloc (hw.slot c.cpu) c.cpu)
    regs := { s.regs with
      assign_sync_wr := Function.update s.regs.assign_sync_wr c.cpu
        (x.registers (s.regs.assign_sync_wr c.cpu)) } }

theorem place_alloc (x : WindowWrite) (j : Fin MAX_PE_PER_CMG) (k : ℕ)
    (a : a64fx_task_allocation) : (x.alloc j k a).place = a.place := by
  unfold alloc
  cases x.takes with
  | true => rfl
  | false => rfl

theorem cpumask_alloc (x : WindowWrite) (j : Fin MAX_PE_PER_CMG) (k : ℕ)
    (a : a64fx_task_allocation) : (x.alloc j k a).cpumask = a.cpumask := by
  unfold alloc
  cases x.takes with
  | true => rfl
  | false => rfl

/-- The windows of the other PEs stay. -/
theorem window_alloc (x : WindowWrite) {j j' : Fin MAX_PE_PER_CMG} (h : j' ≠ j) (k : ℕ)
    (a : a64fx_task_allocation) : (x.alloc j k a).window j' = a.window j' := by
  unfold alloc
  cases x.takes with
  | true => exact Function.update_of_ne h _ _
  | false => exact Function.update_of_ne h _ _

/-- A change of an allocation, as what becomes of its window, its mask and its count. -/
theorem alloc_eq (x : WindowWrite) (j : Fin MAX_PE_PER_CMG) (k : ℕ) (a : a64fx_task_allocation) :
    x.alloc j k a = { a with
      window := Function.update a.window j (bif x.takes then (x.window : ℤ) else -1)
      assign_mask := bif x.takes then setBit a.assign_mask k else clearBit a.assign_mask k
      assign_count := a.assign_count + bif x.takes then 1 else -1 } := by
  unfold alloc
  cases x.takes with
  | true => rfl
  | false => rfl

/-- The bits of two CPUs are set or cleared in either order. -/
theorem mask_comm (b b' : Bool) {k k' : ℕ} (hk : k ≠ k') (m : cpumask_t) :
    (bif b then setBit (bif b' then setBit m k' else clearBit m k') k
      else clearBit (bif b' then setBit m k' else clearBit m k') k) =
    (bif b' then setBit (bif b then setBit m k else clearBit m k) k'
      else clearBit (bif b then setBit m k else clearBit m k) k') := by
  refine BitVec.eq_of_getLsbD_eq fun i hi => ?_
  cases b with
  | true => cases b' with
    | true => simp only [cond_true, getLsbD_setBit]; grind
    | false => simp only [cond_true, cond_false, getLsbD_setBit, getLsbD_clearBit]; grind
  | false => cases b' with
    | true => simp only [cond_true, cond_false, getLsbD_setBit, getLsbD_clearBit]; grind
    | false => simp only [cond_false, getLsbD_clearBit]; grind

/-- **The changes of two PEs to one allocation commute.** -/
theorem alloc_comm (x y : WindowWrite) {j j' : Fin MAX_PE_PER_CMG} {k k' : ℕ} (hj : j ≠ j')
    (hk : k ≠ k') (a : a64fx_task_allocation) :
    x.alloc j k (y.alloc j' k' a) = y.alloc j' k' (x.alloc j k a) := by
  simp only [alloc_eq]
  rw [Function.update_comm hj, mask_comm x.takes y.takes hk, add_right_comm]

/-- **The changes of two CPUs commute.** -/
theorem apply_comm (x y : WindowWrite) (h : c.cpu ≠ c'.cpu) (s : Kernel) :
    x.apply c (y.apply c' s) = y.apply c' (x.apply c s) := by
  have hslot := Call.slot_ne h
  have hpe := with_pe_comm s.dev x.entry y.entry hslot
  have halter : ∀ d : a64fx_hwb_device,
      (d.alter c'.task.tgid ((hw.cmg c'.cpu).val, y.blade) (y.alloc (hw.slot c'.cpu) c'.cpu)).alter
        c.task.tgid ((hw.cmg c.cpu).val, x.blade) (x.alloc (hw.slot c.cpu) c.cpu) =
      (d.alter c.task.tgid ((hw.cmg c.cpu).val, x.blade) (x.alloc (hw.slot c.cpu) c.cpu)).alter
        c'.task.tgid ((hw.cmg c'.cpu).val, y.blade) (y.alloc (hw.slot c'.cpu) c'.cpu) := by
    intro d
    refine alter_comm d _ _ (place_alloc y _ _) (place_alloc x _ _) fun hplace a => ?_
    have hcmg : hw.cmg c.cpu = hw.cmg c'.cpu := Fin.ext (Prod.mk.inj hplace).1.symm
    exact (alloc_comm x y (hslot hcmg) h a).symm
  -- a change of a list and a change of the table do not meet
  have hdev : (x.apply c (y.apply c' s)).dev = (y.apply c' (x.apply c s)).dev := by
    refine Eq.trans ?_ (halter
      ((s.dev.with_cmg (hw.cmg c.cpu) fun d => d.with_pe (hw.slot c.cpu) x.entry).with_cmg
        (hw.cmg c'.cpu) fun d => d.with_pe (hw.slot c'.cpu) y.entry))
    exact congrArg (fun d : a64fx_hwb_device => (d.alter c'.task.tgid
      ((hw.cmg c'.cpu).val, y.blade) (y.alloc (hw.slot c'.cpu) c'.cpu)).alter c.task.tgid
      ((hw.cmg c.cpu).val, x.blade) (x.alloc (hw.slot c.cpu) c.cpu)) hpe.symm
  have hregs : (x.apply c (y.apply c' s)).regs = (y.apply c' (x.apply c s)).regs := by
    simp only [apply, Function.update_of_ne h, Function.update_of_ne h.symm]
    rw [Function.update_comm h]
  show (⟨(x.apply c (y.apply c' s)).dev, (x.apply c (y.apply c' s)).regs, s.locks,
    s.preempt_count⟩ : Kernel) = y.apply c' (x.apply c s)
  rw [hdev, hregs]
  rfl

end WindowWrite

/-- Taking a window is a change of the caller's PE, -/
theorem taken_eq_apply (hl : Lists s.dev) {m : a64fx_task_mapping} {a : a64fx_task_allocation}
    (hm : m ∈ s.dev.task_list) (hg : m.group = c.task.tgid) (ha : a ∈ m.allocs)
    (hc : a.cmg = (hw.cmg c.cpu).val) (hb : a.blade < MAX_BB_PER_CMG) {w : ℕ}
    (hw4 : w < MAX_BW_PER_CMG) :
    taken c m c.cpu w a s = (⟨true, a.blade, w⟩ : WindowWrite).apply c s := by
  have hdev : s.dev.take_window m (hw.cmg c.cpu) (hw.slot c.cpu) w (a.take (hw.slot c.cpu) c.cpu w)
      = ((⟨true, a.blade, w⟩ : WindowWrite).apply c s).dev := by
    have hstore := store_alloc_eq_alter (d := s.dev.with_cmg (hw.cmg c.cpu) fun x =>
        x.with_pe (hw.slot c.cpu) fun p => { p with bw_map := setBit p.bw_map w })
      (f := fun a => a.take (hw.slot c.cpu) c.cpu w) (hl.congr rfl rfl) hm ha rfl
    rw [hg, a64fx_task_allocation.place, hc] at hstore
    exact hstore
  unfold taken
  rw [set_wr_eq c.cpu_online hw4 hb, hdev]
  rfl

/-- and so is giving one back. -/
theorem give_back_eq_apply (hl : Lists s.dev) {m : a64fx_task_mapping} {a : a64fx_task_allocation}
    (hm : m ∈ s.dev.task_list) (hg : m.group = c.task.tgid) (ha : a ∈ m.allocs)
    (hc : a.cmg = (hw.cmg c.cpu).val) {w : ℕ} (hw4 : w < MAX_BW_PER_CMG) :
    give_back c m c.cpu w a s = (⟨false, a.blade, w⟩ : WindowWrite).apply c s := by
  have hdev : s.dev.give_window m (hw.cmg c.cpu) (hw.slot c.cpu) w
      ((s.dev.cmgs (hw.cmg c.cpu)).pe_map (hw.slot c.cpu)).win_blades (a.give (hw.slot c.cpu) c.cpu)
      = ((⟨false, a.blade, w⟩ : WindowWrite).apply c s).dev := by
    have hstore := store_alloc_eq_alter (d := s.dev.with_cmg (hw.cmg c.cpu) fun x =>
        x.with_pe (hw.slot c.cpu) fun p => { p with bw_map := clearBit p.bw_map w })
      (f := fun a => a.give (hw.slot c.cpu) c.cpu) (hl.congr rfl rfl) hm ha rfl
    rw [hg, a64fx_task_allocation.place, hc] at hstore
    refine Eq.trans ?_ hstore
    -- the `win_blades` of the entry are stored as they were
    unfold a64fx_hwb_device.give_window
    congr 1
  unfold give_back
  rw [hdev]
  refine (congrArg (fun t : Kernel => ({ t with dev := _ } : Kernel))
    (set_wr_eq (b := 0) c.cpu_online hw4 (by decide) 0 s)).trans ?_
  rfl

/-! ## What a request looks at -/

/-- Whether the group has a mapping; whether the caller's CPU is one of the blade's, and
the window recorded for its PE, if the blade is found; the windows of the PE that are in
use; the window registers of the CPU. -/
structure View where
  mapped : Bool
  found : Option (Bool × ℤ)
  bw_map : BitVec 64
  wr : ℕ → BitVec 64

/-- What a call that names the blade `blade` sees. -/
def view (c : Call hw) (blade : ℕ) (s : Kernel) : View where
  mapped := (get_taskmap s.dev c.task).isSome
  found := ((get_taskmap s.dev c.task).bind fun m =>
    get_allocation (s.dev.cmgs (hw.cmg c.cpu)) m blade).map fun a =>
      (a.cpumask.getLsbD c.cpu, a.window (hw.slot c.cpu))
  bw_map := ((s.dev.cmgs (hw.cmg c.cpu)).pe_map (hw.slot c.cpu)).bw_map
  wr := s.regs.assign_sync_wr c.cpu

/-- `get_allocation` as a search by the place. -/
theorem get_allocation_lookup {d : a64fx_hwb_device} (ht : Table l d) (i : Fin MAX_NUM_CMG)
    (m : a64fx_task_mapping) (blade : ℕ) : get_allocation (d.cmgs i) m blade =
      Keyed.lookup a64fx_task_allocation.place (i.val, blade) m.allocs := by
  unfold get_allocation Keyed.lookup
  congr 1
  funext a
  simp only [ht.cmg_id i, Int.natCast_inj, a64fx_task_allocation.place, Prod.mk.injEq]

theorem get_taskmap_alter (d : a64fx_hwb_device) (task : task_struct) (g : ℕ) (p : ℕ × ℕ)
    (f : a64fx_task_allocation → a64fx_task_allocation) : get_taskmap (d.alter g p f) task =
      (get_taskmap d task).map fun m => if task.tgid = g then m.alter p f else m := by
  refine Keyed.lookup_modify (f := fun m : a64fx_task_mapping => m.alter p f) (k := g) ?_
    task.tgid d.task_list
  exact fun _ hm => hm

/-- **A call does not see what another CPU has done.** -/
theorem view_apply (ht : Table l s.dev) (y : WindowWrite) (h : c.cpu ≠ c'.cpu) (blade : ℕ)
    (ht' : Table l (y.apply c' s).dev) : view c blade (y.apply c' s) = view c blade s := by
  have hslot := Call.slot_ne h
  have hmap : get_taskmap (y.apply c' s).dev c.task =
      (get_taskmap s.dev c.task).map fun m : a64fx_task_mapping =>
      if c.task.tgid = c'.task.tgid then
        m.alter ((hw.cmg c'.cpu).val, y.blade) (y.alloc (hw.slot c'.cpu) c'.cpu)
      else m := get_taskmap_alter _ _ _ _ _
  -- the allocation is changed at the other slot, if at all
  have halter : ∀ m : a64fx_task_mapping,
      (Keyed.lookup a64fx_task_allocation.place ((hw.cmg c.cpu).val, blade)
        (m.alter ((hw.cmg c'.cpu).val, y.blade) (y.alloc (hw.slot c'.cpu) c'.cpu)).allocs).map
          (fun a => (a.cpumask.getLsbD c.cpu, a.window (hw.slot c.cpu))) =
      (Keyed.lookup a64fx_task_allocation.place ((hw.cmg c.cpu).val, blade) m.allocs).map
        fun a => (a.cpumask.getLsbD c.cpu, a.window (hw.slot c.cpu)) := by
    intro m
    unfold a64fx_task_mapping.alter
    rw [Keyed.lookup_modify (fun a ha => (y.place_alloc _ _ a).trans ha), Option.map_map]
    congr 1
    funext a
    show (fun a : a64fx_task_allocation => (a.cpumask.getLsbD c.cpu, a.window (hw.slot c.cpu)))
      (if _ then _ else a) = _
    by_cases hplace : ((hw.cmg c.cpu).val, blade) = ((hw.cmg c'.cpu).val, y.blade)
    · have hcmg : hw.cmg c.cpu = hw.cmg c'.cpu := Fin.ext (Prod.mk.inj hplace).1
      rw [if_pos hplace]
      simp only [y.cpumask_alloc, y.window_alloc (hslot hcmg)]
    · rw [if_neg hplace]
  have hfound : (view c blade (y.apply c' s)).found = (view c blade s).found := by
    simp only [view, hmap]
    cases get_taskmap s.dev c.task with
    | none => rfl
    | some m =>
        simp only [Option.map_some, Option.bind_some]
        rw [get_allocation_lookup ht', get_allocation_lookup ht]
        by_cases hg : c.task.tgid = c'.task.tgid
        · rw [if_pos hg]
          exact halter m
        · rw [if_neg hg]
  have hbw : (view c blade (y.apply c' s)).bw_map = (view c blade s).bw_map := by
    show ((Function.update s.dev.cmgs (hw.cmg c'.cpu) _ (hw.cmg c.cpu)).pe_map _).bw_map = _
    by_cases hcmg : hw.cmg c.cpu = hw.cmg c'.cpu
    · rw [hcmg, Function.update_self]
      show (Function.update (s.dev.cmgs (hw.cmg c'.cpu)).pe_map (hw.slot c'.cpu) _
        (hw.slot c.cpu)).bw_map = _
      rw [Function.update_of_ne (hslot hcmg), ← hcmg]
      rfl
    · rw [Function.update_of_ne hcmg]
      rfl
  have hwr : (view c blade (y.apply c' s)).wr = (view c blade s).wr := Function.update_of_ne h _ _
  have hmapped : (view c blade (y.apply c' s)).mapped = (view c blade s).mapped := by
    simp only [view, hmap, Option.isSome_map]
  show (⟨(view c blade (y.apply c' s)).mapped, (view c blade (y.apply c' s)).found,
    (view c blade (y.apply c' s)).bw_map, (view c blade (y.apply c' s)).wr⟩ : View) = _
  rw [hmapped, hfound, hbw, hwr]

/-! ## What a request makes of it -/

/-- The state after the change, if there is one. -/
def performed (c : Call hw) (s : Kernel) : Option WindowWrite → Kernel
  | none => s
  | some x => x.apply c s

/-- What a BW_ASSIGN decides on what it sees: the results, and the change. -/
def assign_decision (l : Load hw) (c : Call hw) (blade : ℕ) (window : ℤ) (v : View) :
    Except Fault ((ℤ × Option ℤ) × Option WindowWrite) :=
  if cpumask_weight c.cpus_mask > 1 then .ok ((-EINVAL, none), none)
  else match v.found with
  | none => .ok ((-ENODEV, none), none)
  | some (member, recorded) =>
    if member = true then
      if l.online.getLsbD c.cpu = true then do
        let chosen ← oss_a64fx_hwb_assign_window c window recorded v.bw_map
        match chosen with
        | none => return ((-EINVAL, none), none)
        | some w =>
          if 0 ≤ w ∧ w < MAX_BW_PER_CMG ∧ v.bw_map.getLsbD w.toNat = false then
            return ((0, some w), some ⟨true, blade, w.toNat⟩)
          else return ((-ENODEV, none), none)
      else .error .null_pemap
    else .ok ((-ENODEV, none), none)

/-- What a BW_UNASSIGN decides on what it sees. -/
def unassign_decision (l : Load hw) (c : Call hw) (blade : ℕ) (v : View) :
    Except Fault (ℤ × Option WindowWrite) :=
  if cpumask_weight c.cpus_mask > 1 then .ok (-EINVAL, none)
  else match v.mapped, v.found with
  | false, _ => .ok (-ENODEV, none)
  | true, none => .ok (-EINVAL, none)
  | true, some (_, recorded) =>
    if l.online.getLsbD c.cpu = true then
      if 0 ≤ recorded ∧ (v.wr recorded.toNat &&& A64FX_HWB_ASSIGN_BB_MASK).toNat = blade then
        .ok (0, some ⟨false, blade, recorded.toNat⟩)
      else .ok (-EINVAL, none)
    else .error .null_pemap

/-- BW_ASSIGN between its locks. -/
theorem assign_find_decision (hi : Inv l s.dev) (hlock : s.locks = Locks.dev_held) (blade : ℕ)
    (window : ℤ) (hpin : ¬cpumask_weight c.cpus_mask > 1) :
    oss_a64fx_hwb_assign_find c blade window s =
      (assign_decision l c blade window (view c blade s)).map fun x =>
        (x.1, performed c s x.2) := by
  unfold assign_decision view
  rw [if_neg hpin]
  cases hget : get_taskmap s.dev c.task with
  | none =>
      unfold oss_a64fx_hwb_assign_find
      rw [hget]
      rfl
  | some m =>
      obtain ⟨hm, hg⟩ := mem_of_get_taskmap hget
      simp only [Option.bind_some]
      cases halloc : get_allocation (s.dev.cmgs (hw.cmg c.cpu)) m blade with
      | none =>
          unfold oss_a64fx_hwb_assign_find
          simp only [hget, Machine.read_peinfo, halloc]
          rfl
      | some a =>
          obtain ⟨ha, hc, hb⟩ := get_allocation_eq_some hi.table halloc
          have hblade : a.blade = blade := Int.natCast_inj.mp hb
          subst hblade
          rw [assign_find_eq window hget halloc rfl]
          simp only [Option.map_some]
          by_cases hmem : a.cpumask.getLsbD c.cpu = true
          swap
          · -- the exit before the PE is looked at
            rw [if_neg hmem, assign_locked_not_member hlock (Bool.eq_false_iff.mpr hmem)]
            rfl
          rw [if_pos hmem]
          cases hon : l.online.getLsbD c.cpu with
          | false =>
              rw [get_pemap_offline hi.table (c.online_present _ c.cpu_online) hon,
                assign_locked_no_entry hlock hmem]
              rfl
          | true =>
              have hs := hi.sane _ a ⟨m, hm, hg, ha⟩
              rw [get_pemap_online hi.table hon, assign_locked_eq hi.table hlock hon, if_pos hmem,
                if_pos rfl]
              cases oss_a64fx_hwb_assign_window c window (a.window (hw.slot c.cpu))
                  ((s.dev.cmgs (hw.cmg c.cpu)).pe_map (hw.slot c.cpu)).bw_map with
              | error f => rfl
              | ok chosen =>
                  cases chosen with
                  | none => rfl
                  | some w =>
                      have hbit : ((s.dev.cmgs (hw.cmg c.cpu)).pe_map
                          (hw.slot c.cpu)).bw_map.getLsbD w.toNat =
                            s.dev.bw (hw.cmg c.cpu) (hw.slot c.cpu) w.toNat := rfl
                      simp only [Loops.ok_bind, hbit]
                      by_cases hcond : 0 ≤ w ∧ w < MAX_BW_PER_CMG ∧
                          s.dev.bw (hw.cmg c.cpu) (hw.slot c.cpu) w.toNat = false
                      · have hw4 : w < 4 := hcond.2.1
                        have h4 : w.toNat < 4 := by omega
                        rw [if_pos hcond, if_pos hcond,
                          taken_eq_apply hi.lists hm hg ha hc hs.blade_lt h4]
                        rfl
                      · rw [if_neg hcond, if_neg hcond]
                        rfl

/-- BW_UNASSIGN between its locks. -/
theorem unassign_find_decision (hi : Inv l s.dev) (hlock : s.locks = Locks.dev_held) (blade : ℕ)
    (hpin : ¬cpumask_weight c.cpus_mask > 1) :
    oss_a64fx_hwb_unassign_find c blade s =
      (unassign_decision l c blade (view c blade s)).map fun x => (x.1, performed c s x.2) := by
  unfold unassign_decision view
  rw [if_neg hpin]
  cases hget : get_taskmap s.dev c.task with
  | none =>
      unfold oss_a64fx_hwb_unassign_find
      rw [hget]
      rfl
  | some m =>
      obtain ⟨hm, hg⟩ := mem_of_get_taskmap hget
      simp only [Option.bind_some, Option.isSome_some]
      cases halloc : get_allocation (s.dev.cmgs (hw.cmg c.cpu)) m blade with
      | none =>
          unfold oss_a64fx_hwb_unassign_find
          simp only [hget, Machine.read_peinfo, halloc]
          rfl
      | some a =>
          obtain ⟨ha, hc, hb⟩ := get_allocation_eq_some hi.table halloc
          have hblade : a.blade = blade := Int.natCast_inj.mp hb
          have hs := hi.sane _ a ⟨m, hm, hg, ha⟩
          subst hblade
          simp only [Option.map_some]
          cases hon : l.online.getLsbD c.cpu with
          | false =>
              unfold oss_a64fx_hwb_unassign_find
              simp only [hget, Machine.read_peinfo, halloc,
                get_pemap_offline hi.table (c.online_present _ c.cpu_online) hon]
              rfl
          | true =>
              rw [if_pos rfl, unassign_find_eq hi hlock hget halloc hon]
              unfold wr_blade
              by_cases hcond : 0 ≤ a.window (hw.slot c.cpu) ∧
                  (s.regs.assign_sync_wr c.cpu (a.window (hw.slot c.cpu)).toNat &&&
                    A64FX_HWB_ASSIGN_BB_MASK).toNat = a.blade
              · have hr : Records l a c.cpu (a.window (hw.slot c.cpu)).toNat :=
                  ⟨hon, hc.symm, (Int.toNat_of_nonneg hcond.1).symm⟩
                rw [if_pos hcond, if_pos hcond,
                  give_back_eq_apply hi.lists hm hg ha hc (hs.window_lt hr)]
                rfl
              · rw [if_neg hcond, if_neg hcond]
                rfl

/-- The write is performed between the locks, and then they are dropped. -/
theorem unlock_performed (hlock : s.locks = Locks.free) (y : Option WindowWrite) :
    spin_unlock_dev (put_cpu (performed c (get_cpu { s with locks := Locks.dev_held }) y)) =
      .ok (performed c s y) := by
  cases y with
  | none => exact unlock_unchanged hlock
  | some y =>
      simp only [performed, WindowWrite.apply, get_cpu, put_cpu, add_sub_cancel_right,
        spin_unlock_dev_held]
      rw [← hlock]

/-- **A BW_ASSIGN acts on what it sees.** -/
theorem assign_blade_decision (hi : Inv l s.dev) (hlock : s.locks = Locks.free) (blade : ℕ)
    (window : ℤ) : oss_a64fx_hwb_assign_blade c blade window s =
      (assign_decision l c blade window (view c blade s)).map fun x =>
        (x.1, performed c s x.2) := by
  unfold oss_a64fx_hwb_assign_blade
  by_cases hpin : cpumask_weight c.cpus_mask > 1
  · unfold assign_decision
    rw [if_pos hpin, if_pos hpin]
    rfl
  · have hfind := assign_find_decision (s := get_cpu { s with locks := Locks.dev_held }) hi rfl
      blade window hpin
    have hview : view c blade (get_cpu { s with locks := Locks.dev_held }) = view c blade s := rfl
    rw [if_neg hpin, spin_lock_dev_free hlock, Loops.ok_bind, hfind, hview]
    cases assign_decision l c blade window (view c blade s) with
    | error f => rfl
    | ok x =>
        simp only [Except.map, Loops.ok_bind, unlock_performed hlock]
        rfl

/-- **So does a BW_UNASSIGN.** -/
theorem unassign_blade_decision (hi : Inv l s.dev) (hlock : s.locks = Locks.free) (blade : ℕ) :
    oss_a64fx_hwb_unassign_blade c blade s =
      (unassign_decision l c blade (view c blade s)).map fun x => (x.1, performed c s x.2) := by
  unfold oss_a64fx_hwb_unassign_blade
  by_cases hpin : cpumask_weight c.cpus_mask > 1
  · unfold unassign_decision
    rw [if_pos hpin, if_pos hpin]
    rfl
  · have hfind := unassign_find_decision (s := get_cpu { s with locks := Locks.dev_held }) hi rfl
      blade hpin
    have hview : view c blade (get_cpu { s with locks := Locks.dev_held }) = view c blade s := rfl
    rw [if_neg hpin, spin_lock_dev_free hlock, Loops.ok_bind, hfind, hview]
    cases unassign_decision l c blade (view c blade s) with
    | error f => rfl
    | ok x =>
        simp only [Except.map, Loops.ok_bind, unlock_performed hlock]
        rfl

/-! ## The requests -/

/-- A BW_ASSIGN or a BW_UNASSIGN. -/
def Event.OnWindows (e : Event hw) : Prop :=
  (∃ arg, e.request = .ioctl (.BW_ASSIGN arg)) ∨ ∃ arg, e.request = .ioctl (.BW_UNASSIGN arg)

/-- **What such a request replies, and what it changes, is a function of what it sees.** -/
theorem event_decision (l : Load hw) {e : Event hw} (he : e.OnWindows) :
    ∃ (blade : ℕ) (decide : View → Except Fault (Reply × Option WindowWrite)),
      ∀ s, Inv l s.dev → s.locks = Locks.free →
        handle e s = (decide (view e.call blade s)).map fun x => (x.1, performed e.call s x.2) := by
  rcases he with ⟨arg, he⟩ | ⟨arg, he⟩
  · cases hread : arg.read with
    | none =>
        refine ⟨0, fun _ => .ok ({ err := -1 }, none), fun s _ _ => ?_⟩
        rw [handle_unread (Or.inl ⟨arg, he, hread⟩)]
        rfl
    | some ioc =>
        refine ⟨ioc.bb.toNat, fun v =>
          (assign_decision l e.call ioc.bb.toNat ioc.window.toInt v).map
            fun x => (assign_reply arg ioc x.1, x.2), fun s hi hlock => ?_⟩
        rw [assign_event_eq he hread, assign_blade_decision hi hlock]
        beta_reduce
        cases assign_decision l e.call ioc.bb.toNat ioc.window.toInt
          (view e.call ioc.bb.toNat s) with
        | error f => rfl
        | ok x => rfl
  · cases hread : arg.read with
    | none =>
        refine ⟨0, fun _ => .ok ({ err := -1 }, none), fun s _ _ => ?_⟩
        rw [handle_unread (Or.inr (Or.inl ⟨arg, he, hread⟩))]
        rfl
    | some ioc =>
        refine ⟨ioc.bb.toNat, fun v => (unassign_decision l e.call ioc.bb.toNat v).map
          fun x => (unassign_reply arg ioc x.1, x.2), fun s hi hlock => ?_⟩
        rw [unassign_event_eq he hread, unassign_blade_decision hi hlock]
        beta_reduce
        cases unassign_decision l e.call ioc.bb.toNat (view e.call ioc.bb.toNat s) with
        | error f => rfl
        | ok x => rfl

theorem performed_comm (h : c.cpu ≠ c'.cpu) (s : Kernel) (x y : Option WindowWrite) :
    performed c (performed c' s y) x = performed c' (performed c s x) y := by
  cases x with
  | none => rfl
  | some x => cases y with
    | none => rfl
    | some y => exact x.apply_comm y h s

theorem view_performed (ht : Table l s.dev) (h : c.cpu ≠ c'.cpu) (blade : ℕ)
    (y : Option WindowWrite) (ht' : Table l (performed c' s y).dev) :
    view c blade (performed c' s y) = view c blade s := by
  cases y with
  | none => rfl
  | some y => exact view_apply ht y h blade ht'

end A64fxHwb
