/-
BW_UNASSIGN undoes BW_ASSIGN.

Between the two the other CPUs may do what they like, but for a RESET and for the
release of the allocation: each of their operations is one that the run without the
pair can make as well, with the same reply, and the two runs differ by nothing but the
window throughout. BW_UNASSIGN then finds the window recorded, its bit set and its
register naming the blade, as BW_ASSIGN left them, and takes back all of it. What stays
is the register, which is left invalid.
-/
import A64fxHwb.Elsewhere
import A64fxHwb.Withdraw

set_option autoImplicit false

namespace A64fxHwb

open BitWord Relation Runs Footprint

variable {hw : Machine} {l : Load hw} {R : hwb_regs → Prop} {x : WindowWrite} {c c' : Call hw}
variable {d : a64fx_hwb_device} {s s' s₁ t t' t₁ : Kernel} {g : ℕ} {p : ℕ × ℕ}

/-! ## Who holds what, with the change on top -/

/-- A group has an allocation for a place if the outline says so. -/
theorem held_iff_outline (d : a64fx_hwb_device) (g : ℕ) (p : ℕ × ℕ) :
    (∃ a, Held d g a ∧ a.place = p) ↔ ∃ o ∈ d.outline, o.1 = g ∧ p ∈ o.2 := by
  constructor
  · rintro ⟨a, ⟨m, hm, hg, ha⟩, hp⟩
    exact ⟨m.outline, List.mem_map_of_mem hm, hg, List.mem_map.mpr ⟨a, ha, hp⟩⟩
  · rintro ⟨o, ho, hg, hp⟩
    obtain ⟨m, hm, rfl⟩ := List.mem_map.mp ho
    obtain ⟨a, ha, hpa⟩ := List.mem_map.mp hp
    exact ⟨a, ⟨m, hm, hg, ha⟩, hpa⟩

theorem WindowWrite.outline_device (x : WindowWrite) (c : Call hw) (d : a64fx_hwb_device) :
    (x.device c d).outline = d.outline := by
  refine Keyed.map_modify (g := a64fx_task_mapping.outline) (fun m => ?_) d.task_list
  have hplaces : (m.alter (x.place c) (x.alloc (hw.slot c.cpu) c.cpu)).allocs.map
      a64fx_task_allocation.place = m.allocs.map a64fx_task_allocation.place :=
    Keyed.map_modify (fun a => x.place_alloc _ _ a) m.allocs
  rw [a64fx_task_mapping.outline, hplaces]
  rfl

/-- So the two runs hold the same places. -/
theorem Ahead.held_iff (h : Ahead l x c s t) (g : ℕ) (p : ℕ × ℕ) :
    (∃ a, Held t.dev g a ∧ a.place = p) ↔ ∃ a, Held s.dev g a ∧ a.place = p := by
  have houtline : t.dev.outline = s.dev.outline := by
    rw [h.eq]
    exact x.outline_device c s.dev
  rw [held_iff_outline, held_iff_outline, houtline]

/-! ## One operation of another CPU -/

/-- An operation of a thread on a CPU other than `cpu`, with its reply. It is not a reset,
and it does not release the allocation of group `g` for the place `p`. -/
structure Beside (cpu g : ℕ) (p : ℕ × ℕ) (s : Kernel) (y : Event hw × Reply) (s' : Kernel) :
    Prop where
  elsewhere : y.1.call.cpu ≠ cpu
  range : y.1.CmgInRange
  reset : y.1.request ≠ .ioctl .RESET
  handled : handle y.1 s = .ok (y.2, s')
  kept : ∃ a, Held s'.dev g a ∧ a.place = p

variable {y : Event hw × Reply} {k : ℕ}

/-- Such an operation is no BB_FREE of the allocation by the thread in the mapping, and
no close by it. -/
theorem Beside.spares (hs : Settled l s) (hheld : ∃ a, Held s.dev g a ∧ a.place = p)
    (h : Beside k g p s y s') : y.1.Spares s g p := by
  obtain ⟨a, ha, hp⟩ := hheld
  obtain ⟨b, hb, hpb⟩ := h.kept
  constructor
  · intro arg ioc m he hread hget hpid hg hplace
    obtain ⟨hm, -⟩ := mem_of_get_taskmap hget
    have hlt := h.range arg ioc he hread
    obtain ⟨hc, hb'⟩ := Prod.mk.inj (hp.trans hplace.symm)
    have hfound : get_allocation (s.dev.cmgs ⟨ioc.cmg.toNat, hlt⟩) m ioc.bb.toNat = some a := by
      rw [← hb']
      exact get_allocation_of_mem hs.inv.table hs.inv.lists hm
        (ha.mem_allocs hs.inv.lists hm hg) hc
    have hfrees : FreesBlade y.1 s m ⟨ioc.cmg.toNat, hlt⟩ a :=
      ⟨arg, ioc, he, hread, rfl, hget, hfound⟩
    have hdrop := freesBlade_owner hs.inv hs.locks hfrees hpid h.handled
    exact ((hdrop.held g b).mp hb).2 (hpb.trans hp.symm)
  · intro m he hget hpos hpid hg
    obtain ⟨hm, hgroup⟩ := mem_of_get_taskmap hget
    obtain ⟨u, hclose, -, -, -, -, hlist⟩ := close_spec (c := y.1.call) (fun _ => True) hs.inv
      hs.locks trivial fun _ _ _ _ _ => Or.inr trivial
    have hhandle : handle y.1 s = oss_a64fx_hwb_close y.1.call s := by
      unfold handle
      rw [he]
    have hu : s' = u := by
      have hok := h.handled
      rw [hhandle, hclose] at hok
      exact (Prod.mk.inj (Except.ok.inj hok)).2.symm
    rw [if_pos ⟨hpos, m, hm, hgroup, hpid⟩] at hlist
    -- the mapping with the allocation would be gone
    obtain ⟨m', hm', hg', -⟩ := hb
    rw [hu, hlist] at hm'
    exact ((Keyed.mem_erase hs.inv.lists.groups m').mp hm').2
      (hg'.trans (hg.symm.trans hgroup))

/-- What spares the allocation in the second run spares it in the first. -/
theorem Event.Spares.of_ahead {e : Event hw} (h : Ahead l x c s t) (hsp : e.Spares t g p) :
    e.Spares s g p := by
  have hget : ∀ m, get_taskmap s.dev e.call.task = some m →
      get_taskmap t.dev e.call.task = some (x.mapping c m) := fun m hm => by
    rw [get_taskmap_ahead h, hm]
    rfl
  constructor
  · intro arg ioc m he hread hm hpid hg
    have htask := (x.task_mapping c m).1
    exact hsp.1 arg ioc _ he hread (hget m hm) (by rw [htask]; exact hpid)
      ((congrArg task_struct.tgid htask).trans hg)
  · intro m he hm hpos hpid hg
    have htask := (x.task_mapping c m).1
    exact hsp.2 _ he (hget m hm) (by rw [h.active_count]; exact hpos) (by rw [htask]; exact hpid)
      ((congrArg task_struct.tgid htask).trans hg)

/-- The two runs between two operations. -/
structure Paired (l : Load hw) (x : WindowWrite) (c : Call hw) (s t : Kernel) : Prop where
  settled : Settled l s
  settled' : Settled l t
  untaken : Untaken l x c s.dev
  ahead : Ahead l x c s t

theorem Paired.next (h : Paired l x c s t) (hs : Settled l s') (ht : Settled l t')
    (hahead : Ahead l x c s' t')
    (hkept : ∃ a, Held s'.dev c.task.tgid a ∧ a.place = x.place c) : Paired l x c s' t' :=
  ⟨hs, ht, ⟨hs.inv, h.untaken.online, hkept, hahead.vacant⟩, hahead⟩

/-- The run with the change follows, -/
theorem Paired.step (h : Paired l x c s t)
    (hstep : Beside c.cpu c.task.tgid (x.place c) s y s') :
    ∃ t', Beside c.cpu c.task.tgid (x.place c) t y t' ∧ Paired l x c s' t' := by
  have hspare := hstep.spares h.settled h.untaken.held
  have htwin := handle_ahead h.settled h.settled' h.untaken h.ahead hstep.elsewhere hstep.range
    hstep.reset hspare
  rw [hstep.handled] at htwin
  obtain ⟨⟨reply, t'⟩, hok, hreply, hahead⟩ := htwin.of_left
  obtain rfl : y.2 = reply := hreply
  have hkept := (hahead.held_iff c.task.tgid (x.place c)).mpr hstep.kept
  refine ⟨t', ⟨hstep.elsewhere, hstep.range, hstep.reset, hok, hkept⟩, ?_⟩
  exact h.next (h.settled.step hstep.range hstep.handled) (h.settled'.step hstep.range hok) hahead
    hstep.kept

/-- and so does the run without it. -/
theorem Paired.step_back (h : Paired l x c s t)
    (hstep : Beside c.cpu c.task.tgid (x.place c) t y t') :
    ∃ s', Beside c.cpu c.task.tgid (x.place c) s y s' ∧ Paired l x c s' t' := by
  have hheld := (h.ahead.held_iff _ _).mpr h.untaken.held
  have hspare := (hstep.spares h.settled' hheld).of_ahead h.ahead
  have htwin := handle_ahead h.settled h.settled' h.untaken h.ahead hstep.elsewhere hstep.range
    hstep.reset hspare
  rw [hstep.handled] at htwin
  obtain ⟨⟨reply, s'⟩, hok, hreply, hahead⟩ := htwin.of_right
  obtain rfl : reply = y.2 := hreply
  have hkept := (hahead.held_iff c.task.tgid (x.place c)).mp hstep.kept
  refine ⟨s', ⟨hstep.elsewhere, hstep.range, hstep.reset, hok, hkept⟩, ?_⟩
  exact h.next (h.settled.step hstep.range hok) (h.settled'.step hstep.range hstep.handled) hahead
    hkept

/-! ## The pair -/

/-- Window register `w` of CPU `k` holds nothing. -/
def Kernel.invalidated (k w : ℕ) (s : Kernel) : Kernel :=
  { s with regs := { s.regs with
      assign_sync_wr := Function.update s.regs.assign_sync_wr k
        (Function.update (s.regs.assign_sync_wr k) w 0) } }

/-- It reads invalid, with blade 0. -/
theorem read_invalidated {w : ℕ} (hw4 : w < MAX_BW_PER_CMG) (k : ℕ) (s : Kernel) :
    read_assign_sync_wr k w (s.invalidated k w).regs = .ok (0, 0) := by
  have h4 : w < 4 := hw4
  have hrange : ¬((w : ℤ) < 0 ∨ (w : ℤ) ≥ MAX_BW_PER_CMG) := by
    show ¬((w : ℤ) < 0 ∨ (w : ℤ) ≥ 4)
    omega
  have hval : (s.invalidated k w).regs.assign_sync_wr k w = 0 := by
    show Function.update s.regs.assign_sync_wr k _ k w = 0
    rw [Function.update_self, Function.update_self]
  unfold read_assign_sync_wr
  rw [if_neg hrange, Int.toNat_natCast, hval]
  rfl

namespace WindowWrite

variable {b w : ℕ}

/-- Taken and given back, on an allocation that had no window for the CPU, -/
theorem alloc_give_take {a : a64fx_task_allocation} {j : Fin MAX_PE_PER_CMG} {k : ℕ}
    (hwin : a.window j = A64FX_HWB_UNASSIGNED_WIN) (hmask : a.assign_mask.getLsbD k = false) :
    (⟨false, b, w⟩ : WindowWrite).alloc j k ((⟨true, b, w⟩ : WindowWrite).alloc j k a) = a := by
  have hrecorded : Function.update (Function.update a.window j (w : ℤ)) j
      A64FX_HWB_UNASSIGNED_WIN = a.window := by
    rw [Function.update_idem, ← hwin, Function.update_eq_self]
  have hassigned : clearBit (setBit a.assign_mask k) k = a.assign_mask := clearBit_setBit hmask
  show ({ a with
    window := Function.update (Function.update a.window j (w : ℤ)) j A64FX_HWB_UNASSIGNED_WIN
    assign_mask := clearBit (setBit a.assign_mask k) k
    assign_count := a.assign_count + 1 - 1 } : a64fx_task_allocation) = a
  rw [hrecorded, hassigned, add_sub_cancel_right]

/-- on the entry of a PE whose window was free, -/
theorem entry_give_take {p : a64fx_core_mapping} (hfree : p.bw_map.getLsbD w = false) :
    (⟨false, b, w⟩ : WindowWrite).entry ((⟨true, b, w⟩ : WindowWrite).entry p) = p :=
  congrArg (fun m => ({ p with bw_map := m } : a64fx_core_mapping)) (clearBit_setBit hfree)

/-- and on the device. -/
theorem device_give_take (hu : Untaken l ⟨true, b, w⟩ c d) :
    (⟨false, b, w⟩ : WindowWrite).device c ((⟨true, b, w⟩ : WindowWrite).device c d) = d := by
  have hcmg : ∀ y : a64fx_cmg_device,
      (y.pe_map (hw.slot c.cpu)).bw_map.getLsbD w = false →
      (y.with_pe (hw.slot c.cpu) (entry ⟨true, b, w⟩)).with_pe (hw.slot c.cpu)
        (entry ⟨false, b, w⟩) = y := by
    intro y hfree
    unfold a64fx_cmg_device.with_pe
    simp only [Function.update_self, Function.update_idem, entry_give_take hfree,
      Function.update_eq_self]
  have hcmgs : ((d.with_cmg (hw.cmg c.cpu) fun y =>
      y.with_pe (hw.slot c.cpu) (entry ⟨true, b, w⟩)).with_cmg (hw.cmg c.cpu) fun y =>
        y.with_pe (hw.slot c.cpu) (entry ⟨false, b, w⟩)) = d := by
    unfold a64fx_hwb_device.with_cmg
    simp only [Function.update_self, Function.update_idem, hcmg _ hu.vacant.free,
      Function.update_eq_self]
  have hmapping : ∀ m ∈ d.task_list, m.group = c.task.tgid →
      (m.alter ((hw.cmg c.cpu).val, b) (alloc ⟨true, b, w⟩ (hw.slot c.cpu) c.cpu)).alter
        ((hw.cmg c.cpu).val, b) (alloc ⟨false, b, w⟩ (hw.slot c.cpu) c.cpu) = m := by
    intro m hm hg
    unfold a64fx_task_mapping.alter
    rw [Keyed.modify_modify fun a ha => (place_alloc _ _ _ a).trans ha]
    refine congrArg (fun as => ({ m with allocs := as } : a64fx_task_mapping))
      (Keyed.modify_eq_self fun a ha => ?_)
    -- the allocation has no window on the PE, so the CPU is not in its mask
    have hmem : a ∈ m.allocs := Keyed.lookup_mem ha
    obtain ⟨-, hwin⟩ := hu.vacant.idle m hm hg a hmem (Keyed.lookup_key ha)
    have hs := hu.inv.sane _ a ⟨m, hm, rfl, hmem⟩
    refine alloc_give_take hwin (Bool.eq_false_iff.mpr fun hbit => ?_)
    exact ((hs.assign_mask c.cpu).mp hbit).2.2 hwin
  have hlist : Keyed.modify a64fx_task_mapping.group c.task.tgid
      (fun m => m.alter ((hw.cmg c.cpu).val, b) (alloc ⟨false, b, w⟩ (hw.slot c.cpu) c.cpu))
      (Keyed.modify a64fx_task_mapping.group c.task.tgid
        (fun m => m.alter ((hw.cmg c.cpu).val, b) (alloc ⟨true, b, w⟩ (hw.slot c.cpu) c.cpu))
        d.task_list) = d.task_list := by
    rw [Keyed.modify_modify (by intro _ hm; exact hm)]
    exact Keyed.modify_eq_self fun m hm =>
      hmapping m (Keyed.lookup_mem hm) (Keyed.lookup_key hm)
  have hboth := congrArg (fun d' : a64fx_hwb_device => { d' with task_list := d.task_list }) hcmgs
  refine Eq.trans ?_ hboth
  exact congrArg (fun ms => ({ (d.with_cmg (hw.cmg c.cpu) fun y =>
    y.with_pe (hw.slot c.cpu) (entry ⟨true, b, w⟩)).with_cmg (hw.cmg c.cpu) fun y =>
      y.with_pe (hw.slot c.cpu) (entry ⟨false, b, w⟩) with task_list := ms } :
        a64fx_hwb_device)) hlist

/-- The register is the one trace of the two. -/
theorem apply_give_take (hu : Untaken l ⟨true, b, w⟩ c s.dev) :
    (⟨false, b, w⟩ : WindowWrite).apply c ((⟨true, b, w⟩ : WindowWrite).apply c s) =
      s.invalidated c.cpu w := by
  have hdev := device_give_take hu
  have hregs : written ⟨false, b, w⟩ c (written ⟨true, b, w⟩ c s.regs) =
      (s.invalidated c.cpu w).regs := by
    unfold written registers Kernel.invalidated
    simp only [Function.update_self, Function.update_idem, cond_true, cond_false,
      assign_sync_wr_val_zero]
  show (⟨device ⟨false, b, w⟩ c (device ⟨true, b, w⟩ c s.dev),
    written ⟨false, b, w⟩ c (written ⟨true, b, w⟩ c s.regs), s.locks, s.preempt_count⟩ :
      Kernel) = _
  rw [hdev, hregs]
  rfl

/-- A change is that of the caller's group and CPU. -/
theorem apply_of_same (x : WindowWrite) (hgroup : c'.task.tgid = c.task.tgid)
    (hcpu : c'.cpu = c.cpu) (s : Kernel) : x.apply c' s = x.apply c s := by
  unfold apply
  rw [hgroup, hcpu]

end WindowWrite

/-! ## The two requests -/

/-- What a BW_ASSIGN that succeeds has decided. -/
theorem assign_decision_ok {blade : ℕ} {window n : ℤ} {v : View} {z : Option WindowWrite}
    (h : assign_decision l c blade window v = .ok ((0, some n), z)) :
    l.online.getLsbD c.cpu = true ∧ 0 ≤ n ∧ n < MAX_BW_PER_CMG ∧
      v.bw_map.getLsbD n.toNat = false ∧ z = some ⟨true, blade, n.toNat⟩ := by
  unfold assign_decision at h
  by_cases hpin : cpumask_weight c.cpus_mask > 1
  · rw [if_pos hpin] at h
    cases h
  rw [if_neg hpin] at h
  cases hfound : v.found with
  | none =>
      rw [hfound] at h
      cases h
  | some y =>
      obtain ⟨member, recorded⟩ := y
      simp only [hfound] at h
      split_ifs at h with hmember hon
      · rw [Loops.bind_eq_ok] at h
        obtain ⟨chosen, -, h⟩ := h
        cases chosen with
        | none => cases h
        | some n' =>
            simp only at h
            split_ifs at h with hcond
            · cases h
              exact ⟨hon, hcond.1, hcond.2.1, hcond.2.2, rfl⟩
            · cases h
      · cases h

/-- **A BW_ASSIGN that succeeds puts the change on top**, -/
theorem paired_of_assign (h : (driver l R).Reachable s) {a : a64fx_task_allocation}
    (ha : Held s.dev c.task.tgid a) (hmem : a.cpumask.getLsbD c.cpu = true)
    (hnone : a.window (hw.slot c.cpu) = A64FX_HWB_UNASSIGNED_WIN) {window n : ℤ}
    (hassign : oss_a64fx_hwb_assign_blade c a.blade window s = .ok ((0, some n), s₁)) :
    ∃ w < MAX_BW_PER_CMG, n = (w : ℤ) ∧ a.place = (⟨true, a.blade, w⟩ : WindowWrite).place c ∧
      Paired l ⟨true, a.blade, w⟩ c s s₁ := by
  have hs := settled_of_reachable h
  have hsane := hs.inv.sane _ a ha
  rw [assign_blade_decision hs.inv hs.locks] at hassign
  cases hd : assign_decision l c a.blade window (view c a.blade s) with
  | error f =>
      rw [hd] at hassign
      cases hassign
  | ok z =>
      obtain ⟨ret, y⟩ := z
      rw [hd] at hassign
      obtain ⟨hret, hs₁⟩ := Prod.mk.inj (Except.ok.inj hassign)
      simp only at hret hs₁
      subst hret
      obtain ⟨hon, h0, h4, hfree, rfl⟩ := assign_decision_ok hd
      obtain ⟨w, rfl⟩ := Int.eq_ofNat_of_zero_le h0
      rw [Int.toNat_natCast] at hfree hs₁
      have hw4 : w < MAX_BW_PER_CMG := by
        have hlt : (w : ℤ) < 4 := h4
        show w < 4
        omega
      have hc : a.cmg = (hw.cmg c.cpu).val := ((covers_of_run h _ a ha).cmg c.cpu hmem hon).symm
      have hplace : a.place = ((hw.cmg c.cpu).val, a.blade) := by
        rw [a64fx_task_allocation.place, hc]
      have hu : Untaken l ⟨true, a.blade, w⟩ c s.dev := by
        refine ⟨hs.inv, hon, ⟨a, ha, hplace⟩, hfree, fun m hm hg b hb hp => ?_⟩
        obtain rfl : a = b := (hs.inv.unique ha ⟨m, hm, hg, hb⟩ (hplace.trans hp.symm)).2
        exact ⟨hmem, hnone⟩
      obtain ⟨m, hm, hg, ham⟩ := ha
      have htaken := taken_eq_apply hs.inv.lists hm hg ham hc hsane.blade_lt hw4
      have hstep : Micro l c (fun _ => True) s (taken c m c.cpu w a s) :=
        .take_window m a c.cpu w hg ⟨m, hm, rfl, ham⟩ hon hc.symm hmem hw4 hfree (Or.inl hnone)
      rw [htaken] at hstep
      have hs₁' : Settled l s₁ := by
        rw [← hs₁]
        exact ⟨hstep.inv hs.inv, hs.locks, hs.table.trans hstep.sameTable⟩
      exact ⟨w, hw4, rfl, hplace, hs, hs₁', hu, hs₁.symm, hs.inv.table, hu.vacant⟩

/-- **and a BW_UNASSIGN takes it off.** -/
theorem unassign_paired {b w : ℕ} (h : Paired l ⟨true, b, w⟩ c t t₁) (hw4 : w < MAX_BW_PER_CMG)
    (hgroup : c'.task.tgid = c.task.tgid) (hcpu : c'.cpu = c.cpu)
    (hpin : cpumask_weight c'.cpus_mask ≤ 1) :
    oss_a64fx_hwb_unassign_blade c' b t₁ = .ok (0, t.invalidated c.cpu w) := by
  obtain ⟨a, ⟨m, hm, hg, ha⟩, hp⟩ := h.untaken.held
  have hb := (h.settled.inv.sane _ a ⟨m, hm, hg, ha⟩).blade_lt
  have hblade : a.blade = b := congrArg Prod.snd hp
  rw [hblade] at hb
  have hget : get_taskmap t.dev c'.task = some m :=
    h.settled.inv.lists.get_taskmap hm (hg.trans hgroup.symm)
  have hget' := get_taskmap_ahead h.ahead c'.task
  rw [hget, Option.map_some] at hget'
  have hfound : get_allocation (t.dev.cmgs (hw.cmg c.cpu)) m b = some a := by
    rw [← hblade]
    exact get_allocation_of_mem h.settled.inv.table h.settled.inv.lists hm ha
      (congrArg Prod.fst hp)
  rcases get_allocation_ahead h.ahead hm (hw.cmg c.cpu) b with
    ⟨hnone, -⟩ | ⟨a₁, a', hsome, hsome', hal⟩
  · rw [hfound] at hnone
    cases hnone
  rw [hfound] at hsome
  obtain rfl := Option.some.inj hsome
  cases hal with
  | other hne => exact absurd hp (hne hg)
  | own =>
      rw [← hcpu] at hsome'
      have hfinds : FindsBlade c' b t₁ _ _ := ⟨hpin, hget', hsome'⟩
      obtain ⟨hm', hg', ha', hc', hb'⟩ := hfinds.mem h.settled'.inv
      have hon : l.online.getLsbD c'.cpu = true := by
        rw [hcpu]
        exact h.untaken.online
      -- the window is recorded, and its register names the blade
      have hwin : ((⟨true, b, w⟩ : WindowWrite).alloc (hw.slot c'.cpu) c'.cpu a).window
          (hw.slot c'.cpu) = w := Function.update_self _ _ _
      have hname : wr_blade t₁.regs c'.cpu w = b := by
        have hval : t₁.regs.assign_sync_wr c'.cpu w = assign_sync_wr_val 1 b := by
          rw [h.ahead.eq, hcpu]
          show Function.update t.regs.assign_sync_wr c.cpu _ c.cpu w = _
          rw [Function.update_self]
          exact Function.update_self _ _ _
        unfold wr_blade
        rw [hval]
        exact (assign_sync_wr_val_valid hb).2
      rcases unassign_blade_outcome h.settled'.inv h.settled'.locks hfinds hon with
        ⟨w', hgives, heq⟩ | ⟨hno, -⟩
      · have hw' : w' = w := Int.natCast_inj.mp (hgives.recorded.2.2.symm.trans hwin)
        rw [heq, hw', give_back_eq_apply h.settled'.inv.lists hm' hg' ha' hc' hw4,
          WindowWrite.apply_of_same _ hgroup hcpu, Int.natCast_inj.mp hb', h.ahead.eq,
          WindowWrite.apply_give_take h.untaken]
      · refine absurd ⟨⟨hon, hc'.symm, hwin⟩, ?_⟩ (hno w)
        rw [hname, Int.natCast_inj.mp hb']

/-- **Unassign undoes assign**, whatever the other CPUs do in between. Their operations
are those of a run without the pair, with the same replies, and the other way round; and
BW_UNASSIGN leaves what that run leaves, but for the register of the window. -/
theorem unassign_undoes_assign (h : (driver l R).Reachable s) {a : a64fx_task_allocation}
    (ha : Held s.dev c.task.tgid a) (hmem : a.cpumask.getLsbD c.cpu = true)
    (hnone : a.window (hw.slot c.cpu) = A64FX_HWB_UNASSIGNED_WIN) {window w : ℤ}
    (hassign : oss_a64fx_hwb_assign_blade c a.blade window s = .ok ((0, some w), s₁))
    (hgroup : c'.task.tgid = c.task.tgid) (hcpu : c'.cpu = c.cpu)
    (hpin : cpumask_weight c'.cpus_mask ≤ 1) (ys : List (Event hw × Reply)) :
    (∀ t₁, Trace (Beside c.cpu c.task.tgid a.place) s₁ ys t₁ →
      ∃ t, Trace (Beside c.cpu c.task.tgid a.place) s ys t ∧
        oss_a64fx_hwb_unassign_blade c' a.blade t₁ = .ok (0, t.invalidated c.cpu w.toNat) ∧
        read_assign_sync_wr c.cpu w (t.invalidated c.cpu w.toNat).regs = .ok (0, 0)) ∧
    ∀ t, Trace (Beside c.cpu c.task.tgid a.place) s ys t →
      ∃ t₁, Trace (Beside c.cpu c.task.tgid a.place) s₁ ys t₁ ∧
        oss_a64fx_hwb_unassign_blade c' a.blade t₁ = .ok (0, t.invalidated c.cpu w.toNat) := by
  obtain ⟨n, hn4, rfl, hplace, hpaired⟩ := paired_of_assign h ha hmem hnone hassign
  rw [hplace, Int.toNat_natCast]
  constructor
  · intro t₁ hrun
    obtain ⟨t, hrun', hend⟩ := hrun.lockstep (R := fun u v => Paired l ⟨true, a.blade, n⟩ c v u)
      hpaired fun _ _ _ _ hp hstep => hp.step_back hstep
    exact ⟨t, hrun', unassign_paired hend hn4 hgroup hcpu hpin, read_invalidated hn4 c.cpu t⟩
  · intro t hrun
    obtain ⟨t₁, hrun', hend⟩ := hrun.lockstep (R := Paired l ⟨true, a.blade, n⟩ c)
      hpaired fun _ _ _ _ hp hstep => hp.step hstep
    exact ⟨t₁, hrun', unassign_paired hend hn4 hgroup hcpu hpin⟩

/-! ## A run of other CPUs that is computed -/

/-- `e.request ≠ .ioctl .RESET` as a test. -/
def Event.no_reset (e : Event hw) : Bool :=
  match e.request with
  | .ioctl .RESET => false
  | _ => true

/-- What `e` leads to, if it is an operation of another CPU that leaves the allocation. -/
def beside (k g : ℕ) (p : ℕ × ℕ) (s : Kernel) (e : Event hw) : Option Kernel :=
  if !decide (e.call.cpu = k) && e.cmg_in_range && e.no_reset then
    ((handle e s).toOption.map Prod.snd).filter fun s' => s'.dev.outline.any fun o =>
      decide (o.1 = g) && o.2.any fun q => decide (q.1 = p.1) && decide (q.2 = p.2)
  else none

theorem beside_of_test {e : Event hw} (h : beside k g p s e = some s') :
    ∃ reply, Beside k g p s (e, reply) s' := by
  unfold beside at h
  split_ifs at h with htest
  rw [Option.filter_eq_some_iff, Option.map_eq_some_iff] at h
  simp only [Bool.and_eq_true, Bool.not_eq_true', decide_eq_false_iff_not] at htest
  obtain ⟨⟨hcpu, hrange⟩, hreset⟩ := htest
  obtain ⟨⟨⟨reply, u⟩, hok, rfl⟩, hkept⟩ := h
  simp only [List.any_eq_true, Bool.and_eq_true, decide_eq_true_eq] at hkept
  obtain ⟨o, ho, hg, q, hq, h1, h2⟩ := hkept
  obtain rfl : q = p := Prod.ext h1 h2
  refine ⟨reply, hcpu, Event.cmgInRange_of_test hrange, fun he => ?_, ?_,
    (held_iff_outline _ _ _).mpr ⟨o, ho, hg, hq⟩⟩
  · have hreq : e.request = .ioctl .RESET := he
    unfold Event.no_reset at hreset
    rw [hreq] at hreset
    cases hreset
  · cases hh : handle e s with
    | error f =>
        rw [hh] at hok
        cases hok
    | ok z =>
        rw [hh] at hok
        cases hok
        rfl

theorem trace_of_test {es : List (Event hw)} (h : es.foldlM (beside k g p) s = some t) :
    ∃ ys, ys.map Prod.fst = es ∧ Trace (Beside k g p) s ys t := by
  induction es generalizing s with
  | nil =>
      cases h
      exact ⟨[], rfl, .nil _⟩
  | cons e es ih =>
      rw [List.foldlM_cons] at h
      obtain ⟨s', hstep, hrest⟩ := Option.bind_eq_some_iff.mp h
      obtain ⟨reply, hbeside⟩ := beside_of_test hstep
      obtain ⟨ys, hys, hrun⟩ := ih hrest
      refine ⟨(e, reply) :: ys, ?_, .cons hbeside hrun⟩
      rw [List.map_cons, hys]

/-- CPU 1 takes a window for a blade of three CPUs. Meanwhile another process takes a blade
and a window of it and closes its file, CPU 2 leaves the blade, and CPU 0 takes a window. -/
theorem unassign_undoes_assign_quad : ∃ ys s₁ t₁ t,
    ys.map Prod.fst = [Quad.open Quad.other 3, Quad.alloc Quad.other 3 0xC,
      Quad.assign Quad.other 3 1 (-1), Quad.free Quad.second 2 0,
      Quad.assign Quad.first 0 0 (-1), Quad.close Quad.other 3] ∧
    oss_a64fx_hwb_assign_blade (Quad.call Quad.second 1) 0 (-1)
      (after Quad.load [Quad.alloc Quad.first 0 0x7]) = .ok ((0, some 0), s₁) ∧
    Trace (Beside 1 10 (0, 0)) s₁ ys t₁ ∧
    Trace (Beside 1 10 (0, 0)) (after Quad.load [Quad.alloc Quad.first 0 0x7]) ys t ∧
    oss_a64fx_hwb_unassign_blade (Quad.call Quad.first 1) 0 t₁ = .ok (0, t.invalidated 1 0) := by
  have hreach : (driver Quad.load fun _ => True).Reachable
      (after Quad.load [Quad.alloc Quad.first 0 0x7]) :=
    reachable_after trivial (by decide +kernel) (by decide)
  have hlive : ∃ m ∈ (after Quad.load [Quad.alloc Quad.first 0 0x7]).dev.task_list,
      m.group = 10 ∧ ∃ a ∈ m.allocs, a.place = (0, 0) ∧ a.cpumask.getLsbD 1 = true ∧
        a.window (Quad.machine.slot 1) = A64FX_HWB_UNASSIGNED_WIN := by
    decide +kernel
  obtain ⟨m, hm, hg, a, ha, hplace, hmem, hnone⟩ := hlive
  have hblade : a.blade = 0 := congrArg Prod.snd hplace
  have htest : (match oss_a64fx_hwb_assign_blade (Quad.call Quad.second 1) 0 (-1)
      (after Quad.load [Quad.alloc Quad.first 0 0x7]) with
    | .ok (ret, s₁) => decide (ret = (0, some 0)) &&
        (List.foldlM (beside 1 10 (0, 0)) s₁ [Quad.open Quad.other 3, Quad.alloc Quad.other 3 0xC,
          Quad.assign Quad.other 3 1 (-1), Quad.free Quad.second 2 0,
          Quad.assign Quad.first 0 0 (-1), Quad.close Quad.other 3]).isSome
    | .error _ => false) = true := by
    decide +kernel
  cases hassign : oss_a64fx_hwb_assign_blade (Quad.call Quad.second 1) 0 (-1)
      (after Quad.load [Quad.alloc Quad.first 0 0x7]) with
  | error f =>
      rw [hassign] at htest
      cases htest
  | ok z =>
      obtain ⟨ret, s₁⟩ := z
      simp only [hassign, Bool.and_eq_true, decide_eq_true_eq] at htest
      obtain ⟨rfl, hsome⟩ := htest
      obtain ⟨t₁, hfold⟩ := Option.isSome_iff_exists.mp hsome
      obtain ⟨ys, hys, hrun⟩ := trace_of_test hfold
      have hassign' : oss_a64fx_hwb_assign_blade (Quad.call Quad.second 1) a.blade (-1)
          (after Quad.load [Quad.alloc Quad.first 0 0x7]) = .ok ((0, some 0), s₁) := by
        rw [hblade]
        exact hassign
      have hgroup : (Quad.call Quad.first 1).task.tgid = (Quad.call Quad.second 1).task.tgid := rfl
      have hundo := unassign_undoes_assign hreach ⟨m, hm, hg, ha⟩ hmem hnone hassign' hgroup rfl
        (by decide) ys
      rw [hplace, hblade] at hundo
      obtain ⟨t, hrun', hun, -⟩ := hundo.1 t₁ hrun
      exact ⟨ys, s₁, t₁, t, hys, rfl, hrun, hrun', hun⟩

end A64fxHwb
