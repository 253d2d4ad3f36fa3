/-
What one group's calls leave alone.

Every small step but a reset concerns the caller's group only, so the mapping of
another group, the bits of its windows and the registers of its blades are out of
reach of a call: two groups never share a blade or a window. The window registers
are out of reach too, with one exception: a BB_FREE that clears register 0 in
place of the register of the recorded window clears another group's register
when that group has window 0 of the CPU.
-/
import A64fxHwb.Blades

set_option autoImplicit false

namespace A64fxHwb

open BitWord Runs

variable {hw : Machine} {l : Load hw} {c : Call hw} {ok : Kind → Prop} {R : hwb_regs → Prop}
variable {d d' : a64fx_hwb_device} {s s' t : Kernel} {e : Event hw} {g : ℕ}

/-! ## The frame -/

/-- The mapping of group `g`, the bits of the windows it has and the registers of
the blades it holds are as before. -/
structure Kept (l : Load hw) (g : ℕ) (s s' : Kernel) : Prop where
  mapping : Keyed.lookup a64fx_task_mapping.group g s'.dev.task_list =
    Keyed.lookup a64fx_task_mapping.group g s.dev.task_list
  bw_map : ∀ a, Held s.dev g a → ∀ k w, Records l a k w →
    s'.dev.bw (hw.cmg k) (hw.slot k) w = s.dev.bw (hw.cmg k) (hw.slot k) w
  blade : ∀ a, Held s.dev g a → ∀ cmg : Fin MAX_NUM_CMG, cmg.val = a.cmg →
    s'.regs.init_sync_bb cmg a.blade = s.regs.init_sync_bb cmg a.blade

/-- So are the registers of the windows it has. -/
structure Untouched (l : Load hw) (g : ℕ) (s s' : Kernel) : Prop extends Kept l g s s' where
  window : ∀ a, Held s.dev g a → ∀ k w, Records l a k w →
    s'.regs.assign_sync_wr k w = s.regs.assign_sync_wr k w

theorem held_iff_lookup (hl : Lists d) (a : a64fx_task_allocation) :
    Held d g a ↔ ∃ m, Keyed.lookup a64fx_task_mapping.group g d.task_list = some m ∧
      a ∈ m.allocs := by
  constructor
  · rintro ⟨m, hm, rfl, ha⟩
    exact ⟨m, Keyed.lookup_of_mem hl.groups hm, ha⟩
  · rintro ⟨m, hlook, ha⟩
    exact ⟨m, Keyed.lookup_mem hlook, Keyed.lookup_key hlook, ha⟩

/-- A group with the same mapping holds the same. -/
theorem held_of_mapping (hl : Lists d) (hl' : Lists d')
    (h : Keyed.lookup a64fx_task_mapping.group g d'.task_list =
      Keyed.lookup a64fx_task_mapping.group g d.task_list) (a : a64fx_task_allocation) :
    Held d' g a ↔ Held d g a := by
  rw [held_iff_lookup hl', held_iff_lookup hl, h]

theorem Kept.refl (l : Load hw) (g : ℕ) (s : Kernel) : Kept l g s s :=
  ⟨rfl, fun _ _ _ _ _ => rfl, fun _ _ _ _ => rfl⟩

theorem Kept.trans (hi : Inv l s.dev) (hit : Inv l t.dev) (h : Kept l g s t) (h' : Kept l g t s') :
    Kept l g s s' := by
  have hheld := held_of_mapping hi.lists hit.lists h.mapping
  refine ⟨h'.mapping.trans h.mapping, fun a ha k w hr => ?_, fun a ha cmg hc => ?_⟩
  · rw [h'.bw_map a ((hheld a).mpr ha) k w hr, h.bw_map a ha k w hr]
  · rw [h'.blade a ((hheld a).mpr ha) cmg hc, h.blade a ha cmg hc]

/-! ## A small step -/

/-- The mapping of another group is out of reach. -/
theorem Micro.mapping (h : Micro l c ok s s') (hno : ¬ok .reset) (hne : g ≠ c.task.tgid) :
    Keyed.lookup a64fx_task_mapping.group g s'.dev.task_list =
      Keyed.lookup a64fx_task_mapping.group g s.dev.task_list := by
  cases h with
  | locks L n => rfl
  | count n => rfl
  | map_group hnew => exact Keyed.lookup_cons_of_ne hne.symm
  | unmap_group m hm hg hempty => exact Keyed.lookup_erase_of_ne (hg ▸ hne) _
  | take_blade m cmg b mask hm hg => exact lookup_with_taskmap_of_ne (by intro _; rfl) (hg ▸ hne)
  | give_blade tm cmg a hg => exact lookup_with_taskmap_of_ne (by intro _; rfl) (hg ▸ hne)
  | take_window tm a k w hg => exact lookup_with_taskmap_of_ne (by intro _; rfl) (hg ▸ hne)
  | give_window tm a k w wr wb hg => exact lookup_with_taskmap_of_ne (by intro _; rfl) (hg ▸ hne)
  | leave_blade tm cmg a hg => exact lookup_with_taskmap_of_ne (by intro _; rfl) (hg ▸ hne)
  | reset hreset => exact absurd hreset hno

/-- **A small step keeps what the other groups have.** -/
theorem Micro.kept (hi : Inv l s.dev) (h : Micro l c ok s s') (hno : ¬ok .reset)
    (hne : g ≠ c.task.tgid) : Kept l g s s' := by
  have hi' := h.inv hi
  have hmap := h.mapping hno hne
  refine ⟨hmap, fun a ha k w hr => ?_, fun a ha cmg hc => ?_⟩
  · -- the group still records the window, so the bit is still set
    have ha' := (held_of_mapping hi.lists hi'.lists hmap a).mpr ha
    rw [hi'.bw_of_records ha' hr, hi.bw_of_records ha hr]
  · rcases h.init_sync_bb hi cmg a.blade with hregs | ⟨-, hfree | ⟨x, hx, hxc, hxb⟩⟩
    · exact hregs
    · rw [hi.bb_of_held ha hc.symm] at hfree
      exact Bool.noConfusion hfree
    · -- a blade of the caller's group is not one of another group
      exact absurd (hi.unique ha hx (Prod.ext (hc.symm.trans hxc.symm) hxb.symm)).1 hne

/-- A write to one window register leaves the others alone. -/
theorem set_wr_of_ne (k w : ℕ) (valid blade : ℤ) (s : Kernel) {r : ℕ × ℕ} (hne : r ≠ (k, w)) :
    (set_wr c k w valid blade s).regs.assign_sync_wr r.1 r.2 = s.regs.assign_sync_wr r.1 r.2 := by
  unfold set_wr smp_call_function_single write_assign_sync_wr
  split_ifs
  · rfl
  · simp only [Int.toNat_natCast]
    exact update_wr_of_ne hne
  · rfl

/-- **A small step that is not misdirected keeps the window registers of the other
groups.** -/
theorem Micro.window (hi : Inv l s.dev) (h : Micro l c ok s s') (hno : ¬ok .reset)
    (hmis : ¬ok .misdirected) (hne : g ≠ c.task.tgid) {a : a64fx_task_allocation}
    (ha : Held s.dev g a) {k w : ℕ} (hr : Records l a k w) :
    s'.regs.assign_sync_wr k w = s.regs.assign_sync_wr k w := by
  have htaken : (A64fxHwb.windows l s.dev).taken (k, w) :=
    hi.windows_sound a.place (k, w) ⟨g, a, ha, rfl, hr⟩
  cases h.window_step hi with
  | same m hregs => rw [hregs]
  | acquires g' x k' w' hg hx hk hc hw4 m hregs =>
      -- the window that is taken was free, so it is not the group's
      rw [hregs]
      refine set_wr_of_ne (r := (k, w)) k' w' 1 x.blade s fun heq => m.1 ?_
      rw [← heq]
      exact htaken
  | replaces hok x k' w₀ w' m hregs =>
      rw [hregs]
      refine set_wr_of_ne (r := (k, w)) k' w' 1 x.blade s fun heq => m.1 ?_
      rw [← heq]
      exact htaken
  | releases g' x k' w' wr hg hx hxr hok m hregs =>
      -- the register is the one of a window of the caller's group
      have hww : wr = w' := hok.resolve_right fun h' => hmis h'.2
      subst hww
      rw [hregs]
      refine set_wr_of_ne (r := (k, w)) k' wr 0 0 s fun heq => hne ?_
      have hkw : k = k' ∧ w = wr := Prod.ext_iff.mp heq
      rw [← hkw.1, ← hkw.2] at hxr
      exact (hi.unique_window ha hx hr hxr).1.trans hg
  | empties _ m hregs =>
      -- the group would still record the window
      have ha' := (held_of_mapping hi.lists (h.inv hi).lists (h.mapping hno hne) a).mpr ha
      exact absurd ⟨g, a, ha', rfl, hr⟩ (m.2 a.place (k, w))

/-! ## An event -/

/-- Everything but the window registers, whatever the call. -/
theorem kept_of_step (h : (driver l R).Reachable s)
    (hstep : (driver l R).step s e s') (hreset : e.request ≠ .ioctl .RESET)
    (hne : g ≠ e.call.task.tgid) : Kept l g s s' := by
  have hi := (reachable_inv h).1
  refine preserves_of_step (P := Kept l g s) h hstep ?_ (Kept.refl l g s)
  intro t t' hit hkept hm
  exact hkept.trans hi hit (hm.kept hit hreset hne)

/-- The window registers, when the call is not misdirected. -/
theorem window_of_step (h : (driver l R).Reachable s)
    (hstep : (driver l R).step s e s') (hreset : e.request ≠ .ioctl .RESET)
    (hmis : ¬Misdirects e s) (hne : g ≠ e.call.task.tgid) {a : a64fx_task_allocation}
    (ha : Held s.dev g a) {k w : ℕ} (hr : Records l a k w) :
    s'.regs.assign_sync_wr k w = s.regs.assign_sync_wr k w := by
  have hboth := preserves_of_step (P := fun t => Held t.dev g a ∧
      t.regs.assign_sync_wr k w = s.regs.assign_sync_wr k w) h hstep ?_ ⟨ha, rfl⟩
  · exact hboth.2
  · rintro t t' hit ⟨hat, hwr⟩ hm
    have hheld := held_of_mapping hit.lists (hm.inv hit).lists (hm.mapping hreset hne) a
    refine ⟨hheld.mpr hat, ?_⟩
    rw [hm.window hit hreset hmis hne hat hr, hwr]

/-- The call is misdirected, to a register that is in use: another group has window
0 of the caller's CPU. -/
def ClearsForeign (l : Load hw) (e : Event hw) (s : Kernel) : Prop :=
  Misdirects e s ∧ s.regs.assign_sync_wr e.call.cpu 0 ≠ 0 ∧
    ∃ g a, g ≠ e.call.task.tgid ∧ Held s.dev g a ∧ Records l a e.call.cpu 0

/-- **Isolation.** A call other than a reset leaves all other groups untouched
exactly when it does not clear a register of one of them. -/
theorem isolation_iff (h : (driver l R).Reachable s)
    (hstep : (driver l R).step s e s') (hreset : e.request ≠ .ioctl .RESET) :
    (∀ g, g ≠ e.call.task.tgid → Untouched l g s s') ↔ ¬ClearsForeign l e s := by
  obtain ⟨hi, hlock⟩ := reachable_inv h
  by_cases hmis : Misdirects e s
  · -- exactly register 0 of the caller's CPU is cleared
    obtain ⟨m, cmg, x, hfrees, hpid, hassign, hwin⟩ := id hmis
    obtain ⟨reply, hok⟩ := hstep.2
    have hwr := (freesBlade_other hi hlock hfrees hpid hok).cleared hassign
    rw [assign_sync_wr_val_zero] at hwr
    constructor
    · rintro hall ⟨-, hreg, g, a, hne, ha, hr⟩
      have hsame := (hall g hne).window a ha e.call.cpu 0 hr
      rw [hwr, Function.update_self, Function.update_self] at hsame
      exact hreg hsame.symm
    · intro hclear g hne
      refine ⟨kept_of_step h hstep hreset hne, fun a ha k w hr => ?_⟩
      rw [hwr]
      by_cases hkw : (k, w) = (e.call.cpu, 0)
      · -- the register was zero before, since the call clears no foreign one
        obtain ⟨rfl, rfl⟩ := Prod.ext_iff.mp hkw
        rw [Function.update_self, Function.update_self]
        by_contra hreg
        exact hclear ⟨hmis, fun h0 => hreg h0.symm, g, a, hne, ha, hr⟩
      · exact update_wr_of_ne hkw
  · constructor
    · exact fun _ hclear => hmis hclear.1
    · intro _ g hne
      exact ⟨kept_of_step h hstep hreset hne,
        fun a ha k w hr => window_of_step h hstep hreset hmis hne ha hr⟩

/-- Both groups have a window on CPU 1: group 20 window 0, group 10 window 1. -/
def shared_cpu : List (Event Quad.machine) :=
  [Quad.open Quad.first 0, Quad.open Quad.other 0, Quad.alloc Quad.first 0 0x7,
    Quad.alloc Quad.other 0 0x7, Quad.assign Quad.other 1 1 (-1), Quad.assign Quad.first 1 0 (-1)]

/-- The owner's BB_FREE on that CPU leaves group 20 untouched. -/
theorem isolation_shared_cpu : Untouched Quad.load 20 (after Quad.load shared_cpu)
    (after Quad.load (shared_cpu ++ [Quad.free Quad.first 1 0])) := by
  refine (isolation_iff (R := fun _ => True) (e := Quad.free Quad.first 1 0)
    (reachable_after trivial ?_ ?_) (step_after ?_ ?_) ?_).mpr ?_ 20 (by decide)
  · decide +kernel
  · decide
  · decide +kernel
  · decide
  · intro he
    cases he
  · -- the caller is the task of the group's mapping
    rintro ⟨⟨m, cmg, a, hfrees, hpid, -⟩, -⟩
    obtain ⟨arg, ioc, -, -, -, hget, -⟩ := hfrees
    have hown : ∀ m ∈ (after Quad.load shared_cpu).dev.task_list, m.group = 10 →
        m.task.pid = 10 := by decide +kernel
    obtain ⟨hm, hg⟩ := mem_of_get_taskmap hget
    exact hpid (hown m hm hg).symm

/-- The second thread's BB_FREE there clears the register of group 20's window. -/
theorem foreign_window_cleared :
    (driver Quad.load fun _ => True).Reachable (after Quad.load shared_cpu) ∧
    (driver Quad.load fun _ => True).step (after Quad.load shared_cpu)
      (Quad.free Quad.second 1 0) (after Quad.load (shared_cpu ++ [Quad.free Quad.second 1 0])) ∧
    ¬Untouched Quad.load 20 (after Quad.load shared_cpu)
      (after Quad.load (shared_cpu ++ [Quad.free Quad.second 1 0])) := by
  refine ⟨reachable_after trivial ?_ ?_, step_after ?_ ?_, fun hall => ?_⟩
  · decide +kernel
  · decide
  · decide +kernel
  · decide
  · -- the blade of group 20 records window 0 of CPU 1
    have hsome : ∃ m ∈ (after Quad.load shared_cpu).dev.task_list, m.group = 20 ∧
        ∃ a ∈ m.allocs, Records Quad.load a 1 0 := by decide +kernel
    obtain ⟨m, hm, hg, a, ha, hr⟩ := hsome
    have hsame := hall.window a ⟨m, hm, hg, ha⟩ 1 0 hr
    revert hsame
    decide +kernel

end A64fxHwb
