/-
The windows: exclusive in every run, accounted for in some.

Exclusivity is the window pool of the base invariant, read for the live
allocations. That every window that is taken is also recorded is the coverage of
that pool, which a BW_ASSIGN with an explicit window loses when the blade has a
window on the caller's PE already: the slot is overwritten, and the bit of the
window that was in it stays set. Without such a reassignment the accounting is
exact, and with one it never is.
-/
import A64fxHwb.Ownership

set_option autoImplicit false

namespace A64fxHwb

open BitWord Runs

variable {hw : Machine} {l : Load hw} {d : a64fx_hwb_device} {R : hwb_regs → Prop}
variable {c : Call hw} {ok : Kind → Prop} {s s' : Kernel} {e : Event hw}

instance (l : Load hw) (a : a64fx_task_allocation) (k w : ℕ) : Decidable (Records l a k w) :=
  inferInstanceAs (Decidable (_ ∧ _ ∧ _))

/-! ## Exclusivity -/

/-- The four places a window is stored in agree, and no window is stored for two
blades. The PEs of the table are the CPUs that were online at load. -/
structure WindowExclusivity (l : Load hw) (d : a64fx_hwb_device) : Prop where
  recorded : ∀ a ∈ d.allocs, ∀ k, l.online.getLsbD k = true → (hw.cmg k).val = a.cmg →
    a.window (hw.slot k) = A64FX_HWB_UNASSIGNED_WIN ∨
      ∃ w < MAX_BW_PER_CMG, a.window (hw.slot k) = (w : ℤ) ∧ d.bw (hw.cmg k) (hw.slot k) w = true
  exclusive : d.allocs.Pairwise fun a a' => ∀ k w, Records l a k w → ¬Records l a' k w
  assign_mask : ∀ a ∈ d.allocs, ∀ k, a.assign_mask.getLsbD k = true ↔
    l.online.getLsbD k = true ∧ (hw.cmg k).val = a.cmg ∧
      a.window (hw.slot k) ≠ A64FX_HWB_UNASSIGNED_WIN
  subset : ∀ a ∈ d.allocs, ∀ k, a.assign_mask.getLsbD k = true → a.cpumask.getLsbD k = true
  count : ∀ a ∈ d.allocs, (weight a.assign_mask : ℤ) ≤ a.assign_count
  range : ∀ k w, l.online.getLsbD k = true → MAX_BW_PER_CMG ≤ w →
    d.bw (hw.cmg k) (hw.slot k) w = false

theorem Inv.windowExclusivity (hi : Inv l d) : WindowExclusivity l d where
  recorded a ha k hk hc := by
    obtain ⟨g, ha⟩ := mem_allocs.mp ha
    rcases (hi.sane g a ha).records_or_none hk hc with ⟨w, hw4, hr⟩ | hnone
    · exact Or.inr ⟨w, hw4, hr.2.2, hi.bw_of_records ha hr⟩
    · exact Or.inl hnone
  exclusive := by
    have hne : d.allocs.Pairwise fun a a' => a ≠ a' := hi.nodup_allocs
    refine hne.imp_of_mem ?_
    intro a a' ha ha' hne k w hr hr'
    obtain ⟨g, ha⟩ := mem_allocs.mp ha
    obtain ⟨g', ha'⟩ := mem_allocs.mp ha'
    exact hne (hi.unique_window ha ha' hr hr').2
  assign_mask a ha := by
    obtain ⟨g, ha⟩ := mem_allocs.mp ha
    exact (hi.sane g a ha).assign_mask
  subset a ha := by
    obtain ⟨g, ha⟩ := mem_allocs.mp ha
    exact (hi.sane g a ha).subset
  count a ha := by
    obtain ⟨g, ha⟩ := mem_allocs.mp ha
    exact (hi.sane g a ha).count
  range k w hk h4 := by
    apply Bool.eq_false_iff.mpr
    intro hbit
    exact absurd (hi.window_range k w hk hbit) (not_lt.mpr h4)

/-- **Window exclusivity.** -/
theorem window_exclusivity (h : (driver l R).Reachable s) :
    WindowExclusivity l s.dev :=
  (reachable_inv h).1.windowExclusivity

/-- Two processes get a window of CPU 1, one of them twice. -/
def windows_of_two : List (Event Quad.machine) :=
  [Quad.alloc Quad.first 0 0x3, Quad.alloc Quad.other 1 0x6, Quad.assign Quad.first 1 0 (-1),
    Quad.assign Quad.other 1 1 (-1), Quad.assign Quad.first 1 0 3]

/-- They have windows 1 and 3, for blades 1 and 0. -/
theorem window_exclusivity_two_groups :
    WindowExclusivity Quad.load (after Quad.load windows_of_two).dev ∧
    ((after Quad.load windows_of_two).dev.allocs.map fun a => (a.place, a.window 1)) =
      [((0, 1), 1), ((0, 0), 3)] := by
  refine ⟨window_exclusivity (R := fun _ => True) (reachable_after trivial ?_ ?_), ?_⟩
  · decide +kernel
  · decide
  · decide +kernel

/-! ## The accounting -/

/-- The live allocations that record window `w` of CPU `k`. -/
def a64fx_hwb_device.recorders (l : Load hw) (d : a64fx_hwb_device) (k w : ℕ) :
    List a64fx_task_allocation :=
  d.allocs.filter fun a => decide (Records l a k w)

theorem mem_recorders {k w : ℕ} {a : a64fx_task_allocation} :
    a ∈ d.recorders l k w ↔ (∃ g, Held d g a) ∧ Records l a k w := by
  rw [a64fx_hwb_device.recorders, List.mem_filter, mem_allocs, decide_eq_true_eq]

/-- A recorded window is recorded once. -/
theorem Inv.recorders_of_held (hi : Inv l d) {g : ℕ} {a : a64fx_task_allocation} (ha : Held d g a)
    {k w : ℕ} (hr : Records l a k w) : d.recorders l k w = [a] := by
  have hnodup : (d.recorders l k w).Nodup := hi.nodup_allocs.filter _
  apply List.perm_singleton.mp
  rw [List.perm_ext_iff_of_nodup hnodup (List.nodup_singleton a)]
  intro x
  rw [List.mem_singleton, mem_recorders]
  constructor
  · rintro ⟨⟨g', hx⟩, hr'⟩
    exact (hi.unique_window hx ha hr' hr).2
  · rintro rfl
    exact ⟨⟨g, ha⟩, hr⟩

/-- Every window that is taken is recorded once, and every allocation counts its
windows. -/
structure WindowsAccounted (l : Load hw) (d : a64fx_hwb_device) : Prop where
  accounted : ∀ k w, l.online.getLsbD k = true → d.bw (hw.cmg k) (hw.slot k) w = true →
    (d.recorders l k w).length = 1
  count : ∀ a ∈ d.allocs, a.assign_count = weight a.assign_mask

theorem WindowsAccounted.covered (h : WindowsAccounted l d) : (windows l d).Covered := by
  rintro ⟨k, w⟩ ⟨hk, hbit⟩
  obtain ⟨a, ha⟩ := List.length_pos_iff_exists_mem.mp (by rw [h.accounted k w hk hbit]; decide)
  obtain ⟨⟨g, ha⟩, hr⟩ := mem_recorders.mp ha
  exact ⟨a.place, g, a, ha, rfl, hr⟩

theorem Inv.windowsAccounted (hi : Inv l d) (hcov : (windows l d).Covered)
    (hcount : ∀ g a, Held d g a → a.assign_count = weight a.assign_mask) :
    WindowsAccounted l d where
  accounted k w hk hbit := by
    obtain ⟨p, g, a, ha, -, hr⟩ := hcov (k, w) ⟨hk, hbit⟩
    rw [hi.recorders_of_held ha hr]
    rfl
  count a ha := by
    obtain ⟨g, ha⟩ := mem_allocs.mp ha
    exact hcount g a ha

/-- Without a reassignment every small step keeps the counts. -/
theorem Micro.counts (hi : Inv l s.dev) (h : Micro l c ok s s') (hno : ¬ok .reassign)
    (hcount : ∀ g a, Held s.dev g a → a.assign_count = weight a.assign_mask) (g : ℕ)
    (x : a64fx_task_allocation) (hx : Held s'.dev g x) : x.assign_count = weight x.assign_mask := by
  cases h.held hi hx with
  | kept _ hx => exact hcount g x hx
  | made m cmg b mask hm hg hb hmask =>
      show (0 : ℤ) = weight (0 : cpumask_t)
      rw [weight_zero]
      rfl
  | took a k w hg ha hk hc hmem hw4 hok =>
      -- the slot was free, so the CPU is new in the mask
      have hs := hi.sane g a ha
      have hclear : a.assign_mask.getLsbD k = false := by
        apply Bool.eq_false_iff.mpr
        intro hbit
        exact ((hs.assign_mask k).mp hbit).2.2 (hok.resolve_right hno)
      have hold := hcount g a ha
      have hweight := weight_setBit (BitVec.lt_of_getLsbD hk) hclear
      simp only [a64fx_task_allocation.take, cpumask_set_cpu]
      omega
  | gave a k w hg ha hr =>
      have hold := hcount g a ha
      have hweight := weight_clearBit ((hi.sane g a ha).assigned hr)
      simp only [a64fx_task_allocation.give, cpumask_clear_cpu]
      omega
  | left a hg ha hfree hrest => exact hcount g a ha

/-- The windows after a run without reassignments. -/
theorem windowsAccounted_of_run
    (h : (driver l R).ReachableVia (fun s e => ¬Reassigns e s) s) : WindowsAccounted l s.dev := by
  -- coverage of the pool and the counts are carried along together
  have hboth := run_invariant (P := fun s => (windows l s.dev).Covered ∧
      ∀ g a, Held s.dev g a → a.assign_count = weight a.assign_mask) ?_ ?_ h
  · exact (reachable_inv h.reachable).1.windowsAccounted hboth.1 hboth.2
  · intro regs s _ hload
    rw [hload.spec.1]
    exact ⟨(loaded_windows hload.packed).covered,
      fun g a ha => absurd ha (not_held_loaded hload.packed g a)⟩
  · intro s e hno t t' hi hP hm
    exact ⟨(hm.windows hi).covered hno hP.1, hm.counts hi hno hP.2⟩

/-- After a reassignment the window that was recorded before it is taken and
recorded nowhere. -/
theorem not_windowsAccounted_of_reassigns (h : (driver l R).Reachable s)
    (hstep : (driver l R).step s e s') (hre : Reassigns e s) : ¬WindowsAccounted l s'.dev := by
  obtain ⟨hi, hlock⟩ := reachable_inv h
  obtain ⟨-, reply, hok⟩ := hstep
  obtain ⟨m, hm, a, ha, w, hw4, w₀, hr₀, hbit, rfl⟩ := reassigns_taken hi hlock hok hre
  have hrep := (windows_take hi ⟨m, hm, rfl, ha⟩ hr₀.1 hr₀.2.1 hw4 hbit).2 w₀ hr₀
  -- window `w₀` is lost, and with it the coverage
  intro hacc
  exact (hrep.lost hi.windows_sound hi.windows_exclusive).not_covered hacc.covered

/-- **No window is lost** in a run without reassignments; the first reassignment
loses one. -/
theorem window_accounting :
    (∀ s, (driver l R).ReachableVia (fun s e => ¬Reassigns e s) s → WindowsAccounted l s.dev) ∧
      ∀ s e s', (driver l R).Reachable s → (driver l R).step s e s' → Reassigns e s →
        ¬WindowsAccounted l s'.dev :=
  ⟨fun _ h => windowsAccounted_of_run h,
    fun _ _ _ h hstep hre => not_windowsAccounted_of_reassigns h hstep hre⟩

/-- Thread 10 takes a window, and then window 2 over it. -/
theorem window_accounting_reassign :
    WindowsAccounted Quad.load (after Quad.load
      [Quad.alloc Quad.first 0 0x3, Quad.assign Quad.first 0 0 (-1)]).dev ∧
    ¬WindowsAccounted Quad.load (after Quad.load
      [Quad.alloc Quad.first 0 0x3, Quad.assign Quad.first 0 0 (-1),
        Quad.assign Quad.first 0 0 2]).dev := by
  obtain ⟨hkept, hlost⟩ := window_accounting (l := Quad.load) (R := fun _ => True)
  refine ⟨hkept _ (reachableVia_after trivial ?_ ?_ ?_), hlost (after Quad.load
    [Quad.alloc Quad.first 0 0x3, Quad.assign Quad.first 0 0 (-1)]) (Quad.assign Quad.first 0 0 2) _
    (reachable_after trivial ?_ ?_) (step_after ?_ ?_) ?_⟩
  · decide +kernel
  · decide
  · intro e he s
    exact not_makes_of_plain ((by decide : ∀ e ∈ [Quad.alloc Quad.first 0 0x3,
      Quad.assign Quad.first 0 0 (-1)], e.plain = true) e he) s .reassign (by decide)
  · decide +kernel
  · decide
  · decide +kernel
  · decide
  · refine ⟨_, _, (get_taskmap _ _).get ?_, (get_allocation _ _ _).get ?_, rfl, rfl, ?_,
      (Option.some_get _).symm, (Option.some_get _).symm, ?_, ?_, ?_, 2, ?_, ?_, ?_⟩
    all_goals decide +kernel

/-- The window that was overwritten is taken and recorded nowhere. -/
theorem window_lost :
    (driver Quad.load fun _ => True).Reachable (after Quad.load
      [Quad.open Quad.first 0, Quad.alloc Quad.first 0 0x3, Quad.assign Quad.first 0 0 (-1),
        Quad.assign Quad.first 0 0 2]) ∧
    ¬WindowsAccounted Quad.load (after Quad.load
      [Quad.open Quad.first 0, Quad.alloc Quad.first 0 0x3, Quad.assign Quad.first 0 0 (-1),
        Quad.assign Quad.first 0 0 2]).dev := by
  refine ⟨reachable_after trivial (by decide +kernel) (by decide), fun hacc => ?_⟩
  have hone := hacc.accounted 0 0 (by decide) (by decide +kernel)
  revert hone
  decide +kernel

end A64fxHwb
