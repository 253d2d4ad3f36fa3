/-
What a group gives back when it is unregistered.

`GaveBack` compares two states by what is missing from the second: a set of blades and
a set of windows, with the registers of these windows invalid on the CPUs that could be
reached. It composes (`GaveBack.trans`), so the loop over one `assign_mask` and the loop
over the allocations of a mapping each add up what their iterations give back. All that
is asked of the state is what the two ownership invariants say of it (`BladeOwnership`,
`WindowExclusivity`); it need not be reached by a run.

A window register belongs to its CPU and is written there, so the register of a CPU that
is offline during the call keeps its value. The driver has no code for CPUs that go.
-/
import A64fxHwb.Windows

set_option autoImplicit false

namespace A64fxHwb

open BitWord Runs

variable {hw : Machine} {l : Load hw} {c : Call hw} {d : a64fx_hwb_device} {s t u : Kernel}
variable {m : a64fx_task_mapping} {a : a64fx_task_allocation} {cmg : Fin MAX_NUM_CMG}

/-! ## What is missing -/

/-- The state `t` is `s` without the blades `B` and the windows `W`. The registers of the
windows are invalid on the CPUs `on`. The lists are left open. -/
structure GaveBack (hw : Machine) (on : ℕ → Prop) (B : Fin MAX_NUM_CMG → ℕ → Prop)
    (W : ℕ → ℕ → Prop) (s t : Kernel) : Prop where
  bb : ∀ i b, t.dev.bb i b = true ↔ s.dev.bb i b = true ∧ ¬B i b
  bw : ∀ i j w, t.dev.bw i j w = true ↔
    s.dev.bw i j w = true ∧ ¬∃ k, hw.cmg k = i ∧ hw.slot k = j ∧ W k w
  written : ∀ k w, W k w → on k → t.regs.assign_sync_wr k w = assign_sync_wr_val 0 0
  kept : ∀ k w, ¬(W k w ∧ on k) → t.regs.assign_sync_wr k w = s.regs.assign_sync_wr k w
  cmgs : ∀ i, t.dev.cmgs i = { s.dev.cmgs i with
    bb_active := (t.dev.cmgs i).bb_active
    pe_map := fun j => { (s.dev.cmgs i).pe_map j with
      bw_map := ((t.dev.cmgs i).pe_map j).bw_map } }
  dev : t.dev = { s.dev with
    cmgs := t.dev.cmgs, task_list := t.dev.task_list, num_tasks := t.dev.num_tasks }
  regs : t.regs = { s.regs with assign_sync_wr := t.regs.assign_sync_wr }
  locks : t.locks = s.locks
  preempt_count : t.preempt_count = s.preempt_count

namespace GaveBack

variable {on : ℕ → Prop} {B B' : Fin MAX_NUM_CMG → ℕ → Prop} {W W' : ℕ → ℕ → Prop}

/-- Nothing is missing when only the lists change. -/
theorem of_lists (hw : Machine) (on : ℕ → Prop) (s : Kernel) (L : List a64fx_task_mapping)
    (n : ℤ) : GaveBack hw on (fun _ _ => False) (fun _ _ => False) s
      { s with dev := { s.dev with task_list := L, num_tasks := n } } where
  bb _ _ := (and_iff_left not_false).symm
  bw _ _ _ := (and_iff_left fun ⟨_, _, _, h⟩ => h).symm
  written _ _ h := h.elim
  kept _ _ _ := rfl
  cmgs _ := rfl
  dev := rfl
  regs := rfl
  locks := rfl
  preempt_count := rfl

/-- **What is given back adds up.** -/
theorem trans (h : GaveBack hw on B W s t) (h' : GaveBack hw on B' W' t u) :
    GaveBack hw on (fun i b => B i b ∨ B' i b) (fun k w => W k w ∨ W' k w) s u where
  bb i b := by rw [h'.bb, h.bb, not_or, and_assoc]
  bw i j w := by
    rw [h'.bw, h.bw, and_assoc, ← not_or]
    refine and_congr_right fun _ => not_congr ⟨?_, ?_⟩
    · rintro (⟨k, hc, hs, hW⟩ | ⟨k, hc, hs, hW⟩)
      · exact ⟨k, hc, hs, Or.inl hW⟩
      · exact ⟨k, hc, hs, Or.inr hW⟩
    · rintro ⟨k, hc, hs, hW | hW⟩
      · exact Or.inl ⟨k, hc, hs, hW⟩
      · exact Or.inr ⟨k, hc, hs, hW⟩
  written k w hW hon := by
    by_cases hW' : W' k w
    · exact h'.written k w hW' hon
    · -- the second step leaves the register alone, which the first has written
      rw [h'.kept k w fun hk => hW' hk.1]
      exact h.written k w (hW.resolve_right hW') hon
  kept k w hno := by
    rw [h'.kept k w fun hk => hno ⟨Or.inr hk.1, hk.2⟩]
    exact h.kept k w fun hk => hno ⟨Or.inl hk.1, hk.2⟩
  cmgs i := by
    have hcmgs := h'.cmgs i
    rw [h.cmgs i] at hcmgs
    exact hcmgs
  dev := by
    have hdev := h'.dev
    rw [h.dev] at hdev
    exact hdev
  regs := by
    have hregs := h'.regs
    rw [h.regs] at hregs
    exact hregs
  locks := h'.locks.trans h.locks
  preempt_count := h'.preempt_count.trans h.preempt_count

theorem congr (h : GaveBack hw on B W s t) (hB : ∀ i b, B' i b ↔ B i b)
    (hW : ∀ k w, W' k w ↔ W k w) : GaveBack hw on B' W' s t := by
  have hBB : B' = B := funext fun i => funext fun b => propext (hB i b)
  have hWW : W' = W := funext fun k => funext fun w => propext (hW k w)
  rw [hBB, hWW]
  exact h

/-- The core table is not what is given back. -/
theorem sameTable (h : GaveBack hw on B W s t) : SameTable s.dev t.dev where
  num_cmgs := by rw [h.dev]
  num_bb := by rw [h.dev]
  cmg i := by
    rw [h.cmgs i]
    exact ⟨rfl, rfl, rfl⟩
  pe i j := by
    rw [h.cmgs i]
    exact ⟨rfl, rfl, rfl⟩

end GaveBack

/-! ## One window and one blade -/

theorem set_wr_offline {k : ℕ} (hk : c.online.getLsbD k = false) (window valid blade : ℤ)
    (s : Kernel) : set_wr c k window valid blade s = s := by
  have hoff : ¬(0 ≤ (k : ℤ) ∧ c.online.getLsbD (k : ℤ).toNat = true) := by
    rintro ⟨-, hon⟩
    rw [Int.toNat_natCast, hk] at hon
    exact Bool.noConfusion hon
  unfold set_wr smp_call_function_single
  rw [if_neg hoff]

/-- The registers after one iteration of the walk over an `assign_mask`. -/
theorem give_back_regs (c : Call hw) (tm : a64fx_task_mapping) (k : ℕ) {w : ℕ}
    (hw4 : w < MAX_BW_PER_CMG) (a : a64fx_task_allocation) (s : Kernel) :
    (give_back c tm k w a s).regs =
      if c.online.getLsbD k = true then
        { s.regs with
          assign_sync_wr := Function.update s.regs.assign_sync_wr k
            (Function.update (s.regs.assign_sync_wr k) w (assign_sync_wr_val 0 0)) }
      else s.regs := by
  show (set_wr c k w 0 0 s).regs = _
  cases hon : c.online.getLsbD k with
  | false =>
      rw [set_wr_offline hon]
      rfl
  | true =>
      have hset := set_wr_eq (b := 0) hon hw4 (by decide) 0 s
      rw [show ((0 : ℕ) : ℤ) = 0 from rfl] at hset
      rw [hset]
      rfl

/-- One iteration of the walk over an `assign_mask` gives back one window. -/
theorem gaveBack_window (c : Call hw) (tm : a64fx_task_mapping) (k : ℕ) {w : ℕ}
    (hw4 : w < MAX_BW_PER_CMG) (a : a64fx_task_allocation) (s : Kernel) :
    GaveBack hw (fun k => c.online.getLsbD k = true) (fun _ _ => False)
      (fun k' w' => k' = k ∧ w' = w) s (give_back c tm k w a s) where
  bb i b := by
    have hbb : (give_back c tm k w a s).dev.bb i b = s.dev.bb i b := bb_give_window _ _ _ _ _
    rw [hbb]
    exact (and_iff_left not_false).symm
  bw i j w' := by
    refine (bw_give_window _ _ _ _ _ _).trans (and_congr_right fun _ => not_congr ⟨?_, ?_⟩)
    · rintro ⟨rfl, rfl, rfl⟩
      exact ⟨k, rfl, rfl, rfl, rfl⟩
    · rintro ⟨k', rfl, rfl, rfl, rfl⟩
      exact ⟨rfl, rfl, rfl⟩
  written k' w' hW hon := by
    obtain ⟨rfl, rfl⟩ := hW
    rw [give_back_regs c tm k' hw4 a s, if_pos hon]
    simp only [Function.update_self]
  kept k' w' hno := by
    rw [give_back_regs c tm k hw4 a s]
    by_cases hon : c.online.getLsbD k = true
    swap
    · rw [if_neg hon]
    rw [if_pos hon]
    by_cases hk : k' = k
    · subst hk
      have hne : w' ≠ w := fun hww => hno ⟨⟨rfl, hww⟩, hon⟩
      simp only [Function.update_self, Function.update_of_ne hne]
    · simp only [Function.update_of_ne hk]
  cmgs i := by
    have hcmgs : (give_back c tm k w a s).dev.cmgs = Function.update s.dev.cmgs (hw.cmg k)
        ((s.dev.cmgs (hw.cmg k)).with_pe (hw.slot k) fun p =>
          { p with bw_map := clearBit p.bw_map w }) := rfl
    rw [hcmgs]
    by_cases hi : i = hw.cmg k
    · subst hi
      rw [Function.update_self]
      unfold a64fx_cmg_device.with_pe
      -- the entries of the other slots are what they were
      have hmap : ∀ (f : Fin MAX_PE_PER_CMG → a64fx_core_mapping) (p : BitVec 64),
          Function.update f (hw.slot k) { f (hw.slot k) with bw_map := p } = fun j =>
            { f j with bw_map := (Function.update f (hw.slot k)
              { f (hw.slot k) with bw_map := p } j).bw_map } := by
        intro f p
        funext j
        by_cases hj : j = hw.slot k
        · subst hj
          rw [Function.update_self]
        · rw [Function.update_of_ne hj]
      exact congrArg (fun pe_map => { s.dev.cmgs (hw.cmg k) with pe_map := pe_map }) (hmap _ _)
    · rw [Function.update_of_ne hi]
  dev := rfl
  regs := by
    rw [give_back_regs c tm k hw4 a s]
    by_cases hon : c.online.getLsbD k = true
    · rw [if_pos hon]
    · rw [if_neg hon]
  locks := rfl
  preempt_count := rfl

/-- Unlinking an allocation gives back its blade. -/
theorem gaveBack_blade (hw : Machine) (on : ℕ → Prop) (tm : a64fx_task_mapping)
    (cmg : Fin MAX_NUM_CMG) (a : a64fx_task_allocation) (s : Kernel) :
    GaveBack hw on (fun i b => i = cmg ∧ b = a.blade) (fun _ _ => False) s
      { s with dev := s.dev.drop_alloc tm cmg a } where
  bb i b := bb_drop_alloc i b
  bw i j w := by
    have hbw : (s.dev.drop_alloc tm cmg a).bw i j w = s.dev.bw i j w := bw_drop_alloc _ _ _
    rw [hbw]
    exact (and_iff_left fun ⟨_, _, _, h⟩ => h).symm
  written _ _ h := h.elim
  kept _ _ _ := rfl
  cmgs i := by
    have hcmgs : (s.dev.drop_alloc tm cmg a).cmgs = Function.update s.dev.cmgs cmg
        { s.dev.cmgs cmg with bb_active := clearBit (s.dev.cmgs cmg).bb_active a.blade } := rfl
    rw [hcmgs]
    by_cases hi : i = cmg
    · subst hi
      rw [Function.update_self]
    · rw [Function.update_of_ne hi]
  dev := rfl
  regs := rfl
  locks := rfl
  preempt_count := rfl

/-! ## One allocation -/

/-- What window exclusivity says of an allocation by itself. -/
structure Recording (l : Load hw) (a : a64fx_task_allocation) : Prop where
  window : ∀ k, l.online.getLsbD k = true → (hw.cmg k).val = a.cmg →
    a.window (hw.slot k) = A64FX_HWB_UNASSIGNED_WIN ∨
      ∃ w < MAX_BW_PER_CMG, a.window (hw.slot k) = (w : ℤ)
  assign_mask : ∀ k, a.assign_mask.getLsbD k = true ↔
    l.online.getLsbD k = true ∧ (hw.cmg k).val = a.cmg ∧
      a.window (hw.slot k) ≠ A64FX_HWB_UNASSIGNED_WIN
  count : (weight a.assign_mask : ℤ) ≤ a.assign_count

theorem WindowExclusivity.recording (h : WindowExclusivity l d) (ha : a ∈ d.allocs) :
    Recording l a where
  window k hk hc := by
    rcases h.recorded a ha k hk hc with hnone | ⟨w, hw4, hw', -⟩
    · exact Or.inl hnone
    · exact Or.inr ⟨w, hw4, hw'⟩
  assign_mask := h.assign_mask a ha
  count := h.count a ha

theorem Recording.recorded (h : Recording l a) {k : ℕ} (hk : a.assign_mask.getLsbD k = true) :
    ∃ w < MAX_BW_PER_CMG, Records l a k w := by
  obtain ⟨hon, hc, hne⟩ := (h.assign_mask k).mp hk
  obtain ⟨w, hw4, hw'⟩ := (h.window k hon hc).resolve_left hne
  exact ⟨w, hw4, hon, hc, hw'⟩

theorem Recording.assigned (h : Recording l a) {k w : ℕ} (hr : Records l a k w) :
    a.assign_mask.getLsbD k = true := by
  refine (h.assign_mask k).mpr ⟨hr.1, hr.2.1, ?_⟩
  rw [hr.2.2]
  show (w : ℤ) ≠ -1
  omega

/-- A CPU of the table that is not in the mask has no window. -/
theorem Recording.unassigned (h : Recording l a) {k : ℕ} (hon : l.online.getLsbD k = true)
    (hc : (hw.cmg k).val = a.cmg) (hk : ¬a.assign_mask.getLsbD k = true) :
    a.window (hw.slot k) = A64FX_HWB_UNASSIGNED_WIN := by
  by_contra hne
  exact hk ((h.assign_mask k).mpr ⟨hon, hc, hne⟩)

/-- The allocation `a` is the one the mapping `tm` points to has for its place. -/
def Found (d : a64fx_hwb_device) (tm : a64fx_task_mapping) (a : a64fx_task_allocation) : Prop :=
  ∀ m, Keyed.lookup a64fx_task_mapping.group tm.group d.task_list = some m →
    Keyed.lookup a64fx_task_allocation.place a.place m.allocs = some a

/-- Storing it as it is changes nothing. -/
theorem store_alloc_self {tm : a64fx_task_mapping} (h : Found d tm a) :
    (d.store_alloc tm a).task_list = d.task_list := by
  refine Keyed.modify_eq_self fun m hm => ?_
  have hallocs : Keyed.modify a64fx_task_allocation.place a.place (fun _ => a) m.allocs =
      m.allocs := by
    refine Keyed.modify_eq_self fun x hx => ?_
    rw [h m hm] at hx
    exact Option.some.inj hx
  show ({ m with allocs := Keyed.modify _ _ _ m.allocs } : a64fx_task_mapping) = m
  rw [hallocs]

/-- Of two values stored for one place the last one stays. -/
theorem store_alloc_again {d' : a64fx_hwb_device} {tm : a64fx_task_mapping}
    {a' : a64fx_task_allocation} (h : d'.task_list = (d.store_alloc tm a).task_list)
    (hp : a'.place = a.place) :
    (d'.store_alloc tm a').task_list = (d.store_alloc tm a').task_list := by
  unfold a64fx_hwb_device.store_alloc a64fx_hwb_device.with_taskmap at h ⊢
  simp only at h ⊢
  rw [h]
  refine (Keyed.modify_modify (by intro _ hx; exact hx) _ _).trans ?_
  refine Keyed.modify_congr fun m _ => ?_
  rw [hp, Keyed.modify_modify (f := fun _ => a) (fun _ _ => rfl)]

/-- What the walk of `free_allocation` over the mask of `a` has done when it comes to
CPU `i`. -/
structure Walked (l : Load hw) (c : Call hw) (tm : a64fx_task_mapping) (a : a64fx_task_allocation)
    (s : Kernel) (i : ℕ) (x : FreeLoop) : Prop where
  gave : GaveBack hw (fun k => c.online.getLsbD k = true) (fun _ _ => False)
    (fun k w => Records l a k w ∧ k < i) s x.kernel
  stored : x.kernel.dev.task_list = (s.dev.store_alloc tm x.alloc).task_list
  num_tasks : x.kernel.dev.num_tasks = s.dev.num_tasks
  place : x.alloc.place = a.place
  assign_mask : ∀ k, x.alloc.assign_mask.getLsbD k = true ↔
    a.assign_mask.getLsbD k = true ∧ i ≤ k
  window : ∀ k, l.online.getLsbD k = true → (hw.cmg k).val = a.cmg →
    x.alloc.window (hw.slot k) =
      if k < i then A64FX_HWB_UNASSIGNED_WIN else a.window (hw.slot k)

theorem Walked.start (l : Load hw) (c : Call hw) {tm : a64fx_task_mapping}
    (h : Found s.dev tm a) (pe : Option (Fin MAX_PE_PER_CMG)) :
    Walked l c tm a s 0 { kernel := s, alloc := a, pemap := pe } where
  gave := (GaveBack.of_lists hw _ s s.dev.task_list s.dev.num_tasks).congr (fun _ _ => Iff.rfl)
    fun k _ => ⟨fun hk => absurd hk.2 (Nat.not_lt_zero k), fun h => h.elim⟩
  stored := (store_alloc_self h).symm
  num_tasks := rfl
  place := rfl
  assign_mask k := (and_iff_left (Nat.zero_le k)).symm
  window k _ _ := (if_neg (Nat.not_lt_zero k)).symm

/-- At a CPU with a window, which is given back. -/
theorem Walked.visit {tm : a64fx_task_mapping} {i w : ℕ} {x : FreeLoop} (hr : Records l a i w)
    (hw4 : w < MAX_BW_PER_CMG) (h : Walked l c tm a s i x) :
    Walked l c tm a s (i + 1)
      { kernel := give_back c tm i w x.alloc x.kernel
        alloc := x.alloc.give (hw.slot i) i
        pemap := some (hw.slot i) } where
  gave := by
    refine (h.gave.trans (gaveBack_window c tm i hw4 x.alloc x.kernel)).congr
      (fun _ _ => (or_self_iff).symm) fun k w' => ⟨?_, ?_⟩
    · rintro ⟨hrk, hlt⟩
      rcases Nat.lt_succ_iff_lt_or_eq.mp hlt with hlt | rfl
      · exact Or.inl ⟨hrk, hlt⟩
      · exact Or.inr ⟨rfl, hrk.unique hr⟩
    · rintro (⟨hrk, hlt⟩ | ⟨rfl, rfl⟩)
      · exact ⟨hrk, Nat.lt_succ_of_lt hlt⟩
      · exact ⟨hr, Nat.lt_succ_self k⟩
  stored := store_alloc_again h.stored (x.alloc.place_give (hw.slot i) i)
  num_tasks := h.num_tasks
  place := (x.alloc.place_give (hw.slot i) i).trans h.place
  assign_mask k := by
    simp only [a64fx_task_allocation.give, getLsbD_clearBit, Bool.and_eq_true, Bool.not_eq_true',
      decide_eq_false_iff_not, h.assign_mask, and_assoc]
    exact and_congr_right fun _ => by omega
  window k hk hck := by
    have hcc : hw.cmg k = hw.cmg i := Fin.ext (hck.trans hr.2.1.symm)
    simp only [a64fx_task_allocation.give, update_slot hr.1 hk hcc]
    by_cases hki : k = i
    · rw [if_pos hki, if_pos (by omega)]
    · rw [if_neg hki, h.window k hk hck]
      by_cases hlt : k < i
      · rw [if_pos hlt, if_pos (by omega)]
      · rw [if_neg hlt, if_neg (by omega)]

/-- At a CPU that has none. -/
theorem Walked.skip {tm : a64fx_task_mapping} {i : ℕ} {x : FreeLoop} (hrec : Recording l a)
    (hno : ¬a.assign_mask.getLsbD i = true) (h : Walked l c tm a s i x) :
    Walked l c tm a s (i + 1) x where
  gave := by
    refine h.gave.congr (fun _ _ => Iff.rfl) fun k w => ⟨?_, ?_⟩
    · rintro ⟨hrk, hlt⟩
      rcases Nat.lt_succ_iff_lt_or_eq.mp hlt with hlt | rfl
      · exact ⟨hrk, hlt⟩
      · exact absurd (hrec.assigned hrk) hno
    · exact fun ⟨hrk, hlt⟩ => ⟨hrk, Nat.lt_succ_of_lt hlt⟩
  stored := h.stored
  num_tasks := h.num_tasks
  place := h.place
  assign_mask k := by
    rw [h.assign_mask k]
    refine and_congr_right fun hk => ⟨fun hle => ?_, fun hlt => by omega⟩
    rcases Nat.lt_or_eq_of_le hle with hlt | rfl
    · exact hlt
    · exact absurd hk hno
  window k hk hck := by
    rw [h.window k hk hck]
    by_cases hlt : k < i
    · rw [if_pos hlt, if_pos (by omega)]
    · rw [if_neg hlt]
      by_cases hki : k = i
      · subst hki
        rw [if_pos (by omega)]
        exact hrec.unassigned hk hck hno
      · rw [if_neg (by omega)]

/-- One iteration. -/
theorem Walked.step {tm : a64fx_task_mapping} {i : ℕ} {x : FreeLoop} (ht : Table l s.dev)
    (hrec : Recording l a) (hc : a.cmg = cmg.val) (h : Walked l c tm a s i x) :
    ∃ x', (if cpumask_test_cpu i x.alloc.assign_mask then free_allocation_cpu c cmg tm x i
        else pure x) = .ok x' ∧ Walked l c tm a s (i + 1) x' := by
  by_cases hbit : x.alloc.assign_mask.getLsbD i = true
  · obtain ⟨w, hw4, hr⟩ := hrec.recorded ((h.assign_mask i).mp hbit).1
    have hcmg : hw.cmg i = cmg := Fin.ext (hr.2.1.trans hc)
    subst hcmg
    -- the walk has not come to the CPU yet, so the window is recorded still
    have hrx : Records l x.alloc i w := by
      refine ⟨hr.1, ((congrArg Prod.fst h.place).trans hc).symm, ?_⟩
      rw [h.window i hr.1 hr.2.1, if_neg (Nat.lt_irrefl i)]
      exact hr.2.2
    refine ⟨_, ?_, h.visit hr hw4⟩
    rw [if_pos hbit]
    exact free_allocation_cpu_ok (h.gave.sameTable.table ht) hrx hw4 x.pemap
  · refine ⟨x, ?_, h.skip hrec fun hk => hbit ((h.assign_mask i).mpr ⟨hk, Nat.le_refl i⟩)⟩
    rw [if_neg hbit]
    rfl

/-- The loop of `free_allocation`, with the test of the count in front of it. -/
def free_allocation_walk (c : Call hw) (cmg : Fin MAX_NUM_CMG) (tm : a64fx_task_mapping)
    (a : a64fx_task_allocation) (s : Kernel) : Except Fault FreeLoop :=
  if a.assign_count > 0 then
    free_allocation_loop c cmg tm { kernel := s, alloc := a, pemap := none }
  else .ok { kernel := s, alloc := a, pemap := none }

/-- **The walk comes to its end.** -/
theorem free_allocation_walk_ok {tm : a64fx_task_mapping} (ht : Table l s.dev)
    (hrec : Recording l a) (hc : a.cmg = cmg.val) (hf : Found s.dev tm a) :
    ∃ x, free_allocation_walk c cmg tm a s = .ok x ∧ Walked l c tm a s nr_cpu_ids x := by
  unfold free_allocation_walk
  by_cases hcount : a.assign_count > 0
  · rw [if_pos hcount]
    exact Loops.foldlM_range (Walked l c tm a s) _ nr_cpu_ids _ (Walked.start l c hf none)
      fun _ _ _ h => h.step ht hrec hc
  · rw [if_neg hcount]
    -- the count is at least the number of CPUs in the mask
    have hweight := hrec.count
    have h0 : a.assign_mask = 0 := (weight_eq_zero_iff _).mp (by omega)
    have hno : ∀ k, ¬a.assign_mask.getLsbD k = true := fun k => by
      rw [h0]
      simp
    have hstart := Walked.start l c hf none
    refine ⟨_, rfl, hstart.gave.congr (fun _ _ => Iff.rfl) fun k w => ?_, hstart.stored, rfl, rfl,
      fun k => ?_, fun k hk hck => ?_⟩
    · exact ⟨fun hr => absurd (hrec.assigned hr.1) (hno k),
        fun hr => absurd (hrec.assigned hr.1) (hno k)⟩
    · exact ⟨fun hk => absurd hk (hno k), fun hk => absurd hk.1 (hno k)⟩
    · rw [if_pos (BitVec.lt_of_getLsbD hk)]
      exact hrec.unassigned hk hck (hno k)

/-- Seen from the end, every window of the allocation has been given back. -/
theorem Walked.windows_gone {tm : a64fx_task_mapping} {x : FreeLoop}
    (h : Walked l c tm a s nr_cpu_ids x) :
    GaveBack hw (fun k => c.online.getLsbD k = true) (fun _ _ => False) (Records l a) s
      x.kernel :=
  h.gave.congr (fun _ _ => Iff.rfl) fun _ _ =>
    ⟨fun hr => ⟨hr, BitVec.lt_of_getLsbD hr.1⟩, fun hr => hr.1⟩

/-- **`free_allocation` gives back the blade and its windows.** -/
theorem free_allocation_gives_back {tm : a64fx_task_mapping} (ht : Table l s.dev)
    (hrec : Recording l a) (hc : a.cmg = cmg.val) (hb : a.blade < MAX_BB_PER_CMG)
    (hbit : s.dev.bb cmg a.blade = true) (hf : Found s.dev tm a) :
    ∃ t, free_allocation c cmg tm a s = .ok t ∧
      GaveBack hw (fun k => c.online.getLsbD k = true) (fun i b => i = cmg ∧ b = a.blade)
        (Records l a) s t ∧
      t.dev.task_list = Keyed.modify a64fx_task_mapping.group tm.group
        (a64fx_task_mapping.drop a.place) s.dev.task_list ∧
      t.dev.num_tasks = s.dev.num_tasks := by
  obtain ⟨x, hwalk, hx⟩ : ∃ x, free_allocation_walk c cmg tm a s = .ok x ∧
      Walked l c tm a s nr_cpu_ids x := free_allocation_walk_ok ht hrec hc hf
  have hb64 : a.blade < 64 := lt_trans hb (by decide)
  refine ⟨_, free_allocation_eq hb64 hbit hwalk, ?_, ?_, hx.num_tasks⟩
  · refine (hx.windows_gone.trans (gaveBack_blade hw _ tm cmg a x.kernel)).congr ?_ ?_
    · exact fun _ _ => by rw [false_or]
    · exact fun _ _ => by rw [or_false]
  · -- the entry the walk has stored is the one that is unlinked
    show Keyed.modify a64fx_task_mapping.group tm.group (a64fx_task_mapping.drop a.place)
      x.kernel.dev.task_list = _
    rw [hx.stored]
    refine (Keyed.modify_modify (by intro _ hm; exact hm) _ _).trans ?_
    refine Keyed.modify_congr fun m _ => ?_
    rw [hx.place]
    exact drop_absorbs a.place m x.alloc hx.place

/-! ## One mapping -/

/-- The blades of the allocations `as`. -/
def blades_of (as : List a64fx_task_allocation) (i : Fin MAX_NUM_CMG) (b : ℕ) : Prop :=
  ∃ a ∈ as, a.cmg = i.val ∧ a.blade = b

/-- The windows they record. -/
def windows_of (l : Load hw) (as : List a64fx_task_allocation) (k w : ℕ) : Prop :=
  ∃ a ∈ as, Records l a k w

/-- What the two ownership invariants say of a mapping whose allocations are on CMGs. -/
structure Owning (l : Load hw) (d : a64fx_hwb_device) (m : a64fx_task_mapping) : Prop where
  table : Table l d
  found : Keyed.lookup a64fx_task_mapping.group m.group d.task_list = some m
  num_allocs : m.num_allocs = m.allocs.length
  places : (m.allocs.map a64fx_task_allocation.place).Nodup
  recording : ∀ a ∈ m.allocs, Recording l a
  blade : ∀ a ∈ m.allocs, ∃ cmg : Fin MAX_NUM_CMG, a.cmg = cmg.val ∧
    a.blade < MAX_BB_PER_CMG ∧ d.bb cmg a.blade = true

/-- A blade that is allocated is marked as taken. -/
theorem BladeOwnership.taken (h : BladeOwnership d) (hm : m ∈ d.task_list) (ha : a ∈ m.allocs)
    (hc : a.cmg = cmg.val) : a.blade < MAX_BB_PER_CMG ∧ d.bb cmg a.blade = true := by
  have hmem : a ∈ d.allocs_of cmg a.blade := mem_allocs_of.mpr ⟨⟨m.group, m, hm, rfl, ha⟩, hc, rfl⟩
  have hbit : d.bb cmg a.blade = true := by
    by_contra hno
    rw [h.free cmg a.blade (Bool.not_eq_true _ ▸ hno)] at hmem
    cases hmem
  refine ⟨?_, hbit⟩
  by_contra hge
  rw [h.range cmg a.blade (not_lt.mp hge)] at hbit
  exact Bool.noConfusion hbit

/-- A mapping has one allocation for each place at most. -/
theorem BladeOwnership.places (h : BladeOwnership d) (hm : m ∈ d.task_list)
    (hcmg : ∀ a ∈ m.allocs, a.cmg < MAX_NUM_CMG) :
    (m.allocs.map a64fx_task_allocation.place).Nodup := by
  refine List.pairwise_map.mpr (List.pairwise_iff_forall_sublist.mpr fun {a a'} hsub hplace => ?_)
  have ha : a ∈ m.allocs := hsub.subset List.mem_cons_self
  have hc' : a'.cmg = a.cmg := (congrArg Prod.fst hplace).symm
  have hb' : a'.blade = a.blade := (congrArg Prod.snd hplace).symm
  -- both would be for one blade of one CMG
  have hall : [a, a'].Sublist d.allocs :=
    hsub.trans (List.sublist_flatten_of_mem (List.mem_map_of_mem hm))
  have htwo := (hall.filter fun x => decide (x.cmg = a.cmg ∧ x.blade = a.blade)).length_le
  have htaken : d.bb ⟨a.cmg, hcmg a ha⟩ a.blade = true := (h.taken hm ha rfl).2
  have hone := (h.owner ⟨a.cmg, hcmg a ha⟩ a.blade).mp htaken
  have hone' : (d.allocs.filter fun x => decide (x.cmg = a.cmg ∧ x.blade = a.blade)).length = 1 :=
    hone
  rw [hone'] at htwo
  simp [hc', hb'] at htwo

/-- **The invariants make a mapping of every entry of the list what the walk needs.** -/
theorem owning (ht : Table l d) (hb : BladeOwnership d) (hw : WindowExclusivity l d)
    (hm : m ∈ d.task_list) (hcmg : ∀ a ∈ m.allocs, a.cmg < MAX_NUM_CMG) : Owning l d m where
  table := ht
  found := Keyed.lookup_of_mem (List.pairwise_map.mpr hb.groups) hm
  num_allocs := hb.num_allocs m hm
  places := hb.places hm hcmg
  recording _ ha := hw.recording (mem_allocs.mpr ⟨m.group, m, hm, rfl, ha⟩)
  blade a ha := ⟨⟨a.cmg, hcmg a ha⟩, rfl, hb.taken hm ha rfl⟩

/-- What the loop of `unregister_task` has done when the allocations `rest` are left. -/
structure Unlinking (l : Load hw) (c : Call hw) (m : a64fx_task_mapping) (s : Kernel)
    (rest : List a64fx_task_allocation) (t : Kernel) : Prop where
  gave : ∃ gone, m.allocs = gone ++ rest ∧
    GaveBack hw (fun k => c.online.getLsbD k = true) (blades_of gone) (windows_of l gone) s t
  mapping : ∃ m', Keyed.lookup a64fx_task_mapping.group m.group t.dev.task_list = some m' ∧
    m'.allocs = rest
  erased : Keyed.erase a64fx_task_mapping.group m.group t.dev.task_list =
    Keyed.erase a64fx_task_mapping.group m.group s.dev.task_list
  num_tasks : t.dev.num_tasks = s.dev.num_tasks

theorem Unlinking.start (c : Call hw) (h : Owning l s.dev m) :
    Unlinking l c m s m.allocs s where
  gave := by
    refine ⟨[], rfl, (GaveBack.of_lists hw _ s s.dev.task_list s.dev.num_tasks).congr ?_ ?_⟩
    · exact fun _ _ => ⟨fun ⟨_, ha, _⟩ => absurd ha List.not_mem_nil, fun h => h.elim⟩
    · exact fun _ _ => ⟨fun ⟨_, ha, _⟩ => absurd ha List.not_mem_nil, fun h => h.elim⟩
  mapping := ⟨m, h.found, rfl⟩
  erased := rfl
  num_tasks := rfl

/-- The allocation the loop comes to next is still all there. -/
theorem Unlinking.next {rest : List a64fx_task_allocation} (ho : Owning l s.dev m)
    (h : Unlinking l c m s (a :: rest) t) : Table l t.dev ∧ Recording l a ∧ Found t.dev m a ∧
      ∃ cmg : Fin MAX_NUM_CMG, a.cmg = cmg.val ∧ a.blade < MAX_BB_PER_CMG ∧
        t.dev.bb cmg a.blade = true := by
  obtain ⟨gone, hall, hgave⟩ := h.gave
  have ha : a ∈ m.allocs := by
    rw [hall]
    exact List.mem_append_right _ List.mem_cons_self
  obtain ⟨cmg, hc, hb, hbit⟩ := ho.blade a ha
  refine ⟨hgave.sameTable.table ho.table, ho.recording a ha, fun m' hm' => ?_, cmg, hc, hb,
    (hgave.bb cmg a.blade).mpr ⟨hbit, ?_⟩⟩
  · obtain ⟨m'', hfind, hallocs⟩ := h.mapping
    rw [Option.some.inj (hm'.symm.trans hfind), hallocs]
    exact Keyed.lookup_cons_self rfl
  · -- none of the allocations that are gone was for the same blade
    rintro ⟨a', ha', hc', hb'⟩
    have hplaces := ho.places
    rw [hall, List.map_append, List.map_cons] at hplaces
    refine List.disjoint_of_nodup_append hplaces (List.mem_map_of_mem ha') ?_
    have hplace : a'.place = a.place := Prod.ext (hc'.trans hc.symm) hb'
    rw [hplace]
    exact List.mem_cons_self

/-- One iteration. -/
theorem Unlinking.step {rest : List a64fx_task_allocation} (ho : Owning l s.dev m)
    (h : Unlinking l c m s (a :: rest) t) :
    ∃ t', (do let cmg ← cmgs_ptr a.cmg; free_allocation c cmg m a t) = .ok t' ∧
      Unlinking l c m s rest t' := by
  obtain ⟨ht, hrec, hf, cmg, hc, hb, hbit⟩ := h.next ho
  obtain ⟨t', hfree, hgave', hlist, hnum⟩ :=
    free_allocation_gives_back (c := c) ht hrec hc hb hbit hf
  have hptr : cmgs_ptr a.cmg = .ok cmg := by
    rw [hc]
    exact cmgs_ptr_ok cmg
  refine ⟨t', ?_, ?_, ?_, ?_, hnum.trans h.num_tasks⟩
  · rw [hptr]
    exact hfree
  · obtain ⟨gone, hall, hgave⟩ := h.gave
    refine ⟨gone ++ [a], by rw [hall, List.append_assoc]; rfl,
      (hgave.trans hgave').congr (fun i b => ?_) fun k w => ?_⟩
    · unfold blades_of
      simp only [List.mem_append, List.mem_singleton, or_and_right, exists_or, exists_eq_left]
      refine or_congr_right ⟨?_, ?_⟩
      · rintro ⟨hi, rfl⟩
        exact ⟨Fin.ext (hi.symm.trans hc), rfl⟩
      · rintro ⟨rfl, rfl⟩
        exact ⟨hc, rfl⟩
    · unfold windows_of
      simp only [List.mem_append, List.mem_singleton, or_and_right, exists_or, exists_eq_left]
  · obtain ⟨m', hfind, hallocs⟩ := h.mapping
    refine ⟨m'.drop a.place, ?_, ?_⟩
    · rw [hlist, Keyed.lookup_modify_self (by intro _ hm; exact hm), hfind]
      rfl
    · show Keyed.erase a64fx_task_allocation.place a.place m'.allocs = rest
      rw [hallocs, Keyed.erase_cons_self rfl]
  · rw [hlist, Keyed.erase_modify (by intro _ hm; exact hm)]
    exact h.erased

/-! ## The group -/

/-- When `unregister_task` comes to the allocation `a`, after those before it, the walk of
`free_allocation` ends with an empty mask and no recorded window in the stored entry. -/
def EndsEmpty (l : Load hw) (c : Call hw) (m : a64fx_task_mapping) (s : Kernel)
    (before : List a64fx_task_allocation) (a : a64fx_task_allocation) : Prop :=
  ∃ t cmg x, before.foldlM (fun s alloc => do
      let cmg ← cmgs_ptr alloc.cmg
      free_allocation c cmg m alloc s) s = .ok t ∧
    cmgs_ptr a.cmg = .ok cmg ∧ free_allocation_walk c cmg m a t = .ok x ∧
    x.alloc.place = a.place ∧ Held x.kernel.dev m.group x.alloc ∧ x.alloc.assign_mask = 0 ∧
    ∀ k, l.online.getLsbD k = true → (hw.cmg k).val = a.cmg →
      x.alloc.window (hw.slot k) = A64FX_HWB_UNASSIGNED_WIN

/-- The mapping `m` is gone from the list, which counts one less, and what its allocations
recorded has been given back. -/
structure GroupGone (l : Load hw) (on : ℕ → Prop) (m : a64fx_task_mapping) (s t : Kernel) :
    Prop where
  unlinked : t.dev.task_list = Keyed.erase a64fx_task_mapping.group m.group s.dev.task_list
  others : ∀ m', m' ∈ t.dev.task_list ↔ m' ∈ s.dev.task_list ∧ m' ≠ m
  num_tasks : t.dev.num_tasks + 1 = s.dev.num_tasks
  gave : GaveBack hw on (blades_of m.allocs) (windows_of l m.allocs) s t

/-- Every walk of `unregister_task` ends empty, and the group is gone afterwards, with the
registers of its windows invalid on the CPUs `on`. -/
structure ReleasesGroup (l : Load hw) (on : ℕ → Prop) (c : Call hw) (m : a64fx_task_mapping)
    (s : Kernel) : Prop where
  walks : ∀ before a behind, m.allocs = before ++ a :: behind → EndsEmpty l c m s before a
  gone : ∃ t, unregister_task c m s = .ok t ∧ GroupGone l on m s t

/-- The walk of one allocation, in the state the ones before it have left. -/
theorem endsEmpty_of_owning (c : Call hw) (ho : Owning l s.dev m)
    {before behind : List a64fx_task_allocation} (hall : m.allocs = before ++ a :: behind) :
    EndsEmpty l c m s before a := by
  have hstart := Unlinking.start c ho
  rw [hall] at hstart
  obtain ⟨t, hfold, ht⟩ := Loops.foldlM_list
    (fun rest t => Unlinking l c m s (rest ++ a :: behind) t)
    (fun s alloc => do let cmg ← cmgs_ptr alloc.cmg; free_allocation c cmg m alloc s) before s
    hstart fun _ _ _ h => h.step ho
  obtain ⟨htable, hrec, hf, cmg, hc, -, -⟩ := ht.next ho
  obtain ⟨x, hwalk, hx⟩ : ∃ x, free_allocation_walk c cmg m a t = .ok x ∧
      Walked l c m a t nr_cpu_ids x := free_allocation_walk_ok htable hrec hc hf
  refine ⟨t, cmg, x, hfold, by rw [hc]; exact cmgs_ptr_ok cmg, hwalk, hx.place, ?_, ?_,
    fun k hk hck => ?_⟩
  · -- the list has the entry the walk has stored
    obtain ⟨m', hfind, hallocs⟩ := ht.mapping
    have hstored : Keyed.lookup a64fx_task_mapping.group m.group x.kernel.dev.task_list =
        some { m' with allocs := x.alloc :: behind } := by
      rw [hx.stored]
      refine (Keyed.lookup_modify_self (by intro _ hm; exact hm) _).trans ?_
      rw [hfind, Option.map_some, hallocs, List.nil_append, Keyed.modify, if_pos hx.place.symm]
    exact ⟨_, Keyed.lookup_mem hstored, Keyed.lookup_key hstored, List.mem_cons_self⟩
  · refine (eq_zero_iff _).mpr fun k => Bool.eq_false_iff.mpr fun hk => ?_
    have hle := ((hx.assign_mask k).mp hk).2
    have hlt := BitVec.lt_of_getLsbD hk
    omega
  · rw [hx.window k hk hck, if_pos (BitVec.lt_of_getLsbD hk)]

/-- **Unregistering a group gives back everything it recorded and nothing else**, in every
state in which the blades are owned and the windows exclusive. The registers are those of
the CPUs online during the call. -/
theorem unregister_gives_back (ht : Table l s.dev) (hb : BladeOwnership s.dev)
    (hwin : WindowExclusivity l s.dev) (hm : m ∈ s.dev.task_list)
    (hcmg : ∀ a ∈ m.allocs, a.cmg < MAX_NUM_CMG) (c : Call hw) :
    ReleasesGroup l (fun k => c.online.getLsbD k = true) c m s := by
  have ho := owning ht hb hwin hm hcmg
  have hgroups : (s.dev.task_list.map a64fx_task_mapping.group).Nodup :=
    List.pairwise_map.mpr hb.groups
  have hothers : ∀ m', m' ∈ Keyed.erase a64fx_task_mapping.group m.group s.dev.task_list ↔
      m' ∈ s.dev.task_list ∧ m' ≠ m := by
    intro m'
    rw [Keyed.mem_erase hgroups]
    refine and_congr_right fun hm' => not_congr ⟨fun hg => ?_, fun h => by rw [h]⟩
    exact Keyed.eq_of_key hgroups hm' hm hg
  refine ⟨fun before a behind hall => endsEmpty_of_owning c ho hall, ?_⟩
  obtain ⟨t, hfold, hunl⟩ := Loops.foldlM_list (Unlinking l c m s)
    (fun s alloc => do let cmg ← cmgs_ptr alloc.cmg; free_allocation c cmg m alloc s) m.allocs s
    (Unlinking.start c ho) fun _ _ _ h => h.step ho
  obtain ⟨gone, hall, hgave⟩ := hunl.gave
  rw [List.append_nil] at hall
  rw [← hall] at hgave
  have hlists := GaveBack.of_lists hw (fun k => c.online.getLsbD k = true) t
    (Keyed.erase a64fx_task_mapping.group m.group t.dev.task_list) (t.dev.num_tasks - 1)
  refine ⟨{ t with dev := { t.dev with
    task_list := Keyed.erase a64fx_task_mapping.group m.group t.dev.task_list
    num_tasks := t.dev.num_tasks - 1 } }, ?_, hunl.erased, fun m' => ?_, ?_, ?_⟩
  · unfold unregister_task
    by_cases hpos : m.num_allocs > 0
    · rw [if_pos hpos, hfold]
      rfl
    · -- the loop that is left out would have had nothing to do
      have hnum := ho.num_allocs
      have hnil : m.allocs = [] := List.length_eq_zero_iff.mp (by omega)
      rw [hnil] at hfold
      cases hfold
      rw [if_neg hpos]
      rfl
  · show m' ∈ Keyed.erase a64fx_task_mapping.group m.group t.dev.task_list ↔ _
    rw [hunl.erased]
    exact hothers m'
  · show t.dev.num_tasks - 1 + 1 = s.dev.num_tasks
    rw [hunl.num_tasks]
    omega
  · exact (hgave.trans hlists).congr (fun _ _ => by rw [or_false]) fun _ _ => by rw [or_false]

/-- A thread with two blades, with a window of each on CPU 1, and a thread of another group
with a window there too. -/
def three_windows : List (Event Quad.machine) :=
  [Quad.alloc Quad.first 0 0x3, Quad.alloc Quad.first 0 0x7, Quad.alloc Quad.other 1 0x6,
    Quad.assign Quad.first 1 0 0xFF, Quad.assign Quad.first 1 1 0xFF,
    Quad.assign Quad.other 1 2 0xFF]

theorem unregister_gives_back_quad : ∃ m ∈ (after Quad.load three_windows).dev.task_list,
    m.allocs.length = 2 ∧ ReleasesGroup Quad.load (fun k => (0xF : cpumask_t).getLsbD k = true)
      (Quad.call Quad.first 0) m (after Quad.load three_windows) := by
  have hreach : (driver Quad.load fun _ => True).Reachable (after Quad.load three_windows) :=
    reachable_after trivial (by decide +kernel) (by decide)
  have hi := (reachable_inv hreach).1
  obtain ⟨m, hm, htwo⟩ : ∃ m ∈ (after Quad.load three_windows).dev.task_list,
      m.allocs.length = 2 := by
    decide +kernel
  refine ⟨m, hm, htwo, ?_⟩
  exact unregister_gives_back hi.table hi.bladeOwnership hi.windowExclusivity hm
    (fun a ha => (hi.sane m.group a ⟨m, hm, rfl, ha⟩).cmg_lt) (Quad.call Quad.first 0)

/-- The same close while CPU 1 is offline. -/
def offline_call : Call Quad.machine where
  task := Quad.first
  cpus_mask := 0x1
  cpu := 0
  online := 0xD
  any := lowest
  kmalloc_taskmap := true
  kmalloc_alloc := true
  beyond := none
  cpu_online := by decide
  online_present := by
    have h : ∀ k : Fin 64, (0xD : cpumask_t).getLsbD k = true →
        (0xF : cpumask_t).getLsbD k = true := by decide
    exact fun k hk => h ⟨k, BitVec.lt_of_getLsbD hk⟩ hk
  any_mem := fun _ h => getLsbD_lowest h

/-- The register of an offline CPU keeps the blade that is gone. -/
theorem offline_register_kept :
    ∃ m ∈ (after Quad.load three_windows).dev.task_list,
      Table Quad.load (after Quad.load three_windows).dev ∧
      BladeOwnership (after Quad.load three_windows).dev ∧
      WindowExclusivity Quad.load (after Quad.load three_windows).dev ∧
      (∀ a ∈ m.allocs, a.cmg < MAX_NUM_CMG) ∧
      ¬ReleasesGroup Quad.load (fun _ => True) offline_call m (after Quad.load three_windows) := by
  have hreach : (driver Quad.load fun _ => True).Reachable (after Quad.load three_windows) :=
    reachable_after trivial (by decide +kernel) (by decide)
  have hi := (reachable_inv hreach).1
  obtain ⟨m, hm, a, ha, hr, hkept⟩ : ∃ m ∈ (after Quad.load three_windows).dev.task_list,
      ∃ a ∈ m.allocs, Records Quad.load a 1 0 ∧
        (match unregister_task offline_call m (after Quad.load three_windows) with
        | .ok t => wr_valid t.regs 1 0
        | .error _ => true) = true := by
    decide +kernel
  refine ⟨m, hm, hi.table, hi.bladeOwnership, hi.windowExclusivity,
    fun a ha => (hi.sane m.group a ⟨m, hm, rfl, ha⟩).cmg_lt, fun hrel => ?_⟩
  obtain ⟨t, hok, hgone⟩ := hrel.gone
  rw [hok] at hkept
  have hzero := hgone.gave.written 1 0 ⟨a, ha, hr⟩ trivial
  have hvalid : wr_valid t.regs 1 0 = true := hkept
  unfold wr_valid at hvalid
  rw [hzero] at hvalid
  exact absurd hvalid (by decide)

end A64fxHwb
