/-
What a successful module load leaves.

`oss_a64fx_hwb_init` clears the tables, lets every online CPU fill in its own
entry, counts the entries of each CMG, and initialises the CMGs one by one. When
the PEs of each CMG fill the slots from 0 up (`Packed`), the count and the
filled slots agree, and the result is a `Table` (`loaded_table`). With a gap
they do not agree, and `init_cmgmask` takes the -1 of an empty slot for a CPU
number, which C leaves undefined: a load that succeeds has found the PEs packed
(`Loaded.packed`). The rest of the state is empty: no tasks, no blades, no
windows, and the window and blade registers as they were found.
-/
import A64fxHwb.Table

set_option autoImplicit false

namespace A64fxHwb

open BitWord

variable {hw : Machine}

/-! ## Filling the table -/

/-- The entry a CPU fills in. -/
def filled_core_mapping (hw : Machine) (p : a64fx_core_mapping) (cpu : ℕ) : a64fx_core_mapping :=
  { p with cpu_id := cpu, cmg_id := (hw.cmg cpu).val, ppe_id := hw.ppe cpu, bw_map := 0 }

/-- `fill_pe_map` as a plain update. -/
def fill (hw : Machine) (d : a64fx_hwb_device) (cpu : ℕ) : a64fx_hwb_device :=
  d.with_cmg (hw.cmg cpu) fun c => c.with_pe (hw.slot cpu) fun p => filled_core_mapping hw p cpu

theorem pe_map_ptr_ppe {k : ℕ} (hk : hw.present.getLsbD k = true) :
    pe_map_ptr (hw.ppe k) = .ok (hw.slot k) := by
  have hlt : hw.ppe k < 13 := hw.ppe_lt k hk
  rw [pe_map_ptr, dif_pos ⟨by omega, by exact_mod_cast hlt⟩]
  congr 1
  exact Fin.ext (by rw [Machine.slot_val hk]; simp)

theorem fill_pe_map_eq (d : a64fx_hwb_device) {k : ℕ} (hk : hw.present.getLsbD k = true) :
    fill_pe_map hw d k = .ok (fill hw d k) := by
  simp only [fill_pe_map, Machine.read_peinfo, pe_map_ptr_ppe hk]
  rfl

/-- The entry of a slot after a fold of `fill`: the last CPU that sits there has
written it, or nobody has. -/
theorem fill_foldl (ks : List ℕ) (d : a64fx_hwb_device) (c : Fin MAX_NUM_CMG)
    (j : Fin MAX_PE_PER_CMG) :
    (∃ k ∈ ks, hw.cmg k = c ∧ hw.slot k = j ∧
        ∃ p, ((ks.foldl (fill hw) d).cmgs c).pe_map j = filled_core_mapping hw p k) ∨
      ((∀ k ∈ ks, ¬(hw.cmg k = c ∧ hw.slot k = j)) ∧
        ((ks.foldl (fill hw) d).cmgs c).pe_map j = (d.cmgs c).pe_map j) := by
  induction ks using List.reverseRecOn with
  | nil => exact Or.inr ⟨by simp, rfl⟩
  | append_singleton ks k ih =>
      rw [List.foldl_append, List.foldl_cons, List.foldl_nil]
      by_cases hplace : hw.cmg k = c ∧ hw.slot k = j
      · -- the last CPU of the walk sits there
        obtain ⟨rfl, rfl⟩ := hplace
        refine Or.inl ⟨k, by simp, rfl, rfl, ?_⟩
        exact ⟨_, by simp [fill, a64fx_hwb_device.with_cmg, a64fx_cmg_device.with_pe]; rfl⟩
      · have hsame : ((fill hw (ks.foldl (fill hw) d) k).cmgs c).pe_map j =
            ((ks.foldl (fill hw) d).cmgs c).pe_map j := by
          simp only [fill, a64fx_hwb_device.with_cmg, a64fx_cmg_device.with_pe]
          by_cases hc : c = hw.cmg k
          · subst hc
            have hj : j ≠ hw.slot k := fun h => hplace ⟨rfl, h.symm⟩
            simp [Function.update_of_ne hj]
          · simp [Function.update_of_ne hc]
        rw [hsame]
        rcases ih with ⟨k', hk', h⟩ | ⟨hno, h⟩
        · exact Or.inl ⟨k', by simp [hk'], h⟩
        · refine Or.inr ⟨fun k' hk' => ?_, h⟩
          rcases List.mem_append.mp hk' with hk' | hk'
          · exact hno k' hk'
          · rw [List.mem_singleton.mp hk']
            exact hplace

/-- Filling writes nothing but the table. -/
theorem fill_foldl_rest (ks : List ℕ) (d : a64fx_hwb_device) :
    (ks.foldl (fill hw) d).task_list = d.task_list ∧
      (ks.foldl (fill hw) d).num_tasks = d.num_tasks ∧
      (ks.foldl (fill hw) d).active_count = d.active_count ∧
      ∀ c, ((ks.foldl (fill hw) d).cmgs c).cmgmask = (d.cmgs c).cmgmask := by
  induction ks generalizing d with
  | nil => simp
  | cons k ks ih =>
      rw [List.foldl_cons]
      obtain ⟨h1, h2, h3, h4⟩ := ih (fill hw d k)
      refine ⟨h1, h2, h3, fun c => ?_⟩
      rw [h4 c]
      simp only [fill, a64fx_hwb_device.with_cmg, a64fx_cmg_device.with_pe]
      by_cases hc : c = hw.cmg k
      · subst hc; simp
      · simp [Function.update_of_ne hc]

/-- The tables after every online CPU has run `fill_pe_map`. -/
def filled (l : Load hw) : a64fx_hwb_device :=
  (for_each_cpu l.online).foldl (fill hw) (clear_pe_maps oss_a64fx_hwb_device)

/-- A filled slot holds the CPU that sits there, an unfilled one what `memset`
left. -/
theorem filled_entry (l : Load hw) (c : Fin MAX_NUM_CMG) (j : Fin MAX_PE_PER_CMG) :
    (∃ k, l.online.getLsbD k = true ∧ hw.cmg k = c ∧ hw.slot k = j ∧
        ∃ p, ((filled l).cmgs c).pe_map j = filled_core_mapping hw p k) ∨
      ((∀ k, l.online.getLsbD k = true → ¬(hw.cmg k = c ∧ hw.slot k = j)) ∧
        ((filled l).cmgs c).pe_map j = cleared_core_mapping) := by
  rcases @fill_foldl hw (for_each_cpu l.online) (clear_pe_maps oss_a64fx_hwb_device) c j with
    ⟨k, hk, h⟩ | ⟨hno, h⟩
  · exact Or.inl ⟨k, (mem_bits _ k).mp hk, h⟩
  · exact Or.inr ⟨fun k hk => hno k ((mem_bits _ k).mpr hk), h⟩

/-! ## Counting the entries -/

theorem filled_cpu_id_nonneg (l : Load hw) (c : Fin MAX_NUM_CMG) (j : Fin MAX_PE_PER_CMG) :
    (((filled l).cmgs c).pe_map j).cpu_id ≥ 0 ↔
      ∃ k, l.online.getLsbD k = true ∧ hw.cmg k = c ∧ hw.slot k = j := by
  rcases filled_entry l c j with ⟨k, hk, hc, hj, p, hp⟩ | ⟨hno, hp⟩
  · rw [hp]
    exact ⟨fun _ => ⟨k, hk, hc, hj⟩, fun _ => by simp [filled_core_mapping]⟩
  · rw [hp]
    refine ⟨fun h => absurd h (by simp [cleared_core_mapping]), ?_⟩
    rintro ⟨k, hk, hplace⟩
    exact absurd hplace (hno k hk)

/-- **The count is the end of the filled slots**, when the PEs fill the slots
from 0 up. -/
theorem lt_count_pes_iff {l : Load hw} (hpk : Packed l) (c : Fin MAX_NUM_CMG)
    (j : Fin MAX_PE_PER_CMG) :
    j.val < count_pes ((filled l).cmgs c) ↔
      ∃ k, l.online.getLsbD k = true ∧ hw.cmg k = c ∧ hw.slot k = j := by
  rw [count_pes, lt_countP_iff (fun j => (((filled l).cmgs c).pe_map j).cpu_id ≥ 0),
    filled_cpu_id_nonneg]
  -- below a filled slot every slot is filled
  intro i j hij hj
  rw [filled_cpu_id_nonneg] at hj ⊢
  obtain ⟨k, hk, hc, hs⟩ := hj
  rcases eq_or_lt_of_le hij with rfl | hlt
  · exact ⟨k, hk, hc, hs⟩
  · have hp : i.val < hw.ppe k := by
      rw [← Machine.slot_val (l.online_present k hk), hs]
      exact hlt
    obtain ⟨k', hk', hc', hp'⟩ := hpk k hk i.val hp
    refine ⟨k', hk', hc'.trans hc, Fin.ext ?_⟩
    rw [Machine.slot_val (l.online_present k' hk'), hp']

/-! ## The CMGs -/

/-- What `initialize_cmg` makes of a CMG whose visited slots are filled. -/
def initialized_cmg (i : Fin MAX_NUM_CMG) (cmg : a64fx_cmg_device) : a64fx_cmg_device :=
  { cmg with
    bb_active := 0
    cmg_id := i.val
    cmgmask := cmg.slots.foldl (fun mask j => setBit mask (cmg.pe_map j).cpu_id.toNat)
      cmg.cmgmask }

theorem init_cmgmask_eq {cmg : a64fx_cmg_device}
    (h : ∀ j ∈ cmg.slots, 0 ≤ (cmg.pe_map j).cpu_id ∧ (cmg.pe_map j).cpu_id < nr_cpu_ids) :
    init_cmgmask cmg = .ok { cmg with
      cmgmask := cmg.slots.foldl (fun mask j => setBit mask (cmg.pe_map j).cpu_id.toNat)
        cmg.cmgmask } := by
  have hloop := Loops.foldlM_eq_ok (ε := Fault)
    (fun (mask : cpumask_t) (j : Fin MAX_PE_PER_CMG) =>
      if 0 ≤ (cmg.pe_map j).cpu_id ∧ (cmg.pe_map j).cpu_id < nr_cpu_ids then
        pure (cpumask_set_cpu (cmg.pe_map j).cpu_id.toNat mask)
      else .error (.cpu_number (cmg.pe_map j).cpu_id))
    (fun mask j => setBit mask (cmg.pe_map j).cpu_id.toNat)
    cmg.slots cmg.cmgmask (fun j hj s => by rw [if_pos (h j hj)]; rfl)
  simp only [init_cmgmask, hloop]
  rfl

/-- Whatever `initialize_cmg` returns, it has initialised its CMG before. -/
theorem initialize_cmg_ok {l : Load hw} {i : Fin MAX_NUM_CMG} {s : Kernel}
    (hv : ∀ j ∈ (s.dev.cmgs i).slots, 0 ≤ ((s.dev.cmgs i).pe_map j).cpu_id ∧
      ((s.dev.cmgs i).pe_map j).cpu_id < nr_cpu_ids) (hlocks : s.locks = Locks.free) :
    ∃ e, initialize_cmg l i s = .ok (e, { s with
      dev := s.dev.with_cmg i fun _ => initialized_cmg i (s.dev.cmgs i) }) := by
  have hmask := @init_cmgmask_eq { s.dev.cmgs i with bb_active := 0, cmg_id := i.val } hv
  have hfree : ({ s.locks with
      cmg_lock := Function.update s.locks.cmg_lock i false } : Locks) = s.locks := by
    rw [hlocks]
    simp [Locks.free]
  simp only [initialize_cmg, hmask, hfree]
  by_cases hk : l.kobject_add i ≠ 0
  · exact ⟨_, by simp only [bind, Except.bind, if_pos hk]; rfl⟩
  · by_cases hg : l.sysfs_create_group i ≠ 0
    · exact ⟨_, by simp only [bind, Except.bind, if_neg hk, if_pos hg]; rfl⟩
    · exact ⟨_, by simp only [bind, Except.bind, if_neg hk, if_neg hg]; rfl⟩

/-- The loop over `initialize_cmg`, when it runs to its end without a negative
value: every CMG it visits is initialised and nothing else is touched. -/
theorem initialize_cmgs_ok {l : Load hw} {is : List (Fin MAX_NUM_CMG)} {err err' : ℤ}
    {s s' : Kernel} (hv : ∀ i, ∀ j ∈ (s.dev.cmgs i).slots, 0 ≤ ((s.dev.cmgs i).pe_map j).cpu_id ∧
      ((s.dev.cmgs i).pe_map j).cpu_id < nr_cpu_ids)
    (hn : is.Nodup) (hlocks : s.locks = Locks.free)
    (h : initialize_cmgs l is err s = .ok (err', s')) (h0 : 0 ≤ err') :
    s' = { s with dev := { s.dev with
      cmgs := fun i => if i ∈ is then initialized_cmg i (s.dev.cmgs i) else s.dev.cmgs i } } := by
  induction is generalizing err s with
  | nil =>
      rw [initialize_cmgs] at h
      cases h
      simp
  | cons i is ih =>
      rw [List.nodup_cons] at hn
      rw [initialize_cmgs] at h
      obtain ⟨e, he⟩ := initialize_cmg_ok (hv i) hlocks
      rw [he] at h
      simp only [bind, Except.bind] at h
      by_cases hneg : e < 0
      · rw [if_pos hneg] at h
        cases h
        omega
      · rw [if_neg hneg] at h
        have hrest := ih (s := { s with
          dev := s.dev.with_cmg i fun _ => initialized_cmg i (s.dev.cmgs i) }) ?_ hn.2 hlocks h
        · rw [hrest]
          refine congrArg (fun C => ({ s with dev := { s.dev with cmgs := C } } : Kernel))
            (funext fun i' => ?_)
          by_cases hi : i' = i
          · subst hi
            simp [a64fx_hwb_device.with_cmg, hn.1]
          · simp [a64fx_hwb_device.with_cmg, hi]
        · intro i' j hj
          by_cases hi : i' = i
          · subst hi
            simp only [a64fx_hwb_device.with_cmg, Function.update_self] at hj ⊢
            exact hv i' j hj
          · simp only [a64fx_hwb_device.with_cmg, Function.update_of_ne hi] at hj ⊢
            exact hv i' j hj

/-! ## The loaded device -/

/-- The device a successful load leaves. -/
def loaded_device (l : Load hw) : a64fx_hwb_device :=
  { init_limits (filled l) with
    cmgs := fun i => initialized_cmg i ((init_limits (filled l)).cmgs i) }

/-- The slots the scans visit are the filled ones, each with the CPU that sits
there. -/
theorem loaded_entry {l : Load hw} (hpk : Packed l) {c : Fin MAX_NUM_CMG} {j : Fin MAX_PE_PER_CMG}
    (hj : j.val < ((loaded_device l).cmgs c).num_pes) :
    ∃ k, l.online.getLsbD k = true ∧ hw.cmg k = c ∧ hw.slot k = j ∧
      ∃ p, ((loaded_device l).cmgs c).pe_map j = filled_core_mapping hw p k := by
  obtain ⟨k₀, hk₀, hplace₀⟩ := (lt_count_pes_iff hpk c j).mp hj
  rcases filled_entry l c j with ⟨k, hk, hc, hs, p, hp⟩ | ⟨hno, -⟩
  · exact ⟨k, hk, hc, hs, p, hp⟩
  · exact absurd hplace₀ (hno k₀ hk₀)

/-- The CPU numbers `init_cmgmask` sets in a CMG's mask are in range. -/
theorem limits_cpu_id {l : Load hw} (hpk : Packed l) (i : Fin MAX_NUM_CMG) (j : Fin MAX_PE_PER_CMG)
    (hj : j ∈ ((init_limits (filled l)).cmgs i).slots) :
    0 ≤ (((init_limits (filled l)).cmgs i).pe_map j).cpu_id ∧
      (((init_limits (filled l)).cmgs i).pe_map j).cpu_id < nr_cpu_ids := by
  rw [a64fx_cmg_device.mem_slots] at hj
  obtain ⟨k, hk, -, -, p, hp⟩ := loaded_entry hpk hj
  have hlt := BitVec.lt_of_getLsbD hk
  have hp' : ((init_limits (filled l)).cmgs i).pe_map j = filled_core_mapping hw p k := hp
  rw [hp']
  simp only [filled_core_mapping]
  omega

/-- `oss_a64fx_hwb_ctrl_func` writes the control register only. -/
theorem ctrl_foldl (ks : List ℕ) (x : hwb_ctrl_info × hwb_regs) :
    (ks.foldl oss_a64fx_hwb_ctrl_func x).2.init_sync_bb = x.2.init_sync_bb ∧
      (ks.foldl oss_a64fx_hwb_ctrl_func x).2.assign_sync_wr = x.2.assign_sync_wr := by
  induction ks generalizing x with
  | nil => exact ⟨rfl, rfl⟩
  | cons k ks ih => exact ih (oss_a64fx_hwb_ctrl_func x k)

/-- A load that succeeds has come to the end of the loop over `initialize_cmg`
without a negative value. -/
theorem Loaded.initialized {l : Load hw} {regs : hwb_regs} {s : Kernel} (h : Loaded l regs s) :
    ∃ err t, initialize_cmgs l (List.finRange MAX_NUM_CMG) 0
        { boot regs with dev := init_limits (filled l) } = .ok (err, t) ∧ 0 ≤ err ∧
      s = { t with regs := ((for_each_cpu l.online).foldl oss_a64fx_hwb_ctrl_func
        ({ el0ae := 1, el1ae := 1 }, t.regs)).2 } := by
  have hfill : (for_each_cpu l.online).foldlM (fill_pe_map hw)
      (clear_pe_maps oss_a64fx_hwb_device) = .ok (filled l) := by
    refine Loops.foldlM_eq_ok _ (fill hw) _ _ fun k hk d => fill_pe_map_eq d ?_
    exact l.online_present k ((mem_bits _ k).mp hk)
  rw [Loaded, oss_a64fx_hwb_init] at h
  by_cases hm : l.misc_register ≠ 0
  · rw [if_pos hm] at h
    injection h with h
    exact absurd (congrArg Prod.fst h) hm
  by_cases hd : l.device_create_file ≠ 0
  · rw [if_neg hm, if_pos hd] at h
    injection h with h
    exact absurd (congrArg Prod.fst h) hd
  rw [if_neg hm, if_neg hd] at h
  simp only [boot, hfill, bind, Except.bind] at h ⊢
  cases hi : initialize_cmgs l (List.finRange MAX_NUM_CMG) 0
      { boot regs with dev := init_limits (filled l) } with
  | error e =>
      simp only [boot] at hi
      rw [hi] at h
      cases h
  | ok r =>
      obtain ⟨err, t⟩ := r
      simp only [boot] at hi
      rw [hi] at h
      by_cases hneg : err < 0
      · -- an error of `initialize_cmg` is what the load returns
        simp only [if_pos hneg] at h
        injection h with h
        have herr := congrArg Prod.fst h
        simp only at herr
        omega
      · simp only [if_neg hneg] at h
        injection h with h
        exact ⟨err, t, hi, by omega, (congrArg Prod.snd h).symm⟩

/-! ## A gap in the table

With a gap the count ends before the last entry, so a scan visits an entry that
nobody filled, and `init_cmgmask` takes -1 for a CPU number. -/

/-- The slots whose CPU `init_cmgmask` has added to the mask hold one. -/
theorem init_cmgmask_slots {cmg cmg' : a64fx_cmg_device} (h : init_cmgmask cmg = .ok cmg') :
    ∀ j ∈ cmg.slots, 0 ≤ (cmg.pe_map j).cpu_id := by
  unfold init_cmgmask at h
  rw [Loops.bind_eq_ok] at h
  obtain ⟨mask, hloop, -⟩ := h
  refine (Loops.foldlM_ok (fun _ => True) _ _ _ _ _ hloop trivial ?_).2
  intro j _ s t _ hbody
  by_cases hcpu : 0 ≤ (cmg.pe_map j).cpu_id ∧ (cmg.pe_map j).cpu_id < nr_cpu_ids
  · exact ⟨trivial, hcpu.1⟩
  · rw [if_neg hcpu] at hbody
    cases hbody

/-- `init_cmgmask` writes nothing but the mask. -/
theorem init_cmgmask_writes {cmg cmg' : a64fx_cmg_device} (h : init_cmgmask cmg = .ok cmg') :
    ∃ mask, cmg' = { cmg with cmgmask := mask } := by
  unfold init_cmgmask at h
  rw [Loops.bind_eq_ok] at h
  obtain ⟨mask, -, h⟩ := h
  cases h
  exact ⟨mask, rfl⟩

/-- What `initialize_cmg` leaves, whatever it returns. -/
theorem initialize_cmg_dev {l : Load hw} {i : Fin MAX_NUM_CMG} {err : ℤ} {s s' : Kernel}
    (h : initialize_cmg l i s = .ok (err, s')) : ∃ cmg,
      init_cmgmask { s.dev.cmgs i with bb_active := 0, cmg_id := i.val } = .ok cmg ∧
        s'.dev = s.dev.with_cmg i fun _ => cmg := by
  unfold initialize_cmg at h
  simp only at h
  rw [Loops.bind_eq_ok] at h
  obtain ⟨cmg, hmask, h⟩ := h
  refine ⟨cmg, hmask, ?_⟩
  split_ifs at h
  all_goals
    cases h
    rfl

/-- The loop over `initialize_cmg` has looked at the slots of every CMG. -/
theorem initialize_cmgs_slots {l : Load hw} {is : List (Fin MAX_NUM_CMG)} {err err' : ℤ}
    {s s' : Kernel} (hn : is.Nodup) (h : initialize_cmgs l is err s = .ok (err', s'))
    (h0 : 0 ≤ err') :
    ∀ i ∈ is, ∀ j ∈ (s.dev.cmgs i).slots, 0 ≤ ((s.dev.cmgs i).pe_map j).cpu_id := by
  induction is generalizing err s with
  | nil =>
      intro i hi
      cases hi
  | cons i is ih =>
      rw [List.nodup_cons] at hn
      rw [initialize_cmgs, Loops.bind_eq_ok] at h
      obtain ⟨⟨e, t⟩, hone, h⟩ := h
      simp only at h
      obtain ⟨cmg, hmask, hdev⟩ := initialize_cmg_dev hone
      have hthis : ∀ j ∈ (s.dev.cmgs i).slots, 0 ≤ ((s.dev.cmgs i).pe_map j).cpu_id :=
        @init_cmgmask_slots { s.dev.cmgs i with bb_active := 0, cmg_id := i.val } cmg hmask
      by_cases hneg : e < 0
      · rw [if_pos hneg] at h
        cases h
        omega
      · rw [if_neg hneg] at h
        intro i' hmem
        rcases List.mem_cons.mp hmem with rfl | hi'
        · exact hthis
        · -- the other CMGs are as they were
          have hne : i' ≠ i := fun heq => hn.1 (heq ▸ hi')
          have hrest := ih hn.2 h i' hi'
          rw [hdev] at hrest
          simp only [a64fx_hwb_device.with_cmg, Function.update_of_ne hne] at hrest
          exact hrest

/-- **A load that succeeds found the PEs of each CMG in the slots from 0 up.** -/
theorem Loaded.packed {l : Load hw} {regs : hwb_regs} {s : Kernel} (h : Loaded l regs s) :
    Packed l := by
  obtain ⟨err, t, hi, hnonneg, -⟩ := h.initialized
  have hslots := initialize_cmgs_slots (List.nodup_finRange _) hi hnonneg
  intro k hk p hp
  have hp13 : p < MAX_PE_PER_CMG := lt_trans hp (hw.ppe_lt k (l.online_present k hk))
  -- every visited entry is filled, so every filled entry is visited
  have hbelow : (hw.slot k).val < count_pes ((filled l).cmgs (hw.cmg k)) := by
    refine lt_countP_of_prefix (fun j => (((filled l).cmgs (hw.cmg k)).pe_map j).cpu_id ≥ 0) ?_ ?_
    · intro j hj
      refine hslots (hw.cmg k) (List.mem_finRange _) j ?_
      rw [a64fx_cmg_device.mem_slots]
      exact hj
    · exact (filled_cpu_id_nonneg l _ _).mpr ⟨k, hk, rfl, rfl⟩
  rw [Machine.slot_val (l.online_present k hk)] at hbelow
  have hfilled : (((filled l).cmgs (hw.cmg k)).pe_map ⟨p, hp13⟩).cpu_id ≥ 0 := by
    refine hslots (hw.cmg k) (List.mem_finRange _) ⟨p, hp13⟩ ?_
    rw [a64fx_cmg_device.mem_slots]
    exact lt_trans hp hbelow
  obtain ⟨k', hk', hc, hs⟩ := (filled_cpu_id_nonneg l _ _).mp hfilled
  refine ⟨k', hk', hc, ?_⟩
  rw [← Machine.slot_val (l.online_present k' hk'), hs]

/-! ## The loaded state -/

/-- **What a successful load leaves**: the loaded device, the blade and window
registers as they were, no lock held. -/
theorem Loaded.spec {l : Load hw} {regs : hwb_regs} {s : Kernel} (h : Loaded l regs s) :
    s.dev = loaded_device l ∧ s.regs.init_sync_bb = regs.init_sync_bb ∧
      s.regs.assign_sync_wr = regs.assign_sync_wr ∧ s.locks = Locks.free ∧ s.preempt_count = 0 := by
  obtain ⟨err, t, hi, hnonneg, rfl⟩ := h.initialized
  have ht := initialize_cmgs_ok (limits_cpu_id h.packed) (List.nodup_finRange _) rfl hi hnonneg
  obtain ⟨hbb, hwr⟩ := ctrl_foldl (for_each_cpu l.online) ({ el0ae := 1, el1ae := 1 }, t.regs)
  refine ⟨?_, by rw [hbb, ht]; rfl, by rw [hwr, ht]; rfl, by rw [ht]; rfl, by rw [ht]; rfl⟩
  rw [ht]
  simp [loaded_device]

/-- **The loaded device has its table.** -/
theorem loaded_table {l : Load hw} (hpk : Packed l) : Table l (loaded_device l) where
  num_cmgs := rfl
  num_bb := rfl
  cmg_id _ := rfl
  filled c j hj := by
    obtain ⟨k, hk, hc, hs, p, hp⟩ := loaded_entry hpk hj
    have hppe : hw.ppe k = j.val := by rw [← hs, Machine.slot_val (l.online_present k hk)]
    refine ⟨k, hk, hc, hppe, ?_⟩
    rw [hp, filled_core_mapping, hc, hppe]
    exact ⟨rfl, rfl, rfl⟩
  slot k hk := by
    have hlt := (lt_count_pes_iff hpk (hw.cmg k) (hw.slot k)).mpr ⟨k, hk, rfl, rfl⟩
    rw [Machine.slot_val (l.online_present k hk)] at hlt
    exact hlt
  cmgmask c k := by
    -- the mask of the device as it is before the load is empty
    have hmask : ((loaded_device l).cmgs c).cmgmask =
        ((loaded_device l).cmgs c).slots.foldl (fun (mask : cpumask_t) j =>
          setBit mask (((loaded_device l).cmgs c).pe_map j).cpu_id.toNat) 0 := by
      have h0 : ((filled l).cmgs c).cmgmask = 0 := (fill_foldl_rest _ _).2.2.2 c
      have h1 : ((loaded_device l).cmgs c).cmgmask =
        ((loaded_device l).cmgs c).slots.foldl (fun (mask : cpumask_t) j =>
          setBit mask (((loaded_device l).cmgs c).pe_map j).cpu_id.toNat)
          ((filled l).cmgs c).cmgmask := rfl
      rw [h1, h0]
    rw [hmask,
      getLsbD_foldl_setBit (fun j => (((loaded_device l).cmgs c).pe_map j).cpu_id.toNat)]
    simp only [BitVec.ofNat_eq_ofNat, BitVec.getLsbD_zero, Bool.false_eq_true, false_or,
      a64fx_cmg_device.mem_slots]
    constructor
    · rintro ⟨j, hj, hcpu, -⟩
      obtain ⟨k', hk', hc, -, p, hp⟩ := loaded_entry hpk hj
      rw [hp] at hcpu
      have hkk : k' = k := by simpa [filled_core_mapping] using hcpu
      exact ⟨hkk ▸ hk', hkk ▸ hc⟩
    · rintro ⟨hk, rfl⟩
      have hlt := (lt_count_pes_iff hpk (hw.cmg k) (hw.slot k)).mpr ⟨k, hk, rfl, rfl⟩
      obtain ⟨k', hk', hc, hs, p, hp⟩ := loaded_entry hpk hlt
      have hkk : k' = k :=
        Machine.eq_of_slot (l.online_present k' hk') (l.online_present k hk) hc hs
      refine ⟨hw.slot k, hlt, ?_, BitVec.lt_of_getLsbD hk⟩
      rw [hp, hkk]
      simp [filled_core_mapping]

/-- **The loaded device is empty**: no tasks, no open files, no blade and no
window taken. -/
theorem loaded_empty {l : Load hw} (hpk : Packed l) :
    (loaded_device l).task_list = [] ∧ (loaded_device l).num_tasks = 0 ∧
      (loaded_device l).active_count = 0 ∧ (∀ c, ((loaded_device l).cmgs c).bb_active = 0) ∧
      ∀ c (j : Fin MAX_PE_PER_CMG), j.val < ((loaded_device l).cmgs c).num_pes →
        (((loaded_device l).cmgs c).pe_map j).bw_map = 0 := by
  obtain ⟨h1, h2, h3, -⟩ := @fill_foldl_rest hw (for_each_cpu l.online)
    (clear_pe_maps oss_a64fx_hwb_device)
  refine ⟨h1, h2, h3, fun _ => rfl, fun c j hj => ?_⟩
  obtain ⟨k, -, -, -, p, hp⟩ := loaded_entry hpk hj
  rw [hp, filled_core_mapping]

end A64fxHwb
