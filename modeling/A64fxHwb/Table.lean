/-
The core table, and the scans over it.

`Table l d` says what the load `l` leaves in the parts of the device that no
operation writes afterwards: the CMG numbers, the number of PEs of each CMG, the
CPU in each slot, and the CPU mask of each CMG. Every scan of the driver over
slots `0 .. num_pes - 1` then has a closed answer in terms of where the hardware
says a CPU sits. These are the only lemmas that look at the scans; the handlers
use `get_pemap_online`, `find_cpu`, `check_cpumask_sound` and
`getLsbD_cpumask_to_ppemask`.
-/
import A64fxHwb.System
import A64fxHwb.Loops

set_option autoImplicit false

namespace A64fxHwb

open BitWord

variable {hw : Machine}

/-! ## The slot of a CPU -/

/-- The slot of a CPU in its CMG's table. The value for a place outside the table
is never used: `Machine.ppe_lt`. -/
def Machine.slot (hw : Machine) (cpu : ℕ) : Fin MAX_PE_PER_CMG :=
  if h : hw.ppe cpu < MAX_PE_PER_CMG then ⟨hw.ppe cpu, h⟩ else ⟨0, by decide⟩

theorem Machine.slot_val {k : ℕ} (hk : hw.present.getLsbD k = true) :
    (hw.slot k).val = hw.ppe k := by
  have h : hw.ppe k < MAX_PE_PER_CMG := hw.ppe_lt k hk
  rw [Machine.slot, dif_pos h]

/-- Two CPUs of one CMG with one slot are one CPU. -/
theorem Machine.eq_of_slot {k k' : ℕ} (hk : hw.present.getLsbD k = true)
    (hk' : hw.present.getLsbD k' = true) (hc : hw.cmg k = hw.cmg k')
    (hs : hw.slot k = hw.slot k') : k = k' := by
  refine hw.eq_of_place hk hk' hc ?_
  rw [← Machine.slot_val hk, ← Machine.slot_val hk', hs]

/-! ## The table -/

/-- The core table of a loaded module. -/
structure Table (l : Load hw) (d : a64fx_hwb_device) : Prop where
  num_cmgs : d.num_cmgs = MAX_NUM_CMG
  num_bb : d.num_bb_per_cmg = MAX_BB_PER_CMG
  cmg_id : ∀ c, (d.cmgs c).cmg_id = (c.val : ℤ)
  filled : ∀ c (j : Fin MAX_PE_PER_CMG), j.val < (d.cmgs c).num_pes →
    ∃ k : ℕ, l.online.getLsbD k = true ∧ hw.cmg k = c ∧ hw.ppe k = j.val ∧
      ((d.cmgs c).pe_map j).cpu_id = k ∧ ((d.cmgs c).pe_map j).cmg_id = c.val ∧
      ((d.cmgs c).pe_map j).ppe_id = j.val
  slot : ∀ k, l.online.getLsbD k = true → hw.ppe k < (d.cmgs (hw.cmg k)).num_pes
  cmgmask : ∀ c k, (d.cmgs c).cmgmask.getLsbD k = true ↔ l.online.getLsbD k = true ∧ hw.cmg k = c

variable {l : Load hw} {d : a64fx_hwb_device}

namespace Table

/-- The slot of a CPU of the table is one the scans visit. -/
theorem slot_lt (ht : Table l d) {k : ℕ} (hk : l.online.getLsbD k = true) :
    (hw.slot k).val < (d.cmgs (hw.cmg k)).num_pes := by
  rw [Machine.slot_val (l.online_present k hk)]
  exact ht.slot k hk

/-- What the table holds for a CPU. -/
theorem entry (ht : Table l d) {k : ℕ} (hk : l.online.getLsbD k = true) :
    ((d.cmgs (hw.cmg k)).pe_map (hw.slot k)).cpu_id = k ∧
      ((d.cmgs (hw.cmg k)).pe_map (hw.slot k)).cmg_id = (hw.cmg k).val ∧
      ((d.cmgs (hw.cmg k)).pe_map (hw.slot k)).ppe_id = hw.ppe k := by
  have hp := l.online_present k hk
  obtain ⟨k', hk', hc, hpp, hcpu, hcmg, hppe⟩ := ht.filled (hw.cmg k) (hw.slot k) (ht.slot_lt hk)
  -- the slot is filled by a CPU that sits where `k` sits
  have hkk : k' = k :=
    hw.eq_of_place (l.online_present k' hk') hp hc (by rw [hpp, Machine.slot_val hp])
  refine ⟨by rw [hcpu, hkk], hcmg, by rw [hppe, Machine.slot_val hp]⟩

/-- A slot that holds CPU `k` is the slot of `k`. -/
theorem slot_of_cpu_id (ht : Table l d) {c : Fin MAX_NUM_CMG} {j : Fin MAX_PE_PER_CMG} {k : ℕ}
    (hj : j.val < (d.cmgs c).num_pes) (hk : ((d.cmgs c).pe_map j).cpu_id = k) :
    l.online.getLsbD k = true ∧ hw.cmg k = c ∧ j = hw.slot k := by
  obtain ⟨k', hk', hc, hp, hcpu, -⟩ := ht.filled c j hj
  have hkk : k' = k := by
    have h := hcpu.symm.trans hk
    omega
  subst hkk
  refine ⟨hk', hc, Fin.ext ?_⟩
  rw [Machine.slot_val (l.online_present k' hk'), hp]

end Table

/-! ## Searching for one CPU -/

/-- A search that only one element can satisfy finds that element. -/
theorem find?_eq_of_unique {α : Type*} {p : α → Bool} {xs : List α} {a : α} (ha : a ∈ xs)
    (hp : p a = true) (huniq : ∀ x ∈ xs, p x = true → x = a) : xs.find? p = some a := by
  cases hf : xs.find? p with
  | none => exact absurd hp (by simpa using List.find?_eq_none.mp hf a ha)
  | some x => rw [huniq x (List.mem_of_find?_eq_some hf) (List.find?_some hf)]

/-- `get_pemap` finds the entry of every CPU of the table. -/
theorem get_pemap_online (ht : Table l d) {k : ℕ} (hk : l.online.getLsbD k = true) :
    get_pemap d (hw.cmg k) (hw.ppe k) = some (hw.slot k) := by
  obtain ⟨-, hcmg, hppe⟩ := ht.entry hk
  refine find?_eq_of_unique ?_ (by simp [hcmg, hppe]) ?_
  · rw [a64fx_cmg_device.mem_slots]
    exact ht.slot_lt hk
  · intro j hj hmatch
    rw [a64fx_cmg_device.mem_slots] at hj
    obtain ⟨k', -, -, hp, -, -, hppe'⟩ := ht.filled (hw.cmg k) j hj
    have hm : ((d.cmgs (hw.cmg k)).pe_map j).ppe_id = hw.ppe k := by
      simp only [decide_eq_true_eq] at hmatch
      exact hmatch.2
    refine Fin.ext ?_
    rw [Machine.slot_val (l.online_present k hk)]
    omega

/-- `get_pemap` finds nothing for a CPU that came online after the load. -/
theorem get_pemap_offline (ht : Table l d) {k : ℕ} (hp : hw.present.getLsbD k = true)
    (hk : l.online.getLsbD k = false) : get_pemap d (hw.cmg k) (hw.ppe k) = none := by
  rw [get_pemap, List.find?_eq_none]
  intro j hj hmatch
  rw [a64fx_cmg_device.mem_slots] at hj
  obtain ⟨k', hk', hc, hpp, -, -, hppe⟩ := ht.filled (hw.cmg k) j hj
  simp only [decide_eq_true_eq] at hmatch
  have hplace : hw.ppe k' = hw.ppe k := by
    have h := hmatch.2
    omega
  -- the entry found would be that of `k`, which has none
  have hkk : k' = k := hw.eq_of_place (l.online_present k' hk') hp hc hplace
  rw [hkk, hk] at hk'
  exact Bool.noConfusion hk'

/-- The search by CPU number in `free_allocation` finds the CPU's slot. -/
theorem find_cpu (ht : Table l d) {k : ℕ} (hk : l.online.getLsbD k = true) :
    ((d.cmgs (hw.cmg k)).slots.find? fun i =>
      decide (((d.cmgs (hw.cmg k)).pe_map i).cpu_id = k)) = some (hw.slot k) := by
  refine find?_eq_of_unique ?_ (by simp [(ht.entry hk).1]) ?_
  · rw [a64fx_cmg_device.mem_slots]
    exact ht.slot_lt hk
  · intro j hj hmatch
    rw [a64fx_cmg_device.mem_slots] at hj
    exact (ht.slot_of_cpu_id hj (by simpa using hmatch)).2.2

/-! ## Translating a mask -/

/-- `cpumask_to_ppemask` collects the places of the mask's CPUs that the table
of the CMG knows. -/
theorem getLsbD_cpumask_to_ppemask (ht : Table l d) (c : Fin MAX_NUM_CMG) (m : cpumask_t)
    (p : ℕ) :
    (cpumask_to_ppemask (d.cmgs c) m).getLsbD p = true ↔
      ∃ k, m.getLsbD k = true ∧ l.online.getLsbD k = true ∧ hw.cmg k = c ∧ hw.ppe k = p := by
  -- the two loops set one bit for each pair of a CPU and a slot that holds it
  have hloop : ∀ (ks : List ℕ) (w : BitVec 64),
      (ks.foldl (fun mask (cpu : ℕ) => (d.cmgs c).slots.foldl (fun mask i =>
        if ((d.cmgs c).pe_map i).cpu_id = cpu then setBit mask ((d.cmgs c).pe_map i).ppe_id.toNat
        else mask) mask) w).getLsbD p = true ↔
      w.getLsbD p = true ∨ ∃ k ∈ ks, ∃ i ∈ (d.cmgs c).slots, ((d.cmgs c).pe_map i).cpu_id = k ∧
        ((d.cmgs c).pe_map i).ppe_id.toNat = p ∧ p < 64 := by
    intro ks
    induction ks with
    | nil => intro w; simp
    | cons k ks ih =>
        intro w
        rw [List.foldl_cons, ih, getLsbD_foldl_setBit_if
          (fun i => ((d.cmgs c).pe_map i).cpu_id = (k : ℤ))
          (fun i => ((d.cmgs c).pe_map i).ppe_id.toNat)]
        simp only [List.mem_cons, or_assoc, exists_eq_or_imp]
  rw [cpumask_to_ppemask, hloop]
  simp only [BitVec.ofNat_eq_ofNat, BitVec.getLsbD_zero, Bool.false_eq_true, false_or, mem_bits,
    a64fx_cmg_device.mem_slots]
  constructor
  · rintro ⟨k, hk, i, hi, hcpu, hppe, -⟩
    obtain ⟨hon, hc, rfl⟩ := ht.slot_of_cpu_id hi hcpu
    subst hc
    rw [(ht.entry hon).2.2] at hppe
    exact ⟨k, hk, hon, rfl, by simpa using hppe⟩
  · rintro ⟨k, hk, hon, rfl, rfl⟩
    have hlt : hw.ppe k < 13 := hw.ppe_lt k (l.online_present k hon)
    refine ⟨k, hk, hw.slot k, ht.slot_lt hon, (ht.entry hon).1, ?_, by omega⟩
    rw [(ht.entry hon).2.2]
    simp

/-! ## Checking a mask -/

/-- One pass over the table for one CPU. The CMG that was found first is kept,
and every entry of the CPU agrees with the CMG the pass ends with. -/
theorem check_cpumask_pes_ok {cpu : ℕ} {pes : List a64fx_core_mapping} {v t : ℤ}
    (hpes : ∀ pe ∈ pes, pe.cpu_id = cpu → 0 ≤ pe.cmg_id)
    (h : pes.foldlM (check_cpumask_pe cpu) v = .ok t) :
    (0 ≤ v → t = v) ∧ (∀ pe ∈ pes, pe.cpu_id = cpu → t = pe.cmg_id) ∧
      ((∀ pe ∈ pes, pe.cpu_id ≠ cpu) → t = v) := by
  induction pes generalizing v with
  | nil =>
      rw [List.foldlM_nil] at h
      cases h
      simp
  | cons pe pes ih =>
      rw [List.foldlM_cons] at h
      have hpe := hpes pe List.mem_cons_self
      have hrest := fun pe' h' => hpes pe' (List.mem_cons_of_mem _ h')
      by_cases hcpu : pe.cpu_id = cpu
      · -- the entry is the CPU's: the pass goes on only with the entry's CMG
        have hpe := hpe hcpu
        simp only [check_cpumask_pe, if_pos hcpu] at h
        by_cases hv : v < 0
        · -- nothing was found before: the entry's CMG is what the pass ends with
          rw [if_pos hv, if_neg (by simp)] at h
          obtain ⟨h1, h2, -⟩ := ih hrest h
          refine ⟨fun hv' => by omega, ?_, fun hno => absurd hcpu (hno pe List.mem_cons_self)⟩
          intro pe' hpe' hcpu'
          rcases List.mem_cons.mp hpe' with rfl | hpe'
          · exact h1 hpe
          · exact h2 pe' hpe' hcpu'
        · rw [if_neg hv] at h
          by_cases hne : v ≠ pe.cmg_id
          · rw [if_pos hne] at h
            cases h
          · rw [if_neg hne] at h
            obtain ⟨h1, h2, -⟩ := ih hrest h
            have hve : v = pe.cmg_id := not_not.mp hne
            refine ⟨h1, ?_, fun hno => absurd hcpu (hno pe List.mem_cons_self)⟩
            intro pe' hpe' hcpu'
            rcases List.mem_cons.mp hpe' with rfl | hpe'
            · rw [h1 (by omega), hve]
            · exact h2 pe' hpe' hcpu'
      · -- the entry is another CPU's
        simp only [check_cpumask_pe, if_neg hcpu] at h
        obtain ⟨h1, h2, h3⟩ := ih hrest h
        refine ⟨h1, ?_, fun hno => h3 fun pe' hpe' => hno pe' (List.mem_cons_of_mem _ hpe')⟩
        intro pe' hpe' hcpu'
        rcases List.mem_cons.mp hpe' with rfl | hpe'
        · exact absurd hcpu' hcpu
        · exact h2 pe' hpe' hcpu'

/-- The early returns of the loops all return `-1`. -/
theorem check_cpumask_cpus_error {online : cpumask_t} {ks : List ℕ} {v e : ℤ}
    (h : ks.foldlM (check_cpumask_cpu online d) v = .error e) : e = -1 := by
  refine Loops.foldlM_error (fun e => e = -1) _ ks v h fun u k e he => ?_
  rw [check_cpumask_cpu] at he
  by_cases hon : (!cpumask_test_cpu k online) = true
  · rw [if_pos hon] at he
    cases he
    rfl
  · rw [if_neg hon] at he
    refine Loops.foldlM_error (fun e => e = -1) _ _ u he fun u pe e he => ?_
    by_cases hcpu : pe.cpu_id = k
    · by_cases hne : (if u < 0 then pe.cmg_id else u) ≠ pe.cmg_id
      · simp only [check_cpumask_pe, if_pos hcpu, if_pos hne] at he
        cases he
        rfl
      · simp only [check_cpumask_pe, if_pos hcpu, if_neg hne] at he
        cases he
    · simp only [check_cpumask_pe, if_neg hcpu] at he
      cases he

/-- The entries `check_cpumask` looks at are those of the table. -/
theorem mem_check_cpumask_pes (ht : Table l d) (pe : a64fx_core_mapping) :
    pe ∈ check_cpumask_pes d ↔
      ∃ c : Fin MAX_NUM_CMG, ∃ j : Fin MAX_PE_PER_CMG, j.val < (d.cmgs c).num_pes ∧
        (d.cmgs c).pe_map j = pe := by
  simp [check_cpumask_pes, ht.num_cmgs]

/-- One pass over the mask: every CPU visited is online, and all entries of all
of them agree with the CMG the pass ends with, which is still negative only if
there were none. -/
theorem check_cpumask_cpus_ok {online : cpumask_t} {ks : List ℕ} {v t : ℤ}
    (hpes : ∀ pe ∈ check_cpumask_pes d, ∀ k : ℕ, pe.cpu_id = k → 0 ≤ pe.cmg_id)
    (h : ks.foldlM (check_cpumask_cpu online d) v = .ok t) :
    (0 ≤ v → t = v) ∧
      (∀ k ∈ ks, online.getLsbD k = true ∧
        ∀ pe ∈ check_cpumask_pes d, pe.cpu_id = k → t = pe.cmg_id) ∧
      (v < 0 → 0 ≤ t → ∃ k ∈ ks, ∃ pe ∈ check_cpumask_pes d, pe.cpu_id = k) := by
  induction ks generalizing v with
  | nil =>
      rw [List.foldlM_nil] at h
      cases h
      exact ⟨fun _ => rfl, by simp, fun h1 h2 => by omega⟩
  | cons k ks ih =>
      rw [List.foldlM_cons] at h
      cases hb : check_cpumask_cpu online d v k with
      | error e => rw [hb] at h; cases h
      | ok u =>
          rw [hb] at h
          rw [check_cpumask_cpu] at hb
          by_cases hon : online.getLsbD k = true
          · rw [if_neg (by simp [hon])] at hb
            obtain ⟨h1, h2, h3⟩ := check_cpumask_pes_ok (fun pe hpe => hpes pe hpe k) hb
            obtain ⟨i1, i2, i3⟩ := ih h
            refine ⟨fun hv => by rw [← h1 hv]; exact i1 (by rw [h1 hv]; exact hv), ?_, ?_⟩
            · intro k' hk'
              rcases List.mem_cons.mp hk' with rfl | hk'
              · -- the value is not negative any more, so the rest of the walk keeps it
                refine ⟨hon, fun pe hpe hcpu => ?_⟩
                have hu := h2 pe hpe hcpu
                rw [← hu]
                exact i1 (by rw [hu]; exact hpes pe hpe _ hcpu)
              · exact i2 k' hk'
            · intro hv ht
              by_cases hex : ∃ pe ∈ check_cpumask_pes d, pe.cpu_id = k
              · exact ⟨k, List.mem_cons_self, hex⟩
              · have hu : u = v := h3 fun pe hpe hcpu => hex ⟨pe, hpe, hcpu⟩
                obtain ⟨k', hk', hpe⟩ := i3 (by rw [hu]; exact hv) ht
                exact ⟨k', List.mem_cons_of_mem _ hk', hpe⟩
          · rw [if_pos (by simp [hon])] at hb
            cases hb

/-- A mask is accepted for the CMG of an entry of one of its CPUs, on any table whose
entries of CPUs have a CMG. -/
theorem check_cpumask_entry {online m : cpumask_t}
    (hpes : ∀ pe ∈ check_cpumask_pes d, ∀ k : ℕ, pe.cpu_id = k → 0 ≤ pe.cmg_id)
    (h : 0 ≤ check_cpumask online d m) : ∃ k, m.getLsbD k = true ∧ ∃ pe ∈ check_cpumask_pes d,
      pe.cpu_id = k ∧ check_cpumask online d m = pe.cmg_id := by
  rw [check_cpumask] at h ⊢
  by_cases hw2 : weight m < 2
  · rw [if_pos hw2] at h
    exact absurd h (by decide)
  · rw [if_neg hw2] at h ⊢
    cases hf : (for_each_cpu m).foldlM (check_cpumask_cpu online d) (-1) with
    | error e =>
        rw [hf, check_cpumask_cpus_error hf] at h
        exact absurd h (by decide)
    | ok t =>
        rw [hf] at h
        simp only at h ⊢
        obtain ⟨-, hall, hex⟩ := check_cpumask_cpus_ok hpes hf
        obtain ⟨k, hk, pe, hpe, hcpu⟩ := hex (by decide) h
        exact ⟨k, (mem_bits m k).mp hk, pe, hpe, hcpu, (hall k hk).2 pe hpe hcpu⟩

/-- **A mask that is accepted.** It has at least two CPUs, all of them online;
those that were online at load all sit on the CMG the check returns, and there
is one. -/
theorem check_cpumask_sound (ht : Table l d) {online m : cpumask_t}
    (h : 0 ≤ check_cpumask online d m) :
    ∃ c : Fin MAX_NUM_CMG, check_cpumask online d m = c.val ∧ 2 ≤ weight m ∧
      (∀ k, m.getLsbD k = true → online.getLsbD k = true) ∧
      (∀ k, m.getLsbD k = true → l.online.getLsbD k = true → hw.cmg k = c) ∧
      ∃ k, m.getLsbD k = true ∧ l.online.getLsbD k = true := by
  have hpes : ∀ pe ∈ check_cpumask_pes d, 0 ≤ pe.cmg_id := by
    intro pe hpe
    obtain ⟨c, j, hj, rfl⟩ := (mem_check_cpumask_pes ht pe).mp hpe
    obtain ⟨k, -, -, -, -, hcmg, -⟩ := ht.filled c j hj
    omega
  rw [check_cpumask] at h ⊢
  by_cases hw2 : weight m < 2
  · rw [if_pos hw2] at h
    exact absurd h (by decide)
  · rw [if_neg hw2] at h ⊢
    cases hf : (for_each_cpu m).foldlM (check_cpumask_cpu online d) (-1) with
    | error e =>
        rw [hf, check_cpumask_cpus_error hf] at h
        exact absurd h (by decide)
    | ok t =>
        rw [hf] at h
        simp only at h ⊢
        obtain ⟨-, hall, hex⟩ := check_cpumask_cpus_ok (fun pe hpe _ _ => hpes pe hpe) hf
        obtain ⟨k₀, hk₀, pe₀, hpe₀, hcpu₀⟩ := hex (by decide) h
        rw [mem_bits] at hk₀
        obtain ⟨c₀, j₀, hj₀, rfl⟩ := (mem_check_cpumask_pes ht pe₀).mp hpe₀
        obtain ⟨hon₀, hc₀, -⟩ := ht.slot_of_cpu_id hj₀ hcpu₀
        -- a CPU of the table has an entry, and the walk has compared it
        have hentry : ∀ k, m.getLsbD k = true → l.online.getLsbD k = true →
            t = (hw.cmg k).val := by
          intro k hk hon
          obtain ⟨hcpu, hcmg, -⟩ := ht.entry hon
          rw [← hcmg]
          refine (hall k ((mem_bits m k).mpr hk)).2 _ ?_ hcpu
          exact (mem_check_cpumask_pes ht _).mpr ⟨hw.cmg k, hw.slot k, ht.slot_lt hon, rfl⟩
        have ht₀ := hentry k₀ hk₀ hon₀
        refine ⟨hw.cmg k₀, ht₀, by omega, fun k hk => (hall k ((mem_bits m k).mpr hk)).1, ?_,
          k₀, hk₀, hon₀⟩
        intro k hk hon
        have hk' := hentry k hk hon
        exact Fin.ext (by omega)

end A64fxHwb
