/-
The core table and the shape of the machine.

`fill_pe_map` stores the entry of a CPU at its physical place, and
`get_max_pe_per_cmg` counts the entries that are filled; every scan takes the
count for the end of the table. The two agree exactly when the PEs of each CMG
fill the places from 0 up (`Packed`). With a gap the scans of a CMG stop before
its last core, and visit a slot nobody filled.
-/
import A64fxHwb.Boot

set_option autoImplicit false

namespace A64fxHwb

open BitWord

variable {hw : Machine} {l : Load hw}

/-! ## What the table is for -/

/-- The CPUs of one CMG, of those that are online at load. -/
def Load.cores (l : Load hw) (c : Fin MAX_NUM_CMG) : List ℕ :=
  (for_each_cpu l.online).filter fun k => decide (hw.cmg k = c)

theorem Load.mem_cores (c : Fin MAX_NUM_CMG) (k : ℕ) :
    k ∈ l.cores c ↔ l.online.getLsbD k = true ∧ hw.cmg k = c := by
  simp [Load.cores]

/-- The scans of the device `d` find every core of the load `l`. -/
structure FindsEveryCore (l : Load hw) (d : a64fx_hwb_device) : Prop where
  /-- A scan of a CMG visits each of its cores once, and nothing else. -/
  scan : ∀ c, ((d.cmgs c).slots.map fun j => ((d.cmgs c).pe_map j).cpu_id).Perm
    ((l.cores c).map fun k : ℕ => (k : ℤ))
  /-- `get_pemap` returns the entry of every core. -/
  get_pemap : ∀ k, l.online.getLsbD k = true → ∃ j,
    get_pemap d (hw.cmg k) (hw.ppe k) = some j ∧ ((d.cmgs (hw.cmg k)).pe_map j).cpu_id = k
  /-- `cpumask_to_ppemask` translates every CPU of the CMG. -/
  cpumask_to_ppemask : ∀ c m p, (cpumask_to_ppemask (d.cmgs c) m).getLsbD p = true ↔
    ∃ k ∈ l.cores c, m.getLsbD k = true ∧ hw.ppe k = p
  /-- `init_cmgmask` puts exactly the CPUs of the CMG into its mask. -/
  init_cmgmask : ∀ c, ∃ cmg, init_cmgmask (d.cmgs c) = .ok cmg ∧
    ∀ k, cmg.cmgmask.getLsbD k = true ↔ k ∈ l.cores c

/-! ## Without a gap -/

/-- The visited slots of a packed table hold its cores, each of them once. -/
theorem scan_perm (hpk : Packed l) (c : Fin MAX_NUM_CMG) :
    (((loaded_device l).cmgs c).slots.map fun j =>
      (((loaded_device l).cmgs c).pe_map j).cpu_id).Perm
        ((l.cores c).map fun k : ℕ => (k : ℤ)) := by
  have ht := loaded_table hpk
  have hslots : ((loaded_device l).cmgs c).slots.Nodup :=
    List.Nodup.filter _ (List.nodup_finRange _)
  refine (List.perm_ext_iff_of_nodup ?_ ?_).mpr ?_
  · -- a core has one slot
    refine (List.nodup_map_iff_inj_on hslots).mpr fun j hj j' hj' heq => ?_
    rw [a64fx_cmg_device.mem_slots] at hj hj'
    obtain ⟨k, -, -, -, hcpu, -⟩ := ht.filled c j hj
    rw [(ht.slot_of_cpu_id hj hcpu).2.2, (ht.slot_of_cpu_id hj' (heq.symm.trans hcpu)).2.2]
  · exact List.Nodup.map (fun k k' h => by omega) ((nodup_bits _).filter _)
  · intro v
    simp only [List.mem_map, a64fx_cmg_device.mem_slots, Load.mem_cores]
    constructor
    · rintro ⟨j, hj, rfl⟩
      obtain ⟨k, hk, hc, -, hcpu, -⟩ := ht.filled c j hj
      exact ⟨k, ⟨hk, hc⟩, hcpu.symm⟩
    · rintro ⟨k, ⟨hk, rfl⟩, rfl⟩
      exact ⟨hw.slot k, ht.slot_lt hk, (ht.entry hk).1⟩

/-- **Without a gap every scan finds every core.** The number of CMGs and the CMG
numbers, which a load sets later, are not what the four scans read. -/
theorem findsEveryCore_of_packed (hpk : Packed l) :
    FindsEveryCore l (init_limits (filled l)) where
  scan c := scan_perm hpk c
  get_pemap k hk := by
    have ht := loaded_table hpk
    exact ⟨hw.slot k, get_pemap_online ht hk, (ht.entry hk).1⟩
  cpumask_to_ppemask c m p := by
    have hbits := getLsbD_cpumask_to_ppemask (loaded_table hpk) c m p
    rw [show cpumask_to_ppemask ((init_limits (filled l)).cmgs c) m =
      cpumask_to_ppemask ((loaded_device l).cmgs c) m from rfl, hbits]
    simp only [Load.mem_cores]
    constructor
    · rintro ⟨k, hm, hk, hc, hp⟩
      exact ⟨k, ⟨hk, hc⟩, hm, hp⟩
    · rintro ⟨k, ⟨hk, hc⟩, hm, hp⟩
      exact ⟨k, hm, hk, hc, hp⟩
  init_cmgmask c := by
    refine ⟨_, init_cmgmask_eq fun j hj => limits_cpu_id hpk c j hj, fun k => ?_⟩
    rw [Load.mem_cores]
    exact (loaded_table hpk).cmgmask c k

/-! ## With a gap -/

/-- A scan that visits exactly the cores of a CMG visits no empty slot, so the
visited slots, the first ones, are those of the cores. -/
theorem packed_of_findsEveryCore (h : FindsEveryCore l (init_limits (filled l))) : Packed l := by
  intro k hk p hp
  have hpres := l.online_present k hk
  have hp13 : p < MAX_PE_PER_CMG := lt_trans hp (hw.ppe_lt k hpres)
  have hscan : ∀ v : ℤ, (∃ j : Fin MAX_PE_PER_CMG,
      j.val < ((init_limits (filled l)).cmgs (hw.cmg k)).num_pes ∧
        (((filled l).cmgs (hw.cmg k)).pe_map j).cpu_id = v) ↔
      ∃ k', (l.online.getLsbD k' = true ∧ hw.cmg k' = hw.cmg k) ∧ (k' : ℤ) = v := by
    intro v
    have hmem := (h.scan (hw.cmg k)).mem_iff (a := v)
    simp only [List.mem_map, a64fx_cmg_device.mem_slots, Load.mem_cores] at hmem
    exact hmem
  -- the slot of `k` is visited
  obtain ⟨j, hj, hcpu⟩ := (hscan k).mpr ⟨k, ⟨hk, rfl⟩, rfl⟩
  have hslot : j.val = hw.ppe k := by
    rcases filled_entry l (hw.cmg k) j with ⟨k', hk', hc, hs, q, hq⟩ | ⟨-, hq⟩
    · rw [hq] at hcpu
      have hkk : k' = k := by
        have hval : (k' : ℤ) = k := hcpu
        omega
      subst hkk
      rw [← hs, Machine.slot_val hpres]
    · rw [hq] at hcpu
      change (-1 : ℤ) = k at hcpu
      omega
  -- and so is the one at `p`, which holds a core then
  obtain ⟨k', ⟨hk', -⟩, hcpu'⟩ := (hscan _).mp ⟨⟨p, hp13⟩, lt_trans (hslot ▸ hp) hj, rfl⟩
  rcases filled_entry l (hw.cmg k) ⟨p, hp13⟩ with ⟨k₁, hk₁, hc, hs, -⟩ | ⟨-, hq⟩
  · refine ⟨k₁, hk₁, hc, ?_⟩
    rw [← Machine.slot_val (l.online_present k₁ hk₁), hs]
  · rw [hq] at hcpu'
    change (k' : ℤ) = -1 at hcpu'
    omega

/-- **The core table finds every core exactly when no CMG has a gap.** -/
theorem core_table_iff (l : Load hw) :
    ∃ dev, (for_each_cpu l.online).foldlM (fill_pe_map hw) (clear_pe_maps oss_a64fx_hwb_device) =
        .ok dev ∧ (FindsEveryCore l (init_limits dev) ↔ Packed l) := by
  refine ⟨filled l, ?_, packed_of_findsEveryCore, findsEveryCore_of_packed⟩
  refine Loops.foldlM_eq_ok _ (fill hw) _ _ fun k hk d => fill_pe_map_eq d ?_
  exact l.online_present k ((mem_bits _ k).mp hk)

/-! ## A machine with a gap -/

namespace Gap

/-- Two CPUs on CMG 0, at the places 0 and 2. -/
def machine : Machine where
  peinfo k := if k = 0 then 0 else 2
  present := 0x3
  ppe_lt := by
    intro k _
    by_cases hk : k = 0
    · rw [if_pos hk]
      decide
    · rw [if_neg hk]
      decide
  distinct := by
    have h : ∀ k k' : Fin 64, (0x3 : cpumask_t).getLsbD k = true →
        (0x3 : cpumask_t).getLsbD k' = true →
        peinfo_ppe (if k.val = 0 then 0 else 2) = peinfo_ppe (if k'.val = 0 then 0 else 2) →
        k.val = k'.val := by
      decide +kernel
    intro k k' hk hk' _
    exact h ⟨k, BitVec.lt_of_getLsbD hk⟩ ⟨k', BitVec.lt_of_getLsbD hk'⟩ hk hk'

/-- A load with both CPUs online. -/
def load : Load machine where
  online := 0x3
  online_present := fun _ h => h
  misc_register := 0
  device_create_file := 0
  kobject_add := fun _ => 0
  sysfs_create_group := fun _ => 0

end Gap

/-- The second CPU is not found, and the empty slot before it is taken for one. -/
theorem gap_in_table : ∃ dev,
    (for_each_cpu Gap.load.online).foldlM (fill_pe_map Gap.machine)
      (clear_pe_maps oss_a64fx_hwb_device) = .ok dev ∧
    get_pemap (init_limits dev) (Gap.machine.cmg 1) (Gap.machine.ppe 1) = none ∧
    init_cmgmask ((init_limits dev).cmgs 0) = .error (.cpu_number (-1)) ∧
    ¬FindsEveryCore Gap.load (init_limits dev) := by
  refine ⟨filled Gap.load, ?_, ?_, ?_, fun h => ?_⟩
  · decide +kernel
  · decide +kernel
  · decide +kernel
  · obtain ⟨j, hj, -⟩ := h.get_pemap 1 (by decide)
    revert hj
    revert j
    decide +kernel

end A64fxHwb
