/-
Which masks `check_cpumask` accepts.

The comment of the function asks for a mask with at least two CPUs, all of them
online and all of one CMG. The loops test the first two for every CPU, but the CMG
only for a CPU they find in the core table: a CPU that came online after the load has
no entry, passes through no branch, and is accepted next to one that has
(`check_cpumask_iff`). So the check is exact but for masks that mix the two kinds.
-/
import A64fxHwb.Execution

set_option autoImplicit false

namespace A64fxHwb

open BitWord Runs

variable {hw : Machine} {l : Load hw} {d : a64fx_hwb_device} {R : hwb_regs → Prop} {s : Kernel}

/-! ## Legal masks -/

/-- CPU `k` is a core of CMG `c` according to the core table. -/
def IsCore (d : a64fx_hwb_device) (c : Fin MAX_NUM_CMG) (k : ℕ) : Prop :=
  ∃ j ∈ (d.cmgs c).slots, ((d.cmgs c).pe_map j).cpu_id = k

/-- What the comment of `check_cpumask` asks for. -/
structure LegalMask (online : cpumask_t) (d : a64fx_hwb_device) (c : Fin MAX_NUM_CMG)
    (m : cpumask_t) : Prop where
  weight : 2 ≤ cpumask_weight m
  online : ∀ k, m.getLsbD k = true → online.getLsbD k = true
  cores : ∀ k, m.getLsbD k = true → IsCore d c k

/-- The check returns the CMG of a legal mask, and a negative value for any other. -/
structure ChecksExactly (online : cpumask_t) (d : a64fx_hwb_device) (m : cpumask_t) : Prop where
  accepts : ∀ c : Fin MAX_NUM_CMG, check_cpumask online d m = c.val ↔ LegalMask online d c m
  refuses : (∀ c, ¬LegalMask online d c m) → check_cpumask online d m < 0

/-- At least two CPUs, all online. One of them is a core of CMG `c` and none is a core of
another, but one of them has no entry in the table. -/
structure PartlyKnown (online : cpumask_t) (d : a64fx_hwb_device) (c : Fin MAX_NUM_CMG)
    (m : cpumask_t) : Prop where
  weight : 2 ≤ cpumask_weight m
  online : ∀ k, m.getLsbD k = true → online.getLsbD k = true
  agree : ∀ c' k, m.getLsbD k = true → IsCore d c' k → c' = c
  known : ∃ k, m.getLsbD k = true ∧ IsCore d c k
  unknown : ∃ k, m.getLsbD k = true ∧ ∀ c', ¬IsCore d c' k

/-- The cores of a CMG are the CPUs that sit on it and were online at load. -/
theorem isCore_iff (ht : Table l d) (c : Fin MAX_NUM_CMG) (k : ℕ) :
    IsCore d c k ↔ l.online.getLsbD k = true ∧ hw.cmg k = c := by
  constructor
  · rintro ⟨j, hj, hcpu⟩
    rw [a64fx_cmg_device.mem_slots] at hj
    obtain ⟨hon, hc, -⟩ := ht.slot_of_cpu_id hj hcpu
    exact ⟨hon, hc⟩
  · rintro ⟨hon, rfl⟩
    refine ⟨hw.slot k, ?_, (ht.entry hon).1⟩
    rw [a64fx_cmg_device.mem_slots]
    exact ht.slot_lt hon

/-! ## The loops, when the entries agree -/

/-- One entry: the CMG is not found yet, or it is `c`, before and after. -/
theorem check_cpumask_pe_agrees {cpu : ℕ} {pe : a64fx_core_mapping} {v c : ℤ}
    (hv : v = -1 ∨ v = c) (hpe : pe.cpu_id = cpu → pe.cmg_id = c) :
    ∃ t, check_cpumask_pe cpu v pe = .ok t ∧ (t = -1 ∨ t = c) := by
  unfold check_cpumask_pe
  by_cases hcpu : pe.cpu_id = cpu
  · have hfirst : (if v < 0 then c else v) = c := by
      split_ifs <;> omega
    refine ⟨c, ?_, Or.inr rfl⟩
    simp only [if_pos hcpu, hpe hcpu, hfirst]
    rw [if_neg fun hne => hne rfl]
  · exact ⟨v, if_neg hcpu, hv⟩

/-- One CPU: the walk of the table gets to its end. -/
theorem check_cpumask_cpu_agrees {online : cpumask_t} {cpu : ℕ} {v c : ℤ}
    (hon : online.getLsbD cpu = true) (hv : v = -1 ∨ v = c)
    (hpes : ∀ pe ∈ check_cpumask_pes d, pe.cpu_id = cpu → pe.cmg_id = c) :
    ∃ t, check_cpumask_cpu online d v cpu = .ok t ∧ (t = -1 ∨ t = c) := by
  unfold check_cpumask_cpu
  rw [if_neg (by simp [hon])]
  obtain ⟨t, hrun, -, ht⟩ := Loops.foldlM_list
    (fun (pes : List a64fx_core_mapping) (v : ℤ) =>
      (∀ pe ∈ pes, pe.cpu_id = cpu → pe.cmg_id = c) ∧ (v = -1 ∨ v = c))
    (check_cpumask_pe cpu) (check_cpumask_pes d) v ⟨hpes, hv⟩ fun pe pes v h => by
      obtain ⟨t, hstep, ht⟩ := check_cpumask_pe_agrees h.2 (h.1 pe List.mem_cons_self)
      exact ⟨t, hstep, fun pe' hpe' => h.1 pe' (List.mem_cons_of_mem _ hpe'), ht⟩
  exact ⟨t, hrun, ht⟩

/-- All CPUs. -/
theorem check_cpumask_cpus_agrees {online : cpumask_t} {ks : List ℕ} {c : ℤ}
    (hall : ∀ k ∈ ks, online.getLsbD k = true ∧
      ∀ pe ∈ check_cpumask_pes d, pe.cpu_id = k → pe.cmg_id = c) :
    ∃ t, ks.foldlM (check_cpumask_cpu online d) (-1) = .ok t ∧ (t = -1 ∨ t = c) := by
  obtain ⟨t, hrun, -, ht⟩ := Loops.foldlM_list
    (fun (ks : List ℕ) (v : ℤ) => (∀ k ∈ ks, online.getLsbD k = true ∧
      ∀ pe ∈ check_cpumask_pes d, pe.cpu_id = k → pe.cmg_id = c) ∧ (v = -1 ∨ v = c))
    (check_cpumask_cpu online d) ks (-1) ⟨hall, Or.inl rfl⟩ fun k ks v h => by
      obtain ⟨hon, hpes⟩ := h.1 k List.mem_cons_self
      obtain ⟨t, hstep, ht⟩ := check_cpumask_cpu_agrees hon h.2 hpes
      exact ⟨t, hstep, fun k' hk' => h.1 k' (List.mem_cons_of_mem _ hk'), ht⟩
  exact ⟨t, hrun, ht⟩

/-! ## The check -/

/-- **What `check_cpumask` accepts**: two CPUs at least, all of them online, and those of
them that were online at load all on the CMG it returns, of which there is one. -/
theorem check_cpumask_iff (ht : Table l d) (online m : cpumask_t) (c : Fin MAX_NUM_CMG) :
    check_cpumask online d m = c.val ↔ 2 ≤ cpumask_weight m ∧
      (∀ k, m.getLsbD k = true → online.getLsbD k = true) ∧
      (∀ k, m.getLsbD k = true → l.online.getLsbD k = true → hw.cmg k = c) ∧
      ∃ k, m.getLsbD k = true ∧ l.online.getLsbD k = true := by
  constructor
  · intro h
    have hnonneg : 0 ≤ check_cpumask online d m := by
      rw [h]
      omega
    obtain ⟨c', heq, hweight, hon, hcmg, hknown⟩ := check_cpumask_sound ht hnonneg
    have hcc : c' = c := by
      rw [heq] at h
      exact Fin.ext (by omega)
    subst hcc
    exact ⟨hweight, hon, hcmg, hknown⟩
  · rintro ⟨hweight, hon, hcmg, k, hk, hknown⟩
    -- an entry of a CPU of the mask is an entry of CMG `c`
    have hpes : ∀ k, m.getLsbD k = true → ∀ pe ∈ check_cpumask_pes d, pe.cpu_id = k →
        pe.cmg_id = c.val := by
      intro k hk pe hpe hcpu
      obtain ⟨i, j, hj, rfl⟩ := (mem_check_cpumask_pes ht pe).mp hpe
      obtain ⟨hlo, hi, rfl⟩ := ht.slot_of_cpu_id hj hcpu
      subst hi
      rw [(ht.entry hlo).2.1, hcmg k hk hlo]
    have hall : ∀ k ∈ for_each_cpu m, online.getLsbD k = true ∧
        ∀ pe ∈ check_cpumask_pes d, pe.cpu_id = k → pe.cmg_id = c.val := fun k hk =>
      ⟨hon k ((mem_bits m k).mp hk), hpes k ((mem_bits m k).mp hk)⟩
    obtain ⟨t, hrun, -⟩ := check_cpumask_cpus_agrees hall
    -- the CPU that is known has set it
    have hset : t = c.val := by
      obtain ⟨hcpu, hcmgid, -⟩ := ht.entry hknown
      have hmem : (d.cmgs (hw.cmg k)).pe_map (hw.slot k) ∈ check_cpumask_pes d :=
        (mem_check_cpumask_pes ht _).mpr ⟨hw.cmg k, hw.slot k, ht.slot_lt hknown, rfl⟩
      have hnonneg : ∀ pe ∈ check_cpumask_pes d, ∀ k : ℕ, pe.cpu_id = k → 0 ≤ pe.cmg_id := by
        intro pe hpe _ _
        obtain ⟨i, j, hj, rfl⟩ := (mem_check_cpumask_pes ht pe).mp hpe
        obtain ⟨_, -, -, -, -, hid, -⟩ := ht.filled i j hj
        omega
      rw [((check_cpumask_cpus_ok hnonneg hrun).2.1 k ((mem_bits m k).mpr hk)).2 _ hmem hcpu,
        hcmgid, hcmg k hk hknown]
    unfold check_cpumask
    rw [if_neg (not_lt.mpr hweight), hrun]
    exact hset

/-- A value that is not the number of a CMG is negative. -/
theorem check_cpumask_neg (ht : Table l d) {online m : cpumask_t}
    (h : ∀ c : Fin MAX_NUM_CMG, check_cpumask online d m ≠ c.val) :
    check_cpumask online d m < 0 := by
  by_contra hneg
  obtain ⟨c, heq, -⟩ := check_cpumask_sound ht (not_lt.mp hneg)
  exact h c heq

theorem legalMask_iff (ht : Table l d) (online m : cpumask_t) (c : Fin MAX_NUM_CMG) :
    LegalMask online d c m ↔
      check_cpumask online d m = c.val ∧ ∀ k, m.getLsbD k = true → l.online.getLsbD k = true := by
  rw [check_cpumask_iff ht]
  constructor
  · rintro ⟨hweight, hon, hcores⟩
    have hlo := fun k hk => (isCore_iff ht c k).mp (hcores k hk)
    -- two CPUs are at least one
    have hne : m ≠ 0 := by
      rintro rfl
      rw [cpumask_weight, weight_zero] at hweight
      omega
    obtain ⟨k, hk⟩ := exists_getLsbD_of_ne_zero hne
    exact ⟨⟨hweight, hon, fun k hk _ => (hlo k hk).2, k, hk, (hlo k hk).1⟩,
      fun k hk => (hlo k hk).1⟩
  · rintro ⟨⟨hweight, hon, hcmg, -⟩, hlo⟩
    exact ⟨hweight, hon, fun k hk => (isCore_iff ht c k).mpr ⟨hlo k hk, hcmg k hk (hlo k hk)⟩⟩

theorem partlyKnown_iff (ht : Table l d) (online m : cpumask_t) (c : Fin MAX_NUM_CMG) :
    PartlyKnown online d c m ↔
      check_cpumask online d m = c.val ∧ ∃ k, m.getLsbD k = true ∧ l.online.getLsbD k = false := by
  rw [check_cpumask_iff ht]
  constructor
  · rintro ⟨hweight, hon, hagree, ⟨k, hk, hcore⟩, k', hk', hno⟩
    refine ⟨⟨hweight, hon, fun x hx hlo => ?_, k, hk, ((isCore_iff ht c k).mp hcore).1⟩, k', hk',
      ?_⟩
    · exact hagree _ x hx ((isCore_iff ht _ x).mpr ⟨hlo, rfl⟩)
    · exact Bool.eq_false_iff.mpr fun hlo => hno _ ((isCore_iff ht _ k').mpr ⟨hlo, rfl⟩)
  · rintro ⟨⟨hweight, hon, hcmg, k, hk, hlo⟩, k', hk', hoff⟩
    refine ⟨hweight, hon, fun c' x hx hcore => ?_, ⟨k, hk, ?_⟩, k', hk', fun c' hcore => ?_⟩
    · obtain ⟨hx', rfl⟩ := (isCore_iff ht c' x).mp hcore
      exact hcmg x hx hx'
    · exact (isCore_iff ht c k).mpr ⟨hlo, hcmg k hk hlo⟩
    · have hon' := ((isCore_iff ht c' k').mp hcore).1
      rw [hoff] at hon'
      exact Bool.noConfusion hon'

/-- **The check is exact but for masks the table knows in part.** -/
theorem checks_exactly_iff (h : (driver l R).Reachable s) (online m : cpumask_t) :
    ChecksExactly online s.dev m ↔ ∀ c, ¬PartlyKnown online s.dev c m := by
  have ht : Table l s.dev := (reachable_inv h).1.table
  constructor
  · intro hexact c hpart
    obtain ⟨heq, k, hk, hoff⟩ := (partlyKnown_iff ht online m c).mp hpart
    have hlegal := (hexact.accepts c).mp heq
    rw [((legalMask_iff ht online m c).mp hlegal).2 k hk] at hoff
    exact Bool.noConfusion hoff
  · intro hno
    have haccepts : ∀ c : Fin MAX_NUM_CMG,
        check_cpumask online s.dev m = c.val ↔ LegalMask online s.dev c m := by
      intro c
      rw [legalMask_iff ht]
      refine ⟨fun heq => ⟨heq, fun k hk => ?_⟩, fun hlegal => hlegal.1⟩
      by_contra hoff
      exact hno c ((partlyKnown_iff ht online m c).mpr
        ⟨heq, k, hk, Bool.not_eq_true _ ▸ hoff⟩)
    exact ⟨haccepts, fun hnone => check_cpumask_neg ht fun c heq =>
      hnone c ((haccepts c).mp heq)⟩

/-- On four CPUs of one CMG. -/
theorem checks_exactly_quad : ChecksExactly 0xF (after Quad.load []).dev 0x3 := by
  have hreach : (driver Quad.load fun _ => True).Reachable (after Quad.load []) :=
    reachable_after trivial (by decide +kernel) (by decide)
  refine (checks_exactly_iff hreach 0xF 0x3).mpr fun c hpart => ?_
  obtain ⟨-, k, hk, hoff⟩ := (partlyKnown_iff (reachable_inv hreach).1.table 0xF 0x3 c).mp hpart
  have hsub : ∀ k : Fin 64, (0x3 : cpumask_t).getLsbD k = true →
      (0xF : cpumask_t).getLsbD k = true := by decide
  have hon : (0xF : cpumask_t).getLsbD k = true := hsub ⟨k, BitVec.lt_of_getLsbD hk⟩ hk
  have hoff' : (0xF : cpumask_t).getLsbD k = false := hoff
  rw [hon] at hoff'
  exact Bool.noConfusion hoff'

/-! ## A CPU that came online late -/

/-- CPU 2 of CMG 1 is accepted next to the CPUs of CMG 0. -/
theorem late_cpu_accepted :
    (driver Late.load fun _ => True).Reachable (after Late.load []) ∧
      check_cpumask 0xF (after Late.load []).dev 0x7 = 0 ∧
      ¬ChecksExactly 0xF (after Late.load []).dev 0x7 := by
  have hreach : (driver Late.load fun _ => True).Reachable (after Late.load []) :=
    reachable_after trivial (by decide +kernel) (by decide)
  have hzero : check_cpumask 0xF (after Late.load []).dev 0x7 = 0 := by decide +kernel
  refine ⟨hreach, hzero, fun hexact => ?_⟩
  have hlegal := (hexact.accepts 0).mp hzero
  have hlo := ((legalMask_iff (reachable_inv hreach).1.table 0xF 0x7 0).mp hlegal).2 2 (by decide)
  exact absurd hlo (by decide)

end A64fxHwb
