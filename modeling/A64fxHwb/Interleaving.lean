/-
Requests while the module loads.

Until `num_cmgs` is set no mask is accepted. From then on a CMG that `initialize_cmg`
has not come to carries the number 0, whichever it is, and its `bb_active` is still to be
cleared: a BB_ALLOC there gets a blade under a wrong number, or one that is handed out
again. `Careful` says which steps keep out of this, and `loading_harmless` that these
are the ones that do no harm.
-/
import A64fxHwb.Harm
import A64fxHwb.Loading

set_option autoImplicit false

namespace A64fxHwb

open BitWord Runs

variable {hw : Machine} {l : Load hw} {R : hwb_regs → Prop} {e : Event hw} {s s' : Kernel}
variable {d d' : a64fx_hwb_device} {i : Fin MAX_NUM_CMG} {a : a64fx_task_allocation}

/-! ## The invariant -/

/-- The entries of CPUs have the CMG of the CPU. -/
def Located (hw : Machine) (d : a64fx_hwb_device) : Prop :=
  ∀ (i : Fin MAX_NUM_CMG) (j : Fin MAX_PE_PER_CMG) (k : ℕ),
    ((d.cmgs i).pe_map j).cpu_id = k → ((d.cmgs i).pe_map j).cmg_id = (hw.cmg k).val

/-- What holds of the table: there are no CMGs to scan at first. -/
def Phase.Tabled (hw : Machine) (d : a64fx_hwb_device) : Phase → Prop
  | .registered => d.num_cmgs = 0
  | .filling _ => d.num_cmgs = 0 ∧ Located hw d
  | _ => Located hw d

theorem not_mem_check_cpumask_pes (h : d.num_cmgs = 0) (pe : a64fx_core_mapping) :
    pe ∉ check_cpumask_pes d := by
  simp [check_cpumask_pes, h]

theorem Located.sited (h : Located hw d) : Sited hw d := by
  intro pe hpe k hk
  obtain ⟨i, -, hpe⟩ := List.mem_flatMap.mp hpe
  obtain ⟨j, -, rfl⟩ := List.mem_map.mp hpe
  exact h i j k hk

theorem Phase.Tabled.sited {p : Phase} (h : p.Tabled hw d) : Sited hw d := by
  have hnil : d.num_cmgs = 0 → Sited hw d := fun h0 pe hpe =>
    absurd hpe (not_mem_check_cpumask_pes h0 pe)
  cases p with
  | registered => exact hnil h
  | filling cpus => exact hnil h.1
  | initializing rest => exact Located.sited h
  | loaded => exact Located.sited h
  | failed rest => exact Located.sited h

theorem Located.same (h : SameTable d d') (hd : Located hw d) : Located hw d' := by
  intro i j k hk
  rw [(h.pe i j).1] at hk
  rw [(h.pe i j).2.1]
  exact hd i j k hk

theorem Phase.Tabled.same {p : Phase} (h : SameTable d d') (hd : p.Tabled hw d) :
    p.Tabled hw d' := by
  cases p with
  | registered => exact h.num_cmgs.trans hd
  | filling cpus => exact ⟨h.num_cmgs.trans hd.1, hd.2.same h⟩
  | initializing rest => exact Located.same h hd
  | loaded => exact Located.same h hd
  | failed rest => exact Located.same h hd

/-- **What holds between two steps.** A CMG that `initialize_cmg` has not been called
for has the number 0, and none of them but CMG 0 has a blade that is taken. -/
structure Midway (hw : Machine) (x : Kernel × Phase) : Prop where
  todo : x.2.todo.Nodup
  number : ∀ i, (x.1.dev.cmgs i).cmg_id = if i ∈ x.2.todo then 0 else (i.val : ℤ)
  fresh : ∀ i ∈ x.2.todo, i ≠ 0 → ∀ b, x.1.dev.bb i b = false
  num_bb : x.1.dev.num_bb_per_cmg ≤ MAX_BB_PER_CMG
  tabled : x.2.Tabled hw x.1.dev
  harmless : Harmless hw x.1.dev

theorem Midway.numbered_or_fresh {x : Kernel × Phase} (h : Midway hw x) (i : Fin MAX_NUM_CMG) :
    (x.1.dev.cmgs i).cmg_id = i.val ∨ ∀ b, x.1.dev.bb i b = false := by
  by_cases hi : i ∈ x.2.todo
  · by_cases h0 : i = 0
    · rw [h.number i, if_pos hi, h0]
      exact Or.inl rfl
    · exact Or.inr (h.fresh i hi h0)
  · rw [h.number i, if_neg hi]
    exact Or.inl rfl

theorem midway_boot (regs : hwb_regs) : Midway hw (boot regs, .registered) where
  todo := List.nodup_finRange _
  number i := (if_pos (List.mem_finRange i)).symm
  fresh _ _ _ _ := BitVec.getLsbD_zero
  num_bb := Nat.zero_le _
  tabled := rfl
  harmless := ⟨List.nodup_nil, fun _ ha => absurd ha List.not_mem_nil⟩

/-! ## The steps that touch no blade -/

/-- The step has nothing to do with the lists, the numbers and the bitmaps. -/
structure Aside (d d' : a64fx_hwb_device) : Prop where
  task_list : d'.task_list = d.task_list
  cmg : ∀ i, (d'.cmgs i).cmg_id = (d.cmgs i).cmg_id ∧ (d'.cmgs i).bb_active = (d.cmgs i).bb_active

theorem Midway.aside {p p' : Phase} (h : Midway hw (s, p)) (hd : Aside s.dev s'.dev)
    (htodo : p'.todo = p.todo) (hnum : s'.dev.num_bb_per_cmg ≤ MAX_BB_PER_CMG)
    (htab : p'.Tabled hw s'.dev) : Midway hw (s', p') := by
  have hbb : ∀ i b, s'.dev.bb i b = s.dev.bb i b := by
    intro i b
    rw [a64fx_hwb_device.bb, a64fx_hwb_device.bb, (hd.cmg i).2]
  have hallocs : s'.dev.allocs = s.dev.allocs := by
    rw [a64fx_hwb_device.allocs, a64fx_hwb_device.allocs, hd.task_list]
  constructor
  · rw [htodo]
    exact h.todo
  · intro i
    rw [htodo, (hd.cmg i).1]
    exact h.number i
  · intro i hi h0 b
    rw [htodo] at hi
    rw [hbb]
    exact h.fresh i hi h0 b
  · exact hnum
  · exact htab
  · constructor
    · rw [a64fx_hwb_device.places, hallocs]
      exact h.harmless.distinct
    · intro a ha
      rw [hallocs] at ha
      obtain ⟨i, hcpus, hcmg, hbit⟩ := h.harmless.marked a ha
      exact ⟨i, hcpus, hcmg, (hbb i _).trans hbit⟩

theorem aside_clear (d : a64fx_hwb_device) :
    Aside d (clear_pe_maps d) ∧ Located hw (clear_pe_maps d) := by
  refine ⟨⟨rfl, fun _ => ⟨rfl, rfl⟩⟩, fun i j k hk => ?_⟩
  have hclear : (-1 : ℤ) = k := hk
  omega

/-- `fill_pe_map`, when it returns: the entry it writes is that of its CPU. -/
theorem aside_fill {k : ℕ} (h : fill_pe_map hw d k = .ok d') : Aside d d' ∧
    d'.num_cmgs = d.num_cmgs ∧ d'.num_bb_per_cmg = d.num_bb_per_cmg ∧
      (Located hw d → Located hw d') := by
  unfold fill_pe_map at h
  simp only [Machine.read_peinfo, Loops.bind_eq_ok] at h
  obtain ⟨j, -, h⟩ := h
  cases h
  refine ⟨⟨rfl, fun i => ?_⟩, rfl, rfl, fun hd i j' k' => ?_⟩
  · rw [a64fx_hwb_device.with_cmg]
    by_cases hi : i = hw.cmg k
    · subst hi
      simp only [Function.update_self]
      exact ⟨rfl, rfl⟩
    · simp only [Function.update_of_ne hi]
      exact ⟨trivial, trivial⟩
  · rw [a64fx_hwb_device.with_cmg]
    by_cases hi : i = hw.cmg k
    · subst hi
      simp only [Function.update_self, a64fx_cmg_device.with_pe]
      by_cases hj : j' = j
      · subst hj
        simp only [Function.update_self]
        intro hk
        have hkk : k = k' := by exact_mod_cast hk
        rw [hkk]
      · simp only [Function.update_of_ne hj]
        exact hd _ j' k'
    · simp only [Function.update_of_ne hi]
      exact hd i j' k'

theorem aside_limits (d : a64fx_hwb_device) : Aside d (init_limits d) ∧
    (init_limits d).num_bb_per_cmg = MAX_BB_PER_CMG ∧
      (Located hw d → Located hw (init_limits d)) :=
  ⟨⟨rfl, fun _ => ⟨rfl, rfl⟩⟩, rfl, fun hd => hd⟩

/-! ## The steps that do -/

theorem Midway.sheds {p : Phase} (h : Midway hw (s, p)) (hsheds : Sheds hw s.dev s'.dev) :
    Midway hw (s', p) where
  todo := h.todo
  number i := by
    rw [(hsheds.table.cmg i).1]
    exact h.number i
  fresh i hi h0 b := by
    by_contra hbit
    have hold := hsheds.cleared i b (Bool.eq_true_of_not_eq_false hbit)
    rw [h.fresh i hi h0 b] at hold
    cases hold
  num_bb := by
    rw [hsheds.table.num_bb]
    exact h.num_bb
  tabled := h.tabled.same hsheds.table
  harmless := hsheds.harmless h.harmless h.numbered_or_fresh

/-- A blade that is taken on a CMG with the right number. -/
theorem Midway.adds {p : Phase} (h : Midway hw (s, p)) (hadds : Adds i a s.dev s'.dev)
    (hnum : (s.dev.cmgs i).cmg_id = i.val) (hharmless : Harmless hw s'.dev) :
    Midway hw (s', p) where
  todo := h.todo
  number i' := by
    rw [(hadds.table.cmg i').1]
    exact h.number i'
  fresh i' hi h0 b := by
    by_contra hbit
    rcases (hadds.bb i' b).mp (Bool.eq_true_of_not_eq_false hbit) with hold | ⟨rfl, -⟩
    · rw [h.fresh i' hi h0 b] at hold
      cases hold
    · have hzero := h.number i'
      rw [if_pos hi, hnum] at hzero
      exact h0 (by exact_mod_cast hzero)
  num_bb := by
    rw [hadds.table.num_bb]
    exact h.num_bb
  tabled := h.tabled.same hadds.table
  harmless := hharmless

/-- There is one CMG and one mask. -/
theorem Event.Takes.unique {i' : Fin MAX_NUM_CMG} {mask mask' : cpumask_t} {b b' : ℕ}
    (h : e.Takes s i mask b) (h' : e.Takes s i' mask' b') : i = i' ∧ mask = mask' := by
  obtain ⟨arg, ioc, he, -, hmask, hcheck, -⟩ := h
  obtain ⟨arg', ioc', he', -, hmask', hcheck', -⟩ := h'
  rw [he] at he'
  cases he'
  rw [hmask] at hmask'
  cases hmask'
  rw [hcheck] at hcheck'
  exact ⟨Fin.ext (by exact_mod_cast hcheck'), rfl⟩

/-- The blade that is taken was free, and one CPU of the mask lies on the CMG. -/
theorem Event.Takes.free {mask : cpumask_t} {b : ℕ} (h : e.Takes s i mask b) (hs : Sited hw s.dev)
    (hnum : s.dev.num_bb_per_cmg ≤ MAX_BB_PER_CMG) :
    s.dev.bb i b = false ∧ ∃ k, mask.getLsbD k = true ∧ hw.cmg k = i := by
  obtain ⟨arg, ioc, -, -, -, hcheck, hreg⟩ := h
  constructor
  · have hlt := lt_of_lt_of_le hreg.lt hnum
    rw [← hreg.blade] at hlt ⊢
    exact (firstZero_spec hlt).1
  · have hcheck' : 0 ≤ check_cpumask e.call.online s.dev mask := by
      rw [hcheck]
      omega
    obtain ⟨k, hk, heq⟩ := hs.accepted hcheck'
    rw [hcheck] at heq
    exact ⟨k, hk, Fin.ext (by exact_mod_cast heq.symm)⟩

/-- **A BB_ALLOC that takes a blade does no harm exactly if the CMG carries its own
number and all CPUs of the mask lie there.** -/
theorem Midway.takes_iff {p : Phase} (h : Midway hw (s, p)) {mask : cpumask_t} {b : ℕ}
    (ht : e.Takes s i mask b) (hcmg : a.cmg = u8 (s.dev.cmgs i).cmg_id) (hb : a.blade = b)
    (hcpus : a.cpumask = mask) (hadds : Adds i a s.dev s'.dev) :
    Harmless hw s'.dev ↔
      (s.dev.cmgs i).cmg_id = i.val ∧ ∀ k, mask.getLsbD k = true → hw.cmg k = i := by
  obtain ⟨hfree, hcpu⟩ := ht.free h.tabled.sited h.num_bb
  have hi4 : i.val < 4 := i.isLt
  rw [← hb] at hfree
  rw [← hcpus] at hcpu ⊢
  rw [hadds.harmless_iff h.harmless hfree hcpu, hcmg]
  have hnumber : u8 (s.dev.cmgs i).cmg_id = i.val ↔ (s.dev.cmgs i).cmg_id = i.val := by
    have hn := h.number i
    simp only at hn
    split_ifs at hn
    · rw [hn]
      unfold u8
      omega
    · rw [hn]
      unfold u8
      omega
  rw [hnumber]

/-- CMG `i` gets its number, and all its blades are free. -/
structure Numbers (i : Fin MAX_NUM_CMG) (d d' : a64fx_hwb_device) : Prop where
  task_list : d'.task_list = d.task_list
  num_bb : d'.num_bb_per_cmg = d.num_bb_per_cmg
  number : ∀ i', (d'.cmgs i').cmg_id = if i' = i then (i.val : ℤ) else (d.cmgs i').cmg_id
  bb : ∀ i' b, d'.bb i' b = true ↔ d.bb i' b = true ∧ i' ≠ i
  pe_map : ∀ i', (d'.cmgs i').pe_map = (d.cmgs i').pe_map

theorem numbers_of_initialize_cmg {err : ℤ} (h : initialize_cmg l i s = .ok (err, s')) :
    Numbers i s.dev s'.dev := by
  obtain ⟨cmg, hmask, hdev⟩ := initialize_cmg_dev h
  obtain ⟨mask, rfl⟩ := init_cmgmask_writes hmask
  have hself : s'.dev.cmgs i =
      { s.dev.cmgs i with bb_active := 0, cmg_id := i.val, cmgmask := mask } := by
    rw [hdev]
    exact Function.update_self i _ _
  have hother : ∀ i', i' ≠ i → s'.dev.cmgs i' = s.dev.cmgs i' := by
    intro i' hi
    rw [hdev]
    exact Function.update_of_ne hi _ _
  refine ⟨by rw [hdev]; rfl, by rw [hdev]; rfl, fun i' => ?_, fun i' b => ?_, fun i' => ?_⟩
  · by_cases hi : i' = i
    · rw [if_pos hi, hi, hself]
    · rw [if_neg hi, hother i' hi]
  · rw [a64fx_hwb_device.bb, a64fx_hwb_device.bb]
    by_cases hi : i' = i
    · rw [hi, hself]
      exact ⟨fun hbit => absurd hbit (by simp), fun hbit => absurd rfl hbit.2⟩
    · rw [hother i' hi]
      exact ⟨fun hbit => ⟨hbit, hi⟩, fun hbit => hbit.1⟩
  · by_cases hi : i' = i
    · rw [hi, hself]
    · rw [hother i' hi]

/-- **An `initialize_cmg` does no harm exactly if no allocation names its CMG.** -/
theorem Numbers.harmless_iff (h : Numbers i d d') (hd : Harmless hw d) :
    Harmless hw d' ↔ ∀ a ∈ d.allocs, a.cmg ≠ i.val := by
  have hallocs : d'.allocs = d.allocs := by
    rw [a64fx_hwb_device.allocs, a64fx_hwb_device.allocs, h.task_list]
  constructor
  · intro hd' a ha hcmg
    rw [← hallocs] at ha
    obtain ⟨i', -, hcmg', hbit⟩ := hd'.marked a ha
    exact ((h.bb i' _).mp hbit).2 (Fin.ext (hcmg'.symm.trans hcmg))
  · intro hnone
    constructor
    · rw [a64fx_hwb_device.places, hallocs]
      exact hd.distinct
    · intro a ha
      rw [hallocs] at ha
      obtain ⟨i', hcpus, hcmg, hbit⟩ := hd.marked a ha
      refine ⟨i', hcpus, hcmg, (h.bb i' _).mpr ⟨hbit, ?_⟩⟩
      rintro rfl
      exact hnone a ha hcmg

theorem Midway.numbers {rest : List (Fin MAX_NUM_CMG)} {p : Phase}
    (h : Midway hw (s, .initializing (i :: rest))) (hn : Numbers i s.dev s'.dev)
    (htodo : p.todo = rest) (htab : Located hw s'.dev → p.Tabled hw s'.dev)
    (hharmless : Harmless hw s'.dev) : Midway hw (s', p) := by
  have hnodup : (i :: rest).Nodup := h.todo
  have hi : i ∉ rest := (List.nodup_cons.mp hnodup).1
  have hlocated : Located hw s.dev := h.tabled
  constructor
  · rw [htodo]
    exact (List.nodup_cons.mp hnodup).2
  · intro i'
    rw [htodo, hn.number i']
    by_cases hii : i' = i
    · rw [if_pos hii, hii, if_neg hi]
    · have hold : (s.dev.cmgs i').cmg_id = if i' ∈ i :: rest then 0 else (i'.val : ℤ) := h.number i'
      rw [if_neg hii, hold]
      simp only [List.mem_cons, hii, false_or]
  · intro i' hi' h0 b
    rw [htodo] at hi'
    by_contra hbit
    have hold := ((hn.bb i' b).mp (Bool.eq_true_of_not_eq_false hbit)).1
    rw [h.fresh i' (List.mem_cons_of_mem _ hi') h0 b] at hold
    cases hold
  · rw [hn.num_bb]
    exact h.num_bb
  · refine htab fun i' j k hk => ?_
    rw [hn.pe_map] at hk ⊢
    exact hlocated i' j k hk
  · exact hharmless

/-! ## Every interleaving -/

/-- The step keeps out of the way: an `initialize_cmg` comes to a CMG that no live
allocation names, and a BB_ALLOC takes a blade only where the CMG has its own number
already and all CPUs of the mask lie. -/
def Careful (x : Kernel × Phase) : LoadEvent hw → Prop
  | .initialize_cmg i => ∀ a ∈ x.1.dev.allocs, a.cmg ≠ i.val
  | .request e => ∀ i mask b, e.Takes x.1 i mask b →
      (x.1.dev.cmgs i).cmg_id = i.val ∧ ∀ k, mask.getLsbD k = true → hw.cmg k = i
  | _ => True

/-- **One step.** It does no harm exactly if it is careful, and then all that holds
between two steps holds after it. -/
theorem Midway.step {x y : Kernel × Phase} {ev : LoadEvent hw} (h : Midway hw x)
    (hstep : LoadStep l x ev y) :
    (Harmless hw y.1.dev ↔ Careful x ev) ∧ (Careful x ev → Midway hw y) := by
  -- for the steps that are always careful the second half is enough
  have halways : Careful x ev → Midway hw y →
      (Harmless hw y.1.dev ↔ Careful x ev) ∧ (Careful x ev → Midway hw y) :=
    fun hc hy => ⟨⟨fun _ => hc, fun _ => hy.harmless⟩, fun _ => hy⟩
  cases hstep with
  | @clear s hfile =>
      obtain ⟨haside, hlocated⟩ := @aside_clear hw s.dev
      exact halways trivial (h.aside haside rfl h.num_bb ⟨h.tabled, hlocated⟩)
  | @fill s cpus cpu dev hcpu hfill =>
      obtain ⟨haside, hnum, hbb, hlocated⟩ := aside_fill hfill
      have htabled : s.dev.num_cmgs = 0 ∧ Located hw s.dev := h.tabled
      refine halways trivial (h.aside haside rfl ?_ ⟨hnum.trans htabled.1, hlocated htabled.2⟩)
      exact hbb.trans_le h.num_bb
  | @limits s =>
      obtain ⟨haside, hbb, hlocated⟩ := @aside_limits hw s.dev
      have htabled : s.dev.num_cmgs = 0 ∧ Located hw s.dev := h.tabled
      exact halways trivial (h.aside haside rfl hbb.le (hlocated htabled.2))
  | @initialize_cmg s s' i rest err hinit =>
      have hn := numbers_of_initialize_cmg hinit
      refine ⟨hn.harmless_iff h.harmless, fun hc => ?_⟩
      have hharmless := (hn.harmless_iff h.harmless).mpr hc
      by_cases hneg : err < 0
      · rw [if_pos hneg]
        exact h.numbers hn rfl id hharmless
      · rw [if_neg hneg]
        exact h.numbers hn rfl id hharmless
  | @enable s => exact halways trivial (h.aside ⟨rfl, fun _ => ⟨rfl, rfl⟩⟩ rfl h.num_bb h.tabled)
  | @request s s' p e reply he hh =>
      rcases adds_or_sheds he h.harmless.orderly h.tabled.sited h.num_bb hh with
        ⟨i, mask, b, a, ht, hcmg, hb, hcpus, hadds⟩ | ⟨hno, hsheds⟩
      · have hiff := h.takes_iff ht hcmg hb hcpus hadds
        have hcareful : Careful (s, p) (.request e) ↔
            (s.dev.cmgs i).cmg_id = i.val ∧ ∀ k, mask.getLsbD k = true → hw.cmg k = i := by
          refine ⟨fun hc => hc i mask b ht, fun hc i' mask' b' ht' => ?_⟩
          obtain ⟨rfl, rfl⟩ := ht.unique ht'
          exact hc
        rw [hcareful]
        exact ⟨hiff, fun hc => h.adds hadds hc.1 (hiff.mpr hc)⟩
      · exact halways (fun i mask b ht => absurd ht (hno i mask b)) (h.sheds hsheds)

theorem loading_midway {x : Kernel × Phase} (h : (loading l R).ReachableVia Careful x) :
    Midway hw x := by
  refine h.invariant ?_ fun x ev y _ hx hc hstep => (hx.step hstep).2 hc
  rintro x ⟨-, regs, -, rfl⟩
  exact midway_boot regs

/-- **A load and requests in any order do no harm while the steps are careful**, and the
first step that is not does some. -/
theorem loading_harmless {x : Kernel × Phase} (h : (loading l R).ReachableVia Careful x) :
    Harmless hw x.1.dev ∧
      ∀ ev y, LoadStep l x ev y → (Harmless hw y.1.dev ↔ Careful x ev) := by
  have hmidway := loading_midway h
  exact ⟨hmidway.harmless, fun ev y hstep => (hmidway.step hstep).1⟩

/-- Until `num_cmgs` is set, no BB_ALLOC takes a blade. -/
theorem takes_nothing {mask : cpumask_t} {b : ℕ} (h : s.dev.num_cmgs = 0) :
    ¬e.Takes s i mask b := by
  rintro ⟨arg, ioc, -, -, -, hcheck, -⟩
  have hnil := not_mem_check_cpumask_pes h
  have hcheck' : 0 ≤ check_cpumask e.call.online s.dev mask := by
    rw [hcheck]
    omega
  obtain ⟨k, -, pe, hpe, -⟩ := check_cpumask_entry (fun pe hpe => absurd hpe (hnil pe)) hcheck'
  exact hnil pe hpe

/-- From then on, which requests are careful depends on the CMGs that are still to come:
CMG 0 has its number from the start. -/
theorem Midway.careful_request_iff {p : Phase} (h : Midway hw (s, p)) :
    Careful (s, p) (.request e) ↔ ∀ i mask b, e.Takes s i mask b →
      (i ∈ p.todo → i = 0) ∧ ∀ k, mask.getLsbD k = true → hw.cmg k = i := by
  have hnumber : ∀ i, (s.dev.cmgs i).cmg_id = (i.val : ℤ) ↔ (i ∈ p.todo → i = 0) := by
    intro i
    have hn : (s.dev.cmgs i).cmg_id = if i ∈ p.todo then 0 else (i.val : ℤ) := h.number i
    rw [hn]
    by_cases hi : i ∈ p.todo
    · rw [if_pos hi]
      constructor
      · intro h0 _
        exact_mod_cast h0.symm
      · intro h0
        rw [h0 hi]
        rfl
    · rw [if_neg hi]
      exact ⟨fun _ hi' => absurd hi' hi, fun _ => rfl⟩
  constructor
  · intro hc i mask b ht
    obtain ⟨hn, hcpus⟩ := hc i mask b ht
    exact ⟨(hnumber i).mp hn, hcpus⟩
  · intro hall i mask b ht
    obtain ⟨hn, hcpus⟩ := hall i mask b ht
    exact ⟨(hnumber i).mpr hn, hcpus⟩

/-- The event is no `initialize_cmg` and no BB_ALLOC. -/
def LoadEvent.idle : LoadEvent hw → Bool
  | .initialize_cmg _ => false
  | .request e =>
    match e.request with
    | .ioctl (.BB_ALLOC _) => false
    | _ => true
  | _ => true

theorem careful_of_idle {ev : LoadEvent hw} (h : ev.idle = true) (x : Kernel × Phase) :
    Careful x ev := by
  cases ev with
  | initialize_cmg i => cases h
  | request e =>
      rintro i mask b ⟨arg, ioc, he, -⟩
      unfold LoadEvent.idle at h
      simp only [he] at h
      cases h
  | _ => trivial

/-! ## Two processes on one blade -/

namespace Quad

/-- The load has come to the loop over `initialize_cmg` when a process opens the device,
and has not left CMG 0 behind yet. -/
def first_come : List (LoadEvent machine) :=
  [.clear, .fill 2, .fill 0, .fill 3, .fill 1, .limits, .request («open» first 0)]

/-- It takes blade 0 of CMG 0, which `initialize_cmg` then gives back for it, so that
another process gets it as well. -/
def two_on_one : List (LoadEvent machine) :=
  first_come ++ [.request (alloc first 0 0x3), .initialize_cmg 0, .request («open» other 2),
    .request (alloc other 2 0xC)]

end Quad

/-- What the first steps lead to does no harm, and the next is known. -/
theorem loading_harmless_first_come : ∃ x, load_run Quad.load Quad.first_come = some x ∧
    Harmless Quad.machine x.1.dev ∧
      ∀ ev y, LoadStep Quad.load x ev y → (Harmless Quad.machine y.1.dev ↔ Careful x ev) := by
  have hok : (load_run Quad.load Quad.first_come).isSome = true := by decide +kernel
  obtain ⟨x, hx⟩ := Option.isSome_iff_exists.mp hok
  refine ⟨x, hx, loading_harmless (R := fun _ => True) ?_⟩
  have hidle : ∀ ev ∈ Quad.first_come, ev.idle = true := by decide
  exact reachableVia_load_run trivial rfl (fun ev hev => careful_of_idle (hidle ev hev)) hx

/-- **Requests during the load can do harm**: two live allocations name blade 0 of CMG
0. -/
theorem loading_harms : ∃ x, (loading Quad.load fun _ => True).Reachable x ∧
    ¬Harmless Quad.machine x.1.dev := by
  have hplaces : (load_run Quad.load Quad.two_on_one).map (fun x => x.1.dev.places) =
      some [(0, 0), (0, 0)] := by decide +kernel
  obtain ⟨x, hx, hdev⟩ := Option.map_eq_some_iff.mp hplaces
  refine ⟨x, reachableVia_load_run trivial rfl (fun _ _ _ => trivial) hx, fun hharmless => ?_⟩
  have hdistinct := hharmless.distinct
  rw [hdev] at hdistinct
  exact absurd hdistinct (by decide)

end A64fxHwb
