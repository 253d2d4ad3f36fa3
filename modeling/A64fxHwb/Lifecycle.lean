/-
Removing the module, and loading it again.

The data of the driver is gone with the module and starts anew with the next load, but the
registers are not: a load takes them as it finds them, and neither a load nor a removal
writes a window register. What a session leaves in the registers is what the next one
starts from.

The kernel removes the module only while no file of it is open. So when the processes have
closed what they opened, and no session ran into the slips that leave a window register
behind, every session starts as the first one did, and what is proved of one load holds in
all of them. A CPU that is offline at the removal keeps its access, and a window register
that is left valid is valid in the next session, which knows nothing of it.
-/
import A64fxHwb.Isolation
import A64fxHwb.Files
import A64fxHwb.Reset
import A64fxHwb.Ownership

set_option autoImplicit false

namespace A64fxHwb

open BitWord Runs

variable {hw : Machine} {l : Load hw} {R : hwb_regs → Prop}
variable {s s' : Kernel} {e : Event hw} {regs : hwb_regs}

/-! ## The module in the kernel -/

/-- No window register is valid, and no CPU gives access to the barrier registers. -/
structure SwitchedOff (regs : hwb_regs) : Prop where
  invalid : AllInvalid regs
  access : ∀ k, read_hwb_ctrl k regs = (0, 0)

/-- The module, not loaded, or loaded with its state and the open files. -/
inductive Module (hw : Machine)
  | absent (regs : hwb_regs)
  | live (l : Load hw) (s : Kernel) (files : List ℕ)

/-- What can happen to it. A removal sees the CPUs that are online then. -/
inductive ModuleEvent (hw : Machine)
  | insmod (l : Load hw)
  | request (e : Event hw)
  | rmmod (online : cpumask_t)

/-- One event. A load that fails returns a negative value. -/
inductive Module.Step : Module hw → ModuleEvent hw → Module hw → Prop
  | loads {regs : hwb_regs} {l : Load hw} {s : Kernel} (h : Loaded l regs s) :
      Step (.absent regs) (.insmod l) (.live l s [])
  | fails {regs : hwb_regs} {l : Load hw} {err : ℤ} {s : Kernel}
      (h : oss_a64fx_hwb_init l (boot regs) = .ok (err, s)) (hneg : err < 0) :
      Step (.absent regs) (.insmod l) (.absent s.regs)
  | serves {l : Load hw} {s s' : Kernel} {files files' : List ℕ} {e : Event hw}
      (h : (opened l SwitchedOff).step (s, files) e (s', files')) :
      Step (.live l s files) (.request e) (.live l s' files')
  -- an open file is a reference to the module (`.owner = THIS_MODULE`)
  | removed {l : Load hw} {s : Kernel} (online : cpumask_t) :
      Step (.live l s []) (.rmmod online) (.absent (oss_a64fx_hwb_exit online s).regs)

/-- Loads, requests and removals, from a machine that is switched off. -/
def lifecycle (hw : Machine) : TransitionSystem (Module hw) (ModuleEvent hw) where
  init m := ∃ regs, SwitchedOff regs ∧ m = .absent regs
  step := Module.Step

/-- No request leaks or makes one of the two slips, and the CPUs of the load are online at
the removal. -/
def WellUsed : Module hw → ModuleEvent hw → Prop
  | .live l s files, .request e => Tidy (s, files) e ∧ KeepsRegisters l s e
  | .live l _ _, .rmmod online => ∀ k, l.online.getLsbD k = true → online.getLsbD k = true
  | _, _ => True

/-- The state and the open files are those of a run of one load, from a machine that is
switched off. -/
def FirstSession (l : Load hw) : Kernel × List ℕ → Prop :=
  (opened l SwitchedOff).ReachableVia fun x e => Tidy x e ∧ KeepsRegisters l x.1 e

/-! ## The control register -/

/-- The loop over the CPUs gives each of them the same two bits. -/
theorem ctrl_foldl_access {v : ℤ} (hv : v = 0 ∨ v = 1) (ks : List ℕ) (regs : hwb_regs) (k : ℕ) :
    read_hwb_ctrl k (ks.foldl oss_a64fx_hwb_ctrl_func ({ el0ae := v, el1ae := v }, regs)).2 =
      if k ∈ ks then (v, v) else read_hwb_ctrl k regs := by
  have hread : ∀ cpu regs, read_hwb_ctrl cpu (write_hwb_ctrl cpu v v regs) = (v, v) := by
    intro cpu regs
    rw [read_write_hwb_ctrl]
    rcases hv with rfl | rfl
    · rfl
    · rfl
  induction ks generalizing regs with
  | nil => simp
  | cons cpu ks ih =>
      -- what is read back is what the next CPU gets
      have hstep : oss_a64fx_hwb_ctrl_func ({ el0ae := v, el1ae := v }, regs) cpu =
          ({ el0ae := v, el1ae := v }, write_hwb_ctrl cpu v v regs) := by
        unfold oss_a64fx_hwb_ctrl_func
        simp only [hread]
      rw [List.foldl_cons, hstep, ih]
      by_cases hmem : k ∈ ks
      · rw [if_pos hmem, if_pos (List.mem_cons_of_mem _ hmem)]
      · rw [if_neg hmem]
        by_cases hcpu : k = cpu
        · subst hcpu
          rw [if_pos List.mem_cons_self, hread]
        · rw [if_neg (by simp [hcpu, hmem]), read_write_hwb_ctrl_of_ne hcpu]

/-- A removal writes no window register. -/
theorem exit_assign_sync_wr (online : cpumask_t) (s : Kernel) :
    (oss_a64fx_hwb_exit online s).regs.assign_sync_wr = s.regs.assign_sync_wr :=
  (ctrl_foldl (for_each_cpu online) ({ el0ae := 0, el1ae := 0 }, s.regs)).2

/-- **A removal takes the access from the CPUs that are online.** -/
theorem exit_access (online : cpumask_t) (s : Kernel) (k : ℕ) :
    read_hwb_ctrl k (oss_a64fx_hwb_exit online s).regs =
      if online.getLsbD k = true then (0, 0) else read_hwb_ctrl k s.regs := by
  have hloop := ctrl_foldl_access (Or.inl rfl) (for_each_cpu online) s.regs k
  simp only [mem_bits] at hloop
  exact hloop

/-! ## The registers at a load -/

/-- The loop over `initialize_cmg` leaves the registers alone. -/
theorem initialize_cmgs_regs {is : List (Fin MAX_NUM_CMG)} {err err' : ℤ}
    (h : initialize_cmgs l is err s = .ok (err', s')) : s'.regs = s.regs := by
  induction is generalizing err s with
  | nil =>
      cases h
      rfl
  | cons i is ih =>
      rw [initialize_cmgs, Loops.bind_eq_ok] at h
      obtain ⟨⟨e, t⟩, hone, h⟩ := h
      have ht : t.regs = s.regs := by
        unfold initialize_cmg at hone
        simp only at hone
        rw [Loops.bind_eq_ok] at hone
        obtain ⟨cmg, -, hone⟩ := hone
        split_ifs at hone
        all_goals
          cases hone
          rfl
      simp only at h
      by_cases hneg : e < 0
      · rw [if_pos hneg] at h
        cases h
        exact ht
      · rw [if_neg hneg] at h
        rw [ih h, ht]

/-- A load gives access on the CPUs that are online and on no other. -/
theorem Loaded.access_iff (h : Loaded l regs s) (k : ℕ) :
    read_hwb_ctrl k s.regs =
      if l.online.getLsbD k = true then (1, 1) else read_hwb_ctrl k regs := by
  obtain ⟨err, t, hi, -, rfl⟩ := h.initialized
  have hloop := ctrl_foldl_access (Or.inr rfl) (for_each_cpu l.online) t.regs k
  rw [initialize_cmgs_regs hi] at hloop ⊢
  simp only [mem_bits] at hloop
  exact hloop

/-- A load that fails has not come to the registers. -/
theorem init_fails_regs {err : ℤ} (h : oss_a64fx_hwb_init l (boot regs) = .ok (err, s))
    (hneg : err < 0) : s.regs = regs := by
  unfold oss_a64fx_hwb_init at h
  by_cases hmisc : l.misc_register ≠ 0
  · rw [if_pos hmisc] at h
    cases h
    rfl
  by_cases hfile : l.device_create_file ≠ 0
  · rw [if_neg hmisc, if_pos hfile] at h
    cases h
    rfl
  rw [if_neg hmisc, if_neg hfile, Loops.bind_eq_ok] at h
  obtain ⟨dev, -, h⟩ := h
  rw [Loops.bind_eq_ok] at h
  obtain ⟨⟨err', t⟩, hinit, h⟩ := h
  have ht := initialize_cmgs_regs hinit
  simp only at h
  by_cases herr : err' < 0
  · rw [if_pos herr] at h
    cases h
    exact ht
  · rw [if_neg herr] at h
    injection h with h
    have heq := congrArg Prod.fst h
    simp only at heq
    omega

/-- One `initialize_cmg` reads no register. -/
theorem initialize_cmg_with_regs {i : Fin MAX_NUM_CMG} {err : ℤ}
    (h : initialize_cmg l i s = .ok (err, s')) (regs : hwb_regs) :
    initialize_cmg l i { s with regs := regs } = .ok (err, { s' with regs := regs }) := by
  unfold initialize_cmg at h ⊢
  simp only at h ⊢
  rw [Loops.bind_eq_ok] at h
  obtain ⟨cmg, hmask, h⟩ := h
  rw [hmask, Loops.ok_bind]
  split_ifs at h ⊢
  all_goals
    cases h
    rfl

theorem initialize_cmgs_with_regs {is : List (Fin MAX_NUM_CMG)} {err err' : ℤ}
    (h : initialize_cmgs l is err s = .ok (err', s')) (regs : hwb_regs) :
    initialize_cmgs l is err { s with regs := regs } = .ok (err', { s' with regs := regs }) := by
  induction is generalizing err s with
  | nil =>
      cases h
      rfl
  | cons i is ih =>
      rw [initialize_cmgs, Loops.bind_eq_ok] at h
      obtain ⟨⟨e, t⟩, hone, h⟩ := h
      rw [initialize_cmgs, initialize_cmg_with_regs hone regs, Loops.ok_bind]
      simp only at h ⊢
      by_cases hneg : e < 0
      · rw [if_pos hneg] at h ⊢
        cases h
        rfl
      · rw [if_neg hneg] at h ⊢
        exact ih h

/-- **A load that has succeeded once succeeds from any registers.** -/
theorem Loaded.again (h : Loaded l regs s) (regs' : hwb_regs) : ∃ s', Loaded l regs' s' := by
  unfold Loaded oss_a64fx_hwb_init at h ⊢
  by_cases hmisc : l.misc_register ≠ 0
  · rw [if_pos hmisc] at h
    injection h with h
    exact absurd (congrArg Prod.fst h) hmisc
  by_cases hfile : l.device_create_file ≠ 0
  · rw [if_neg hmisc, if_pos hfile] at h
    injection h with h
    exact absurd (congrArg Prod.fst h) hfile
  rw [if_neg hmisc, if_neg hfile, Loops.bind_eq_ok] at h
  obtain ⟨dev, hfill, h⟩ := h
  rw [Loops.bind_eq_ok] at h
  obtain ⟨⟨err, t⟩, hinit, h⟩ := h
  have hinit' := initialize_cmgs_with_regs hinit regs'
  simp only [boot] at hfill hinit' ⊢
  simp only [if_neg hmisc, if_neg hfile, hfill, hinit', Loops.ok_bind]
  simp only at h
  by_cases hneg : err < 0
  · rw [if_pos hneg] at h
    injection h with h
    have heq := congrArg Prod.fst h
    simp only at heq
    omega
  · rw [if_neg hneg] at h ⊢
    injection h with h
    have heq := congrArg Prod.fst h
    simp only at heq
    subst heq
    exact ⟨_, rfl⟩

/-! ## The registers within a session -/

section Steps

variable {c : Call hw} {ok : Kind → Prop}

/-- Only a reset writes a control register. -/
theorem Micro.hwb_ctrl (h : Micro l c ok s s') (hno : ¬ok .reset) :
    s'.regs.hwb_ctrl = s.regs.hwb_ctrl := by
  have harm : ∀ (cmg : Fin MAX_NUM_CMG) (blade : ℤ) (mask : BitVec 64),
      (arm_blade c cmg blade mask s).regs.hwb_ctrl = s.regs.hwb_ctrl := by
    intro cmg blade mask
    unfold arm_blade smp_call_function_any write_init_sync_bb
    split_ifs
    all_goals rfl
  have hset : ∀ cpu window valid blade : ℤ,
      (set_wr c cpu window valid blade s).regs.hwb_ctrl = s.regs.hwb_ctrl := by
    intro cpu window valid blade
    unfold set_wr smp_call_function_single write_assign_sync_wr
    split_ifs
    all_goals rfl
  cases h with
  | locks L n => rfl
  | count n => rfl
  | map_group hnew => rfl
  | unmap_group m hm hg hempty => rfl
  | take_blade m cmg b mask hm hg hb hfree => exact harm _ _ _
  | give_blade tm cmg a hg ha hc hempty => rfl
  | take_window tm a k w hg ha hk hc hmem hw4 hfree hok => exact hset _ _ _ _
  | give_window tm a k w wr wb hg ha hr hok => exact hset _ _ _ _
  | leave_blade tm cmg a hg ha => exact harm _ _ _
  | reset hreset => exact absurd hreset hno

/-- The window registers that are not in the table are never written. -/
theorem Micro.outside (hi : Inv l s.dev) (h : Micro l c ok s s') (hno : ¬ok .reset)
    (hre : ¬ok .reassign) {r : ℕ × ℕ}
    (hr : ¬(l.online.getLsbD r.1 = true ∧ r.2 < MAX_BW_PER_CMG)) :
    s'.regs.assign_sync_wr r.1 r.2 = s.regs.assign_sync_wr r.1 r.2 := by
  cases h.window_step hi with
  | same m hregs => rw [hregs]
  | acquires g a k w hg ha hk hc hw4 m hregs =>
      rw [hregs]
      apply set_wr_of_ne
      rintro rfl
      exact hr ⟨hk, hw4⟩
  | replaces hok => exact absurd hok hre
  | releases g a k w wr hg ha hrec hok m hregs =>
      rw [hregs]
      refine set_wr_of_ne k wr 0 0 s ?_
      rintro rfl
      -- a misdirected write goes to window 0
      have hw4 := (hi.sane g a ha).window_lt hrec
      refine hr ⟨hrec.1, ?_⟩
      rcases hok with rfl | ⟨rfl, -⟩
      · exact hw4
      · exact lt_of_le_of_lt (Nat.zero_le w) hw4
  | empties hreset => exact absurd hreset hno

end Steps

namespace FirstSession

variable {x : Kernel × List ℕ}

theorem keeps (h : FirstSession l x) :
    (driver l SwitchedOff).ReachableVia
      (fun s e => e.request ≠ .ioctl .RESET ∧ KeepsRegisters l s e) x.1 :=
  h.of_withHistory fun _ _ hC => ⟨hC.1.1.1, hC.2⟩

/-- **Exactly the CPUs that were online at load have access.** -/
theorem access (h : FirstSession l x) (k : ℕ) :
    read_hwb_ctrl k x.1.regs = if l.online.getLsbD k = true then (1, 1) else (0, 0) := by
  refine run_invariant (P := fun s => read_hwb_ctrl k s.regs =
    if l.online.getLsbD k = true then (1, 1) else (0, 0)) ?_ ?_ h.keeps
  · intro regs s hoff hload
    rw [hload.access_iff k, hoff.access k]
  · intro s e hC t t' _ ht hm
    rw [← ht]
    apply read_hwb_ctrl_congr
    rw [hm.hwb_ctrl hC.1]

theorem outside (h : FirstSession l x) (k w : ℕ)
    (hr : ¬(l.online.getLsbD k = true ∧ w < MAX_BW_PER_CMG)) : wr_valid x.1.regs k w = false := by
  refine run_invariant (P := fun s => wr_valid s.regs k w = false) ?_ ?_ h.keeps
  · intro regs s hoff hload
    unfold wr_valid
    rw [hload.spec.2.2.1]
    exact hoff.invalid k w
  · intro s e hC t t' hi ht hm
    have hsame := hm.outside hi hC.1 hC.2.2.1 (r := (k, w)) hr
    unfold wr_valid at ht ⊢
    rw [hsame]
    exact ht

theorem registersAgree (h : FirstSession l x) : RegistersAgree l x.1 := by
  have hrun : (driver l AllInvalid).ReachableVia (KeepsRegisters l) x.1 := by
    refine h.keeps.transfer ?_ ?_
    · rintro s ⟨regs, hoff, hload⟩
      exact ⟨regs, hoff.invalid, hload⟩
    · intro s e s' hC hstep
      exact ⟨hC.2, hstep⟩
  exact registersAgree_of_run hrun

theorem clean (h : FirstSession l x) (hfiles : x.2 = []) : Clean l x.1.dev :=
  clean_of_run (h.mono fun _ _ hC => hC.1) hfiles

/-- **Once every file is closed no window register is valid.** -/
theorem allInvalid (h : FirstSession l x) (hfiles : x.2 = []) : AllInvalid x.1.regs := by
  intro k w
  by_cases hr : l.online.getLsbD k = true ∧ w < MAX_BW_PER_CMG
  · apply Bool.eq_false_iff.mpr
    intro hvalid
    -- what is valid is recorded, and nothing is held
    obtain ⟨a, ha, -⟩ := h.registersAgree.valid k w hr.1 hr.2 hvalid
    obtain ⟨g, m, hm, -⟩ := mem_allocs.mp ha
    rw [(h.clean hfiles).task_list] at hm
    cases hm
  · exact h.outside k w hr

/-- The load of the session has succeeded. -/
theorem loaded (h : FirstSession l x) : ∃ regs s, Loaded l regs s := by
  refine h.invariant (P := fun _ => ∃ regs s, Loaded l regs s) ?_ fun _ _ _ _ hl _ _ => hl
  rintro ⟨s, files⟩ ⟨⟨regs, -, hload⟩, -⟩
  exact ⟨regs, s, hload⟩

end FirstSession

/-! ## Every session -/

/-- The module is in a state that a first session reaches, or everything is switched off. -/
def Module.Sound : Module hw → Prop
  | .absent regs => SwitchedOff regs
  | .live l s files => FirstSession l (s, files)

/-- One event of the module. -/
theorem Module.Step.sound {m m' : Module hw} {ev : ModuleEvent hw} (h : Module.Step m ev m')
    (hm : m.Sound) (hev : WellUsed m ev) : m'.Sound := by
  cases h with
  | loads hload => exact .init ⟨⟨_, hm, hload⟩, rfl⟩
  | fails hinit hneg =>
      rw [show (Module.absent _).Sound = SwitchedOff _ from rfl, init_fails_regs hinit hneg]
      exact hm
  | serves hstep => exact .step hm hev hstep
  | @removed l s online =>
      have hfirst : FirstSession l (s, []) := hm
      refine ⟨?_, fun k => ?_⟩
      · intro k w
        have hinvalid := hfirst.allInvalid rfl k w
        unfold wr_valid at hinvalid ⊢
        rw [exit_assign_sync_wr]
        exact hinvalid
      · rw [exit_access]
        by_cases hk : online.getLsbD k = true
        · rw [if_pos hk]
        · -- a CPU that is offline at the removal was offline at the load
          rw [if_neg hk, hfirst.access k, if_neg fun hl => hk (hev k hl)]

/-- Every run of the module. -/
theorem sound_of_run {m : Module hw} (h : (lifecycle hw).ReachableVia WellUsed m) : m.Sound := by
  refine h.invariant ?_ fun m ev m' _ hm hev hstep => Module.Step.sound hstep hm hev
  rintro m ⟨regs, hoff, rfl⟩
  exact hoff

/-- A load finds nothing held, whatever the registers say. -/
theorem not_registersAgree_of_stale {k w : ℕ} (hload : Loaded l regs s)
    (hk : l.online.getLsbD k = true) (hw4 : w < MAX_BW_PER_CMG)
    (hvalid : wr_valid regs k w = true) : ¬RegistersAgree l s := by
  intro hagree
  obtain ⟨hdev, -, hwr, -, -⟩ := hload.spec
  have hstill : wr_valid s.regs k w = true := by
    unfold wr_valid at hvalid ⊢
    rw [hwr]
    exact hvalid
  obtain ⟨a, ha, -⟩ := hagree.valid k w hk hw4 hstill
  obtain ⟨g, hheld⟩ := mem_allocs.mp ha
  rw [hdev] at hheld
  exact not_held_loaded hload.packed g a hheld

/-- **Every session is like the first one.** Whatever was loaded, failed to load and was
removed before, a module that is loaded is in a state of a run from a machine that is
switched off, so the registers and the bookkeeping agree, exactly the CPUs of the load
have access, and nothing is left once every file is closed; a removal switches everything
off, and the load succeeds again. A CPU of the load that is offline at the removal keeps its
access, and a window register that is valid at the removal is valid, and recorded nowhere,
after the next load. -/
theorem sessions_like_the_first :
    (∀ regs, (lifecycle hw).ReachableVia WellUsed (.absent regs) → SwitchedOff regs) ∧
      (∀ l s files, (lifecycle hw).ReachableVia WellUsed (.live l s files) →
        FirstSession l (s, files) ∧ BladeOwnership s.dev ∧ RegistersAgree l s ∧
          (∀ k, read_hwb_ctrl k s.regs = if l.online.getLsbD k = true then (1, 1) else (0, 0)) ∧
          (files = [] → Clean l s.dev ∧ AllInvalid s.regs ∧ ∀ online, ∃ s',
            (lifecycle hw).step (.absent (oss_a64fx_hwb_exit online s).regs) (.insmod l)
              (.live l s' []))) ∧
      (∀ l s online regs k, (lifecycle hw).ReachableVia WellUsed (.live l s []) →
        (lifecycle hw).step (.live l s []) (.rmmod online) (.absent regs) →
        l.online.getLsbD k = true → online.getLsbD k = false → read_hwb_ctrl k regs = (1, 1)) ∧
      ∀ l s online regs l' s' k w,
        (lifecycle hw).step (.live l s []) (.rmmod online) (.absent regs) →
        (lifecycle hw).step (.absent regs) (.insmod l') (.live l' s' []) →
        l'.online.getLsbD k = true → w < MAX_BW_PER_CMG → wr_valid s.regs k w = true →
        ¬RegistersAgree l' s' := by
  refine ⟨fun regs h => sound_of_run h, ?_, ?_, ?_⟩
  · intro l s files h
    have hfirst : FirstSession l (s, files) := sound_of_run h
    have hi := (reachable_inv hfirst.keeps.reachable).1
    refine ⟨hfirst, hi.bladeOwnership, hfirst.registersAgree, hfirst.access, ?_⟩
    intro hfiles
    refine ⟨hfirst.clean hfiles, hfirst.allInvalid hfiles, fun online => ?_⟩
    obtain ⟨regs, t, hload⟩ := hfirst.loaded
    obtain ⟨s', hagain⟩ := hload.again (oss_a64fx_hwb_exit online s).regs
    exact ⟨s', .loads hagain⟩
  · intro l s online regs k h hstep hk hoff
    have hfirst : FirstSession l (s, []) := sound_of_run h
    cases hstep
    rw [exit_access, if_neg (by rw [hoff]; exact Bool.false_ne_true), hfirst.access k]
    exact if_pos hk
  · intro l s online regs l' s' k w hremoved hloads hk hw4 hvalid
    cases hremoved
    cases hloads with
    | loads hload =>
        refine not_registersAgree_of_stale hload hk hw4 ?_
        unfold wr_valid at hvalid ⊢
        rw [exit_assign_sync_wr]
        exact hvalid

/-! ## Two sessions -/

section Computing

variable {es : List (Event hw)} {files files' : List ℕ}

theorem live_load (hok : succeeds l [] = true) :
    (lifecycle hw).ReachableVia WellUsed (.live l (after l []) []) := by
  have hoff : SwitchedOff hwb_regs.cleared := by
    refine ⟨fun _ _ => BitVec.getLsbD_zero, fun k => ?_⟩
    simp [read_hwb_ctrl, hwb_regs.cleared]
  obtain ⟨s, hload, hrun⟩ := run_of_succeeds hok
  rw [after_eq_of_run hload rfl]
  exact .step (.init ⟨_, hoff, rfl⟩) (show WellUsed _ (.insmod l) from trivial) (.loads hload)

theorem live_after (h : (lifecycle hw).ReachableVia WellUsed (.live l (after l es) files))
    (htidy : Tidy (after l es, files) e) (hkeeps : KeepsRegisters l (after l es) e)
    (hok : succeeds l (es ++ [e]) = true) (hrange : e.cmg_in_range = true)
    (hfiles : files' = e.files files) :
    (lifecycle hw).ReachableVia WellUsed (.live l (after l (es ++ [e])) files') :=
  .step h (show WellUsed _ (.request e) from ⟨htidy, hkeeps⟩)
    (.serves (opened_step_after hok hrange hfiles))

end Computing

/-- A plain event on the machine of four CPUs makes neither slip. -/
theorem keepsRegisters_of_plain {e : Event Quad.machine} (hplain : e.plain = true)
    (honline : e.call.online = 0xF) (s : Kernel) : KeepsRegisters Quad.load s e := by
  refine ⟨fun k hk => ?_, not_makes_of_plain hplain s .reassign (by decide),
    not_makes_of_plain hplain s .misdirected (by decide)⟩
  rw [honline]
  exact hk

/-- The process opens the device, gets a blade and a window, and closes it. -/
def one_session : List (Event Quad.machine) := one_file ++ [Quad.close Quad.first 0]

theorem one_session_live : (lifecycle Quad.machine).ReachableVia WellUsed
    (.live Quad.load (after Quad.load one_session) []) := by
  have h0 := live_load (l := Quad.load) (by decide +kernel)
  have h1 := live_after (e := Quad.open Quad.first 0) h0
    (tidy_of_plain (by decide) (Or.inl rfl)) (keepsRegisters_of_plain (by decide) rfl _)
    (by decide +kernel) (by decide) rfl
  have h2 := live_after (e := Quad.alloc Quad.first 0 0x3) h1
    (tidy_of_plain (by decide) (Or.inr (by decide)))
    (keepsRegisters_of_plain (by decide) rfl _) (by decide +kernel) (by decide) rfl
  have h3 := live_after (e := Quad.assign Quad.first 0 0 (-1)) h2
    (tidy_of_plain (by decide) (Or.inr (by decide)))
    (keepsRegisters_of_plain (by decide) rfl _) (by decide +kernel) (by decide) rfl
  refine live_after (e := Quad.close Quad.first 0) h3
    ⟨⟨nofun, fun _ => by decide⟩, ?_, ?_, nofun⟩
    ⟨fun _ hk => hk, nofun, nofun⟩ (by decide +kernel) (by decide) rfl
  · -- the thread of the mapping is the one that closes
    rintro ⟨-, -, m, hm, hpid⟩
    rw [one_file_task m (mem_of_get_taskmap hm).1] at hpid
    exact hpid rfl
  · rintro ⟨⟨arg, -, -, halloc, -⟩, -⟩
    cases halloc

/-- The module is removed after the session and loaded again, or removed while CPU 3 is
offline. In the last session a window is overwritten, and its register is still valid after
the next load. -/
theorem sessions_like_the_first_twice :
    (∃ s, (lifecycle Quad.machine).ReachableVia WellUsed (.live Quad.load s []) ∧
      s.regs.init_sync_bb 0 0 ≠ 0 ∧ RegistersAgree Quad.load s) ∧
    read_hwb_ctrl 3 (oss_a64fx_hwb_exit 0x7 (after Quad.load one_session)).regs = (1, 1) ∧
    ∃ s, Loaded Quad.load (oss_a64fx_hwb_exit 0xF (after Quad.load
      ((one_file ++ [Quad.assign Quad.first 0 0 2]) ++ [Quad.close Quad.first 0]))).regs s ∧
      ¬RegistersAgree Quad.load s := by
  obtain ⟨hoff, hlive, hcpu, hstale⟩ := @sessions_like_the_first Quad.machine
  obtain ⟨t, hload, -⟩ := @run_of_succeeds _ Quad.load [] (by decide +kernel)
  refine ⟨?_, ?_, ?_⟩
  · have hremoved : (lifecycle Quad.machine).ReachableVia WellUsed
        (.absent (oss_a64fx_hwb_exit 0xF (after Quad.load one_session)).regs) :=
      .step one_session_live
        (show WellUsed _ (.rmmod 0xF) from fun _ hk => hk) (.removed 0xF)
    obtain ⟨s, hs⟩ := hload.again (oss_a64fx_hwb_exit 0xF (after Quad.load one_session)).regs
    have hsecond : (lifecycle Quad.machine).ReachableVia WellUsed (.live Quad.load s []) :=
      .step hremoved (show WellUsed _ (.insmod Quad.load) from trivial) (.loads hs)
    refine ⟨s, hsecond, ?_, (hlive _ _ _ hsecond).2.2.1⟩
    rw [hs.spec.2.1]
    decide +kernel
  · exact hcpu Quad.load _ 0x7 _ 3 one_session_live (.removed 0x7) (by decide) (by decide)
  · obtain ⟨s, hs⟩ := hload.again (oss_a64fx_hwb_exit 0xF (after Quad.load
      ((one_file ++ [Quad.assign Quad.first 0 0 2]) ++ [Quad.close Quad.first 0]))).regs
    refine ⟨s, hs, hstale Quad.load _ 0xF _ Quad.load s 0 0 (.removed 0xF) (.loads hs) ?_ ?_ ?_⟩
    · decide
    · decide
    · decide +kernel

end A64fxHwb
