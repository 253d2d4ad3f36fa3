/-
The window registers against the bookkeeping.

A window register names the blade its window is assigned to, so the registers of
all CPUs are a third copy of the window pool. They mirror it as long as every
operation writes the register of the window it is about, and two do not: a
reassignment leaves the register of the window it overwrites as it was, and a
BB_FREE of another thread than the one in the mapping clears register 0 whatever
window is recorded. Without the two the registers mirror the pool in every state,
and after either of them they do not. A RESET has cleared the registers of every
CPU when it returns here; `Deferred` does without that.
-/
import A64fxHwb.Windows

set_option autoImplicit false

namespace A64fxHwb

open BitWord Runs

variable {hw : Machine} {l : Load hw} {c : Call hw} {ok : Kind → Prop}
variable {s s' : Kernel} {e : Event hw} {regs regs' : hwb_regs}

/-! ## Reading a window register -/

/-- The place a window register names. Only the registers of the PEs of the
table are looked at. -/
def named (l : Load hw) (regs : hwb_regs) (r : ℕ × ℕ) : Option (ℕ × ℕ) :=
  if l.online.getLsbD r.1 = true ∧ r.2 < MAX_BW_PER_CMG ∧ wr_valid regs r.1 r.2 = true
  then some ((hw.cmg r.1).val, wr_blade regs r.1 r.2)
  else none

theorem named_eq_some {r p : ℕ × ℕ} : named l regs r = some p ↔
    l.online.getLsbD r.1 = true ∧ r.2 < MAX_BW_PER_CMG ∧ wr_valid regs r.1 r.2 = true ∧
      (hw.cmg r.1).val = p.1 ∧ wr_blade regs r.1 r.2 = p.2 := by
  unfold named
  by_cases h : l.online.getLsbD r.1 = true ∧ r.2 < MAX_BW_PER_CMG ∧ wr_valid regs r.1 r.2 = true
  · rw [if_pos h, Option.some_inj, Prod.ext_iff]
    exact ⟨fun hp => ⟨h.1, h.2.1, h.2.2, hp⟩, fun hp => hp.2.2.2⟩
  · rw [if_neg h]
    constructor
    · intro hp
      cases hp
    · intro hp
      exact absurd ⟨hp.1, hp.2.1, hp.2.2.1⟩ h

theorem named_of_invalid {r : ℕ × ℕ} (h : wr_valid regs r.1 r.2 = false) :
    named l regs r = none := by
  unfold named
  rw [if_neg]
  rw [h]
  exact fun h' => Bool.noConfusion h'.2.2

/-- Only the register itself is read. -/
theorem named_congr {r : ℕ × ℕ} (h : regs'.assign_sync_wr r.1 r.2 = regs.assign_sync_wr r.1 r.2) :
    named l regs' r = named l regs r := by
  unfold named wr_valid wr_blade
  rw [h]

/-- The fields of the value that is written for a window that is taken, -/
theorem assign_sync_wr_val_valid {b : ℕ} (hb : b < MAX_BB_PER_CMG) :
    (assign_sync_wr_val 1 b).getLsbD A64FX_HWB_ASSIGN_VALID_BIT = true ∧
      (assign_sync_wr_val 1 b &&& A64FX_HWB_ASSIGN_BB_MASK).toNat = b := by
  have h : ∀ b : Fin 6, (assign_sync_wr_val 1 b.val).getLsbD A64FX_HWB_ASSIGN_VALID_BIT = true ∧
      (assign_sync_wr_val 1 b.val &&& A64FX_HWB_ASSIGN_BB_MASK).toNat = b.val := by decide
  exact h ⟨b, hb⟩

/-- and for one that is given back. -/
theorem assign_sync_wr_val_zero : assign_sync_wr_val 0 0 = 0 := by decide

/-! ## What the writes do -/

/-- A write to one register leaves the others alone. -/
theorem update_wr_of_ne {f : ℕ → ℕ → BitVec 64} {k w : ℕ} {v : BitVec 64} {r : ℕ × ℕ}
    (hne : r ≠ (k, w)) : Function.update f k (Function.update (f k) w v) r.1 r.2 = f r.1 r.2 := by
  by_cases hk : r.1 = k
  · rw [hk, Function.update_self, Function.update_of_ne]
    exact fun hw' => hne (Prod.ext hk hw')
  · rw [Function.update_of_ne hk]

/-- The loop of a reset over windows of a CPU. -/
theorem reset_windows (cpu : ℕ) (ws : List ℕ) (hws : ∀ w ∈ ws, w < MAX_BW_PER_CMG)
    (regs : hwb_regs) :
    ws.foldl (fun regs (i : ℕ) =>
        (write_bst_sync_wr cpu i 0 (write_assign_sync_wr cpu i 0 0 regs).2).2) regs =
      { regs with
        assign_sync_wr := Function.update regs.assign_sync_wr cpu
          fun w => if w ∈ ws then 0 else regs.assign_sync_wr cpu w
        bst_sync_wr := Function.update regs.bst_sync_wr cpu
          fun w => if w ∈ ws then 0 else regs.bst_sync_wr cpu w } := by
  induction ws generalizing regs with
  | nil => simp
  | cons i ws ih =>
      have hi4 : i < 4 := hws i List.mem_cons_self
      -- both writes are in range
      have hstep : (write_bst_sync_wr cpu i 0 (write_assign_sync_wr cpu i 0 0 regs).2).2 =
          { regs with
            assign_sync_wr := Function.update regs.assign_sync_wr cpu
              (Function.update (regs.assign_sync_wr cpu) i 0)
            bst_sync_wr := Function.update regs.bst_sync_wr cpu
              (Function.update (regs.bst_sync_wr cpu) i 0) } := by
        have hrange : ¬((i : ℤ) < 0 ∨ (i : ℤ) ≥ MAX_BW_PER_CMG) := by
          show ¬((i : ℤ) < 0 ∨ (i : ℤ) ≥ 4)
          omega
        have hrange' : ¬((i : ℤ) < 0 ∨ (i : ℤ) ≥ MAX_BW_PER_CMG ∨ (0 : ℤ) < 0 ∨
            (0 : ℤ) ≥ MAX_BB_PER_CMG) := by
          show ¬((i : ℤ) < 0 ∨ (i : ℤ) ≥ 4 ∨ (0 : ℤ) < 0 ∨ (0 : ℤ) ≥ 6)
          omega
        unfold write_bst_sync_wr write_assign_sync_wr
        rw [if_neg hrange, if_neg hrange', assign_sync_wr_val_zero]
        rfl
      -- a window is cleared by this write or by a later one
      have hrow : ∀ row : ℕ → BitVec 64,
          (fun w => if w ∈ ws then 0 else Function.update row i 0 w) =
            fun w => if w ∈ i :: ws then 0 else row w := by
        intro row
        funext w
        by_cases hw' : w = i
        · subst hw'
          simp
        · simp [hw']
      rw [List.foldl_cons, ih fun w hw' => hws w (List.mem_cons_of_mem _ hw'), hstep]
      simp only [Function.update_self, Function.update_idem, hrow]

/-- The loop of a reset over the blades writes nothing: the mask is empty. -/
theorem reset_blades (cpu : ℕ) (bs : List ℕ) (regs : hwb_regs) :
    bs.foldl (fun regs (i : ℕ) => (write_init_sync_bb hw cpu i 0 regs).2) regs = regs := by
  induction bs generalizing regs with
  | nil => rfl
  | cons b bs ih =>
      rw [List.foldl_cons]
      unfold write_init_sync_bb
      rw [if_pos (Or.inr (Or.inr rfl))]
      exact ih regs

/-- **What `asm_reset_func` writes**: registers of the CPU it runs on, and nothing else. -/
theorem asm_reset_func_eq (cpu : ℕ) (regs : hwb_regs) :
    asm_reset_func hw cpu regs = write_hwb_ctrl cpu 0 0
      { regs with
        assign_sync_wr := Function.update regs.assign_sync_wr cpu
          fun w => if w < MAX_BW_PER_CMG then 0 else regs.assign_sync_wr cpu w
        bst_sync_wr := Function.update regs.bst_sync_wr cpu
          fun w => if w < MAX_BW_PER_CMG then 0 else regs.bst_sync_wr cpu w } := by
  have h := reset_windows cpu (List.range MAX_BW_PER_CMG) (fun w hw' => List.mem_range.mp hw') regs
  simp only [List.mem_range] at h
  unfold asm_reset_func
  simp only [reset_blades]
  rw [h]

theorem asm_reset_func_assign_sync_wr (cpu : ℕ) (regs : hwb_regs) (k w : ℕ) :
    (asm_reset_func hw cpu regs).assign_sync_wr k w =
      if k = cpu ∧ w < MAX_BW_PER_CMG then 0 else regs.assign_sync_wr k w := by
  simp only [asm_reset_func_eq, write_hwb_ctrl]
  by_cases hk : k = cpu
  · subst hk
    simp only [Function.update_self, true_and]
  · rw [Function.update_of_ne hk, if_neg fun h => hk h.1]

/-- **A reset clears the window registers** of the CPUs it has run on when it returns, and no
other. -/
theorem reset_assign_sync_wr (late : cpumask_t) (s : Kernel) (k w : ℕ) :
    (on_each_cpu c (asm_reset_func hw) late s).regs.assign_sync_wr k w =
      if (c.online.getLsbD k = true ∧ late.getLsbD k = false) ∧ w < MAX_BW_PER_CMG then 0
      else s.regs.assign_sync_wr k w := by
  have hwalk : ∀ (ks : List ℕ) (regs : hwb_regs),
      (ks.foldl (fun regs cpu => asm_reset_func hw cpu regs) regs).assign_sync_wr k w =
        if k ∈ ks ∧ w < MAX_BW_PER_CMG then 0 else regs.assign_sync_wr k w := by
    intro ks
    induction ks with
    | nil =>
        intro regs
        rw [if_neg fun h => List.not_mem_nil h.1]
        rfl
    | cons cpu ks ih =>
        intro regs
        rw [List.foldl_cons, ih, asm_reset_func_assign_sync_wr]
        by_cases hks : k ∈ ks ∧ w < MAX_BW_PER_CMG
        · rw [if_pos hks, if_pos ⟨List.mem_cons_of_mem _ hks.1, hks.2⟩]
        · rw [if_neg hks]
          by_cases hcpu : k = cpu ∧ w < MAX_BW_PER_CMG
          · rw [if_pos hcpu, if_pos ⟨List.mem_cons.mpr (Or.inl hcpu.1), hcpu.2⟩]
          · rw [if_neg hcpu, if_neg]
            rintro ⟨hmem, hw4⟩
            rcases List.mem_cons.mp hmem with hk | hk
            · exact hcpu ⟨hk, hw4⟩
            · exact hks ⟨hk, hw4⟩
  unfold on_each_cpu
  rw [hwalk]
  simp only [mem_for_each_cpu_on_time]

/-- With no CPU late it is every CPU that is online. -/
theorem reset_assign_sync_wr_online (s : Kernel) (k w : ℕ) :
    (on_each_cpu c (asm_reset_func hw) 0 s).regs.assign_sync_wr k w =
      if c.online.getLsbD k = true ∧ w < MAX_BW_PER_CMG then 0
      else s.regs.assign_sync_wr k w := by
  have hnone : (0 : cpumask_t).getLsbD k = false := BitVec.getLsbD_zero
  rw [reset_assign_sync_wr]
  simp only [hnone, and_true]

/-! ## The registers mirror the pool -/

/-- Every PE of the table is online during the call. -/
def Event.TableOnline (l : Load hw) (e : Event hw) : Prop :=
  ∀ k, l.online.getLsbD k = true → e.call.online.getLsbD k = true

/-- **A small step without the two slips keeps the registers a mirror.** -/
theorem Micro.mirrors (hi : Inv l s.dev) (h : Micro l c ok s s')
    (hon : ∀ k, l.online.getLsbD k = true → c.online.getLsbD k = true) (hre : ¬ok .reassign)
    (hmis : ¬ok .misdirected) (hm : (A64fxHwb.windows l s.dev).Mirrors (named l s.regs)) :
    (A64fxHwb.windows l s'.dev).Mirrors (named l s'.regs) := by
  cases h.window_step hi with
  | same m hregs =>
      have hsame : named l s'.regs = named l s.regs := by
        funext r
        apply named_congr
        rw [hregs]
      rw [hsame]
      exact m.mirrors hm
  | acquires g a k w hg ha hk hc hw4 m hregs =>
      -- the one register that is written names the place of the allocation
      have hb := (hi.sane g a ha).blade_lt
      have hwr := set_wr_assign_sync_wr (hon k hk) hw4 hb 1 s
      rw [← hregs] at hwr
      refine m.mirrors hi.windows_sound hm ?_ fun r hne => named_congr ?_
      · obtain ⟨hvalid, hblade⟩ := assign_sync_wr_val_valid hb
        rw [named_eq_some]
        unfold wr_valid wr_blade
        rw [hwr]
        simp only [Function.update_self]
        exact ⟨hk, hw4, hvalid, hc, hblade⟩
      · rw [hwr]
        exact update_wr_of_ne hne
  | replaces hok => exact absurd hok hre
  | releases g a k w wr hg ha hr hok m hregs =>
      -- the register that is cleared is the one of the recorded window
      have hwrw : wr = w := hok.resolve_right fun h' => hmis h'.2
      subst hwrw
      have hw4 := (hi.sane g a ha).window_lt hr
      have hwr := set_wr_assign_sync_wr (b := 0) (hon k hr.1) hw4 (by decide) 0 s
      rw [show ((0 : ℕ) : ℤ) = 0 from rfl, ← hregs] at hwr
      refine m.mirrors hm (named_of_invalid ?_) fun r hne => named_congr ?_
      · unfold wr_valid
        rw [hwr]
        simp only [Function.update_self, assign_sync_wr_val_zero]
        exact BitVec.getLsbD_zero
      · rw [hwr]
        exact update_wr_of_ne hne
  | empties _ m hregs =>
      -- a reset clears the registers on every PE of the table, since all are online
      refine m.mirrors fun r => ?_
      by_cases hr : l.online.getLsbD r.1 = true ∧ r.2 < MAX_BW_PER_CMG
      · apply named_of_invalid
        unfold wr_valid
        rw [hregs, reset_assign_sync_wr_online, if_pos ⟨hon r.1 hr.1, hr.2⟩]
        exact BitVec.getLsbD_zero
      · unfold named
        rw [if_neg fun h' => hr ⟨h'.1, h'.2.1⟩]

/-! ## Agreement -/

/-- What is recorded is in the registers, and what is in them is recorded. -/
structure RegistersAgree (l : Load hw) (s : Kernel) : Prop where
  recorded : ∀ a ∈ s.dev.allocs, ∀ k w, Records l a k w →
    wr_valid s.regs k w = true ∧ wr_blade s.regs k w = a.blade
  valid : ∀ k w, l.online.getLsbD k = true → w < MAX_BW_PER_CMG → wr_valid s.regs k w = true →
    ∃ a ∈ s.dev.allocs, Records l a k w ∧ wr_blade s.regs k w = a.blade

/-- Agreement is the mirror, read for the live allocations. -/
theorem registersAgree_iff (hi : Inv l s.dev) :
    RegistersAgree l s ↔ (windows l s.dev).Mirrors (named l s.regs) := by
  constructor
  · rintro hagree p ⟨k, w⟩
    rw [named_eq_some]
    constructor
    · rintro ⟨g, a, ha, rfl, hr⟩
      obtain ⟨hvalid, hblade⟩ := hagree.recorded a (mem_allocs.mpr ⟨g, ha⟩) k w hr
      exact ⟨hr.1, (hi.sane g a ha).window_lt hr, hvalid, hr.2.1, hblade⟩
    · rintro ⟨hk, hw4, hvalid, hc, hblade⟩
      obtain ⟨a, ha, hr, hab⟩ := hagree.valid k w hk hw4 hvalid
      obtain ⟨g, ha⟩ := mem_allocs.mp ha
      exact ⟨g, a, ha, Prod.ext (hr.2.1.symm.trans hc) (hab.symm.trans hblade), hr⟩
  · intro hm
    refine ⟨fun a ha k w hr => ?_, fun k w hk hw4 hvalid => ?_⟩
    · obtain ⟨g, ha⟩ := mem_allocs.mp ha
      have hnamed := (hm a.place (k, w)).mp ⟨g, a, ha, rfl, hr⟩
      obtain ⟨-, -, hvalid, -, hblade⟩ := named_eq_some.mp hnamed
      exact ⟨hvalid, hblade⟩
    · have hnamed : named l s.regs (k, w) = some ((hw.cmg k).val, wr_blade s.regs k w) :=
        named_eq_some.mpr ⟨hk, hw4, hvalid, rfl, rfl⟩
      obtain ⟨g, a, ha, hp, hr⟩ := (hm _ _).mpr hnamed
      exact ⟨a, mem_allocs.mpr ⟨g, ha⟩, hr, (congrArg Prod.snd hp).symm⟩

/-- All window registers are invalid. -/
def AllInvalid (regs : hwb_regs) : Prop := ∀ k w, wr_valid regs k w = false

/-- The step makes neither of the two slips, with the PEs of the table online. -/
def KeepsRegisters (l : Load hw) (s : Kernel) (e : Event hw) : Prop :=
  e.TableOnline l ∧ ¬Reassigns e s ∧ ¬Misdirects e s

theorem registersAgree_of_run
    (h : (driver l AllInvalid).ReachableVia (KeepsRegisters l) s) : RegistersAgree l s := by
  rw [registersAgree_iff (reachable_inv h.reachable).1]
  refine run_invariant (P := fun s => (windows l s.dev).Mirrors (named l s.regs)) ?_ ?_ h
  · intro regs s hR hload
    obtain ⟨hdev, -, hwr, -, -⟩ := hload.spec
    have hempty : (windows l s.dev).Empty := by
      rw [hdev]
      exact loaded_windows hload.packed
    refine hempty.mirrors fun r => named_of_invalid ?_
    unfold wr_valid
    rw [hwr]
    exact hR r.1 r.2
  · intro s e hkeeps t t' hi hm hstep
    exact hstep.mirrors hi hkeeps.1 hkeeps.2.1 hkeeps.2.2 hm

/-- After a reassignment the register of the overwritten window still names the
blade. -/
theorem not_registersAgree_of_reassigns (hi : Inv l s.dev) (hlock : s.locks = Locks.free)
    (hrange : e.CmgInRange) {reply : Reply} (hok : handle e s = .ok (reply, s'))
    (hagree : RegistersAgree l s) (hon : e.TableOnline l) (hre : Reassigns e s) :
    ¬RegistersAgree l s' := by
  have hi' := (handle_inv hi hlock hrange hok).1
  rw [registersAgree_iff hi] at hagree
  rw [registersAgree_iff hi']
  obtain ⟨m, hm, a, ha, w, hw4, w₀, hr₀, hbit, rfl⟩ := reassigns_taken hi hlock hok hre
  have hheld : Held s.dev m.group a := ⟨m, hm, rfl, ha⟩
  have hrep := (windows_take hi hheld hr₀.1 hr₀.2.1 hw4 hbit).2 w₀ hr₀
  have hwr := set_wr_assign_sync_wr (hon _ hr₀.1) hw4 (hi.sane _ a hheld).blade_lt 1 s
  -- the only register that is written is the one of the new window
  refine hrep.not_mirrors hi.windows_sound hagree fun r hne => named_congr ?_
  rw [show (taken e.call m e.call.cpu w a s).regs = (set_wr e.call e.call.cpu w 1 a.blade s).regs
    from rfl, hwr]
  exact update_wr_of_ne hne

/-- After a misdirected BB_FREE the register of the recorded window still names
the blade, and the CPU is not assigned any more. -/
theorem not_registersAgree_of_misdirects (hi : Inv l s.dev) (hlock : s.locks = Locks.free)
    (hrange : e.CmgInRange) {reply : Reply} (hok : handle e s = .ok (reply, s'))
    (hagree : RegistersAgree l s) (hmis : Misdirects e s) : ¬RegistersAgree l s' := by
  have hi' := (handle_inv hi hlock hrange hok).1
  obtain ⟨m, cmg, a, hfrees, hpid, hassign, hwin⟩ := hmis
  obtain ⟨hm, -, ha, -⟩ := freesBlade_mem hi hfrees
  have hout := freesBlade_other hi hlock hfrees hpid hok
  have hheld : Held s.dev m.group a := ⟨m, hm, rfl, ha⟩
  obtain ⟨w, hw4, hr⟩ := (hi.sane _ a hheld).recorded hassign
  have hw0 : w ≠ 0 := by
    rintro rfl
    exact hwin hr.2.2
  rw [registersAgree_iff hi] at hagree
  rw [registersAgree_iff hi']
  intro hagree'
  -- the register of window `w` is as it was, so something at the place must record it
  have hnamed : named l s'.regs (e.call.cpu, w) = some a.place := by
    rw [← (hagree a.place (e.call.cpu, w)).mp ⟨m.group, a, hheld, rfl, hr⟩]
    apply named_congr
    rw [hout.cleared hassign]
    exact update_wr_of_ne fun h' => hw0 (congrArg Prod.snd h')
  obtain ⟨g, x, hx, hxp, hxr⟩ := (hagree' a.place (e.call.cpu, w)).mpr hnamed
  have hclear := hout.unassigned g x hx hxp
  rw [(hi'.sane g x hx).assigned hxr] at hclear
  exact Bool.noConfusion hclear

end A64fxHwb
