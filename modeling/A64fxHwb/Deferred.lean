/-
The resets that come late.

RESET has every CPU run `asm_reset_func` and waits for none but its own, so the
registers of another CPU may be cleared after the call has returned, between later
calls. Here the CPUs that are left behind are part of the state, and each of them
runs `asm_reset_func` in a step of its own, as late as it likes.

A run whose calls wait for those CPUs comes to a run of the driver, in whatever order
they run it, since each writes its own registers only. Without waiting, the bookkeeping is
emptied at once and knows nothing of them: the window registers agree with it as long as
the CPUs left behind have no window to clear, neither when the reset returns nor when their
turn comes.
-/
import A64fxHwb.Registers

set_option autoImplicit false

namespace A64fxHwb

open BitWord Runs

variable {hw : Machine} {l : Load hw} {R : hwb_regs → Prop}
variable {e : Event hw} {late : cpumask_t} {s s' : Kernel}

/-! ## The driver with the resets that are still to run -/

/-- The entry point of an event. A RESET does not wait for the CPUs `late`. -/
def handle_late (e : Event hw) (late : cpumask_t) (s : Kernel) : Except Fault (Reply × Kernel) :=
  match e.request with
  | .open => oss_a64fx_hwb_open s
  | .close => oss_a64fx_hwb_close e.call s
  | .ioctl ioc => oss_a64fx_hwb_ioctl e.call late ioc s

/-- The CPUs that have `asm_reset_func` still to run when the event returns. -/
def Event.left_behind (e : Event hw) (late : cpumask_t) : List ℕ :=
  match e.request with
  | .ioctl .RESET => for_each_cpu (e.call.online &&& late)
  | _ => []

/-- The driver's state, and a CPU for each `asm_reset_func` that is still to run. -/
structure Deferred where
  kernel : Kernel
  pending : List ℕ

/-- A call into the driver, or a CPU that comes to run `asm_reset_func`. -/
inductive DeferredEvent (hw : Machine)
  | call (e : Event hw) (late : cpumask_t)
  | run (cpu : ℕ)

/-- The driver with the resets that come late. The CPU a RESET is called on is never one
of them. -/
def deferred (l : Load hw) (R : hwb_regs → Prop) :
    TransitionSystem Deferred (DeferredEvent hw) where
  init x := (driver l R).init x.kernel ∧ x.pending = []
  step x t y :=
    match t with
    | .call e late => e.CmgInRange ∧ late.getLsbD e.call.cpu = false ∧
        (∃ reply, handle_late e late x.kernel = .ok (reply, y.kernel)) ∧
        y.pending = x.pending ++ e.left_behind late
    | .run cpu => cpu ∈ x.pending ∧
        y.kernel = { x.kernel with regs := asm_reset_func hw cpu x.kernel.regs } ∧
        y.pending = x.pending.erase cpu

variable {x y : Deferred} {t : DeferredEvent hw}

/-! ## What a call does -/

/-- Only a RESET leaves anybody behind. -/
theorem handle_late_of_ne (hne : e.request ≠ .ioctl .RESET) (late : cpumask_t) (s : Kernel) :
    handle_late e late s = handle e s ∧ e.left_behind late = [] := by
  unfold handle_late handle Event.left_behind
  cases he : e.request with
  | «open» => exact ⟨rfl, rfl⟩
  | close => exact ⟨rfl, rfl⟩
  | ioctl ioc =>
      cases ioc with
      | RESET => exact absurd he hne
      | _ => exact ⟨rfl, rfl⟩

theorem left_behind_zero (e : Event hw) : e.left_behind 0 = [] := by
  unfold Event.left_behind
  split
  · refine List.eq_nil_iff_forall_not_mem.mpr fun k hk => ?_
    rw [mem_bits, BitVec.getLsbD_and] at hk
    simp at hk
  · rfl

/-- What a RESET leaves when it returns. -/
def reset_late (e : Event hw) (late : cpumask_t) (s : Kernel) : Kernel :=
  { on_each_cpu e.call (asm_reset_func hw) late s with dev := s.dev.reset }

theorem handle_late_reset (hlock : s.locks = Locks.free) (he : e.request = .ioctl .RESET) :
    handle_late e late s = .ok ({ err := -ENOTTY }, reset_late e late s) := by
  unfold handle_late oss_a64fx_hwb_ioctl
  simp only [he, reset_eq hlock, Loops.ok_bind]
  rfl

/-- **A call, by whether it is a RESET.** -/
theorem deferred_call (hlock : x.kernel.locks = Locks.free)
    (h : (deferred l R).step x (.call e late) y) :
    (e.request ≠ .ioctl .RESET ∧ (∃ reply, handle e x.kernel = .ok (reply, y.kernel)) ∧
        y.pending = x.pending) ∨
      (e.request = .ioctl .RESET ∧ y.kernel = reset_late e late x.kernel ∧
        y.pending = x.pending ++ e.left_behind late) := by
  obtain ⟨-, -, ⟨reply, hok⟩, hpending⟩ := h
  by_cases he : e.request = .ioctl .RESET
  · refine Or.inr ⟨he, ?_, hpending⟩
    rw [handle_late_reset hlock he] at hok
    exact (congrArg Prod.snd (Except.ok.inj hok)).symm
  · obtain ⟨hsame, hnobody⟩ := handle_late_of_ne he late x.kernel
    refine Or.inl ⟨he, ⟨reply, hsame ▸ hok⟩, ?_⟩
    rw [hpending, hnobody, List.append_nil]

/-- **Every state satisfies the base invariant**, whatever is still to run. -/
theorem deferred_inv (h : (deferred l R).Reachable x) :
    Inv l x.kernel.dev ∧ x.kernel.locks = Locks.free := by
  refine h.invariant
    (P := fun x => Inv l x.kernel.dev ∧ x.kernel.locks = Locks.free) ?_ ?_
  · rintro x ⟨hinit, -⟩
    exact reachable_inv (R := R) (.init hinit)
  · rintro x t y - ⟨hi, hlock⟩ - hstep
    cases t with
    | call e late =>
        rcases deferred_call hlock hstep with ⟨-, ⟨reply, hok⟩, -⟩ | ⟨he, hy, -⟩
        · exact handle_inv hi hlock hstep.1 hok
        · -- the bookkeeping is that of a reset nobody is late for
          have h0 : handle e x.kernel = .ok ({ err := -ENOTTY }, reset_late e 0 x.kernel) :=
            handle_late_reset hlock he
          obtain ⟨hi', hlock'⟩ := handle_inv hi hlock hstep.1 h0
          rw [hy]
          exact ⟨hi', hlock'⟩
    | run cpu =>
        obtain ⟨-, hy, -⟩ := hstep
        rw [hy]
        exact ⟨hi, hlock⟩

/-! ## Runs that wait -/

/-- Two CPUs that run `asm_reset_func` do not meet. -/
theorem asm_reset_func_comm (k k' : ℕ) (regs : hwb_regs) :
    asm_reset_func hw k (asm_reset_func hw k' regs) =
      asm_reset_func hw k' (asm_reset_func hw k regs) := by
  by_cases hk : k = k'
  · rw [hk]
  · have hk' : k' ≠ k := Ne.symm hk
    simp only [asm_reset_func_eq, write_hwb_ctrl, Function.update_of_ne hk,
      Function.update_of_ne hk', Function.update_comm hk]

/-- The state when the CPUs `ks` have run `asm_reset_func`. -/
def Kernel.reset_on (hw : Machine) (ks : List ℕ) (s : Kernel) : Kernel :=
  { s with regs := ks.foldl (fun regs cpu => asm_reset_func hw cpu regs) s.regs }

theorem Kernel.reset_on_perm {ks ks' : List ℕ} (h : ks.Perm ks') (s : Kernel) :
    s.reset_on hw ks = s.reset_on hw ks' := by
  unfold Kernel.reset_on
  rw [h.foldl_eq' fun k _ k' _ regs => asm_reset_func_comm k' k regs]

/-- A RESET is over when the CPUs that were left behind have run it. -/
theorem reset_late_reset_on (he : e.request = .ioctl .RESET) (late : cpumask_t) (s : Kernel) :
    (reset_late e late s).reset_on hw (e.left_behind late) = reset_late e 0 s := by
  have hbehind : e.left_behind late = for_each_cpu (e.call.online &&& late) := by
    unfold Event.left_behind
    rw [he]
  have hsplit : (for_each_cpu (e.call.online &&& ~~~late) ++
      for_each_cpu (e.call.online &&& late)).Perm (for_each_cpu (e.call.online &&& ~~~0)) := by
    have hdisjoint : (for_each_cpu (e.call.online &&& ~~~late)).Disjoint
        (for_each_cpu (e.call.online &&& late)) := by
      intro k hk hk'
      rw [mem_bits, BitVec.getLsbD_and, (mem_for_each_cpu_on_time.mp hk).2, Bool.and_false] at hk'
      cases hk'
    refine (List.perm_ext_iff_of_nodup (((nodup_bits _).append (nodup_bits _)) hdisjoint)
      (nodup_bits _)).mpr fun k => ?_
    rw [List.mem_append, mem_for_each_cpu_on_time, mem_for_each_cpu_on_time, mem_bits,
      BitVec.getLsbD_and, Bool.and_eq_true, ← and_or_left]
    refine and_congr_right fun _ => ⟨fun _ => BitVec.getLsbD_zero, fun _ => ?_⟩
    exact (Bool.eq_false_or_eq_true _).symm
  have hperm : s.reset_on hw _ = s.reset_on hw _ := Kernel.reset_on_perm hsplit s
  unfold Kernel.reset_on at hperm
  rw [List.foldl_append] at hperm
  unfold Kernel.reset_on reset_late on_each_cpu
  rw [hbehind]
  exact congrArg (fun s' : Kernel => { s' with dev := s.dev.reset }) hperm

/-- A call is made only when every `asm_reset_func` has run, and meets `C` then. -/
def DeferredEvent.Waits (C : Kernel → Event hw → Prop) (x : Deferred) : DeferredEvent hw → Prop
  | .call e _ => x.pending = [] ∧ C x.kernel e
  | .run _ => True

/-- **A run that waits comes to one of the driver** when everybody has run it, -/
theorem driver_of_waits {C : Kernel → Event hw → Prop}
    (h : (deferred l R).ReachableVia (fun x t => t.Waits C x) x) :
    (driver l R).ReachableVia C (x.kernel.reset_on hw x.pending) := by
  refine h.invariant (P := fun x => (driver l R).ReachableVia C (x.kernel.reset_on hw x.pending))
    ?_ ?_
  · rintro x ⟨hinit, hnobody⟩
    rw [hnobody]
    exact .init hinit
  · rintro x t y - hrun ht hstep
    cases t with
    | call e late =>
        obtain ⟨hnobody, hC⟩ := ht
        have hrun' : (driver l R).ReachableVia C x.kernel := by
          rw [hnobody] at hrun
          exact hrun
        have hlock := (reachable_inv hrun'.reachable).2
        rcases deferred_call hlock hstep with ⟨-, hok, hsame⟩ | ⟨he, hy, hpending⟩
        · rw [hsame, hnobody]
          exact .step hrun' hC ⟨hstep.1, hok⟩
        · rw [hy, hpending, hnobody, List.nil_append, reset_late_reset_on he]
          exact .step hrun' hC ⟨hstep.1, _, handle_late_reset hlock he⟩
    | run cpu =>
        obtain ⟨hcpu, hy, hpending⟩ := hstep
        rw [hy, hpending]
        rw [Kernel.reset_on_perm (List.perm_cons_erase hcpu)] at hrun
        exact hrun

/-- and the driver's runs are runs in which nobody is late. -/
theorem deferred_of_driver {C : Kernel → Event hw → Prop} (h : (driver l R).ReachableVia C s) :
    (deferred l R).ReachableVia
      (fun x t => x.pending = [] ∧ ∃ e, t = .call e 0 ∧ C x.kernel e) ⟨s, []⟩ := by
  induction h with
  | init hinit => exact .init ⟨hinit, rfl⟩
  | @step s s' e _ hC hstep ih =>
      refine .step ih ⟨rfl, e, rfl, hC⟩ ⟨hstep.1, BitVec.getLsbD_zero, hstep.2, ?_⟩
      rw [left_behind_zero]
      rfl

theorem waits_of_driver {C : Kernel → Event hw → Prop} (h : (driver l R).ReachableVia C s) :
    (deferred l R).ReachableVia (fun x t => t.Waits C x) ⟨s, []⟩ := by
  refine (deferred_of_driver h).mono ?_
  rintro x t ⟨hnobody, e, rfl, hC⟩
  exact ⟨hnobody, hC⟩

/-! ## The window registers -/

/-- A register is invalid if it is not one of the table, or cleared, or was invalid. -/
theorem named_none_of_cleared (regs : hwb_regs) {regs' : hwb_regs} {r : ℕ × ℕ}
    (h : l.online.getLsbD r.1 = true → r.2 < MAX_BW_PER_CMG →
      regs'.assign_sync_wr r.1 r.2 = 0 ∨
        (regs'.assign_sync_wr r.1 r.2 = regs.assign_sync_wr r.1 r.2 ∧
          wr_valid regs r.1 r.2 = false)) : named l regs' r = none := by
  by_cases hr : l.online.getLsbD r.1 = true ∧ r.2 < MAX_BW_PER_CMG
  · apply named_of_invalid
    unfold wr_valid
    rcases h hr.1 hr.2 with hzero | ⟨hsame, hinvalid⟩
    · rw [hzero]
      exact BitVec.getLsbD_zero
    · rw [hsame]
      exact hinvalid
  · unfold named
    rw [if_neg fun h' => hr ⟨h'.1, h'.2.1⟩]

theorem mem_left_behind (he : e.request = .ioctl .RESET) {k : ℕ} :
    k ∈ e.left_behind late ↔ e.call.online.getLsbD k = true ∧ late.getLsbD k = true := by
  unfold Event.left_behind
  simp only [he]
  rw [mem_bits, BitVec.getLsbD_and, Bool.and_eq_true]

/-- The register of a PE of the table after a RESET: cleared, unless the PE is late. -/
theorem reset_late_wr (he : e.request = .ioctl .RESET) (late : cpumask_t) (s : Kernel) {k w : ℕ}
    (hon : e.call.online.getLsbD k = true) (hw4 : w < MAX_BW_PER_CMG) :
    (reset_late e late s).regs.assign_sync_wr k w =
      if k ∈ e.left_behind late then s.regs.assign_sync_wr k w else 0 := by
  have hwr := reset_assign_sync_wr (c := e.call) late s k w
  rw [show (reset_late e late s).regs = (on_each_cpu e.call (asm_reset_func hw) late s).regs
    from rfl, hwr]
  by_cases hlate : late.getLsbD k = true
  · rw [if_pos ((mem_left_behind he).mpr ⟨hon, hlate⟩), if_neg]
    rintro ⟨⟨-, hontime⟩, -⟩
    rw [hlate] at hontime
    cases hontime
  · rw [if_neg fun hk => hlate ((mem_left_behind he).mp hk).2,
      if_pos ⟨⟨hon, Bool.eq_false_iff.mpr hlate⟩, hw4⟩]

/-- What agreement needs of an event: it makes neither of the two slips, a RESET leaves no
PE behind that has a valid window register, and no PE runs `asm_reset_func` while a
window of it is recorded. -/
def DeferredEvent.KeepsRegisters (l : Load hw) (x : Deferred) : DeferredEvent hw → Prop
  | .call e late => A64fxHwb.KeepsRegisters l x.kernel e ∧
      ∀ k ∈ e.left_behind late, l.online.getLsbD k = true → ∀ w < MAX_BW_PER_CMG,
        wr_valid x.kernel.regs k w = false
  | .run cpu => ∀ a ∈ x.kernel.dev.allocs, ∀ w, ¬Records l a cpu w

/-- A RESET makes neither of the slips. -/
theorem keepsRegisters_of_reset (he : e.request = .ioctl .RESET) (hon : e.TableOnline l)
    (s : Kernel) : A64fxHwb.KeepsRegisters l s e := by
  refine ⟨hon, ?_, ?_⟩
  · rintro ⟨arg, ioc, m, a, hassign, -⟩
    rw [he] at hassign
    cases hassign
  · rintro ⟨m, cmg, a, ⟨arg, ioc, hfree, -⟩, -⟩
    rw [he] at hfree
    cases hfree

/-- When nobody is late it is what the driver's runs ask for. -/
theorem keeps_of_driver (h : (driver l R).ReachableVia (A64fxHwb.KeepsRegisters l) s) :
    (deferred l R).ReachableVia (fun x t => t.KeepsRegisters l x) ⟨s, []⟩ := by
  refine (deferred_of_driver h).mono ?_
  rintro x t ⟨-, e, rfl, hC⟩
  refine ⟨hC, fun k hk => ?_⟩
  rw [left_behind_zero] at hk
  cases hk

/-- **An event that keeps the registers keeps them a mirror.** -/
theorem DeferredEvent.mirrors (hi : Inv l x.kernel.dev) (hlock : x.kernel.locks = Locks.free)
    (hstep : (deferred l R).step x t y) (ht : t.KeepsRegisters l x)
    (hm : (windows l x.kernel.dev).Mirrors (named l x.kernel.regs)) :
    (windows l y.kernel.dev).Mirrors (named l y.kernel.regs) := by
  cases t with
  | call e late =>
      obtain ⟨⟨hon, hre, hmis⟩, hlate⟩ := ht
      rcases deferred_call hlock hstep with ⟨-, ⟨reply, hok⟩, -⟩ | ⟨he, hy, -⟩
      · refine preserves_of_handle
          (P := fun s => (windows l s.dev).Mirrors (named l s.regs)) hi hlock hstep.1 hok ?_ hm
        intro s s' hi hm hmicro
        exact hmicro.mirrors hi hon hre hmis hm
      · rw [hy]
        refine (windows_reset l _).mirrors fun r => ?_
        refine named_none_of_cleared x.kernel.regs fun hr hw4 => ?_
        rw [reset_late_wr he late x.kernel (hon _ hr) hw4]
        by_cases hk : r.1 ∈ e.left_behind late
        · rw [if_pos hk]
          exact Or.inr ⟨rfl, hlate _ hk hr _ hw4⟩
        · rw [if_neg hk]
          exact Or.inl rfl
  | run cpu =>
      obtain ⟨-, hy, -⟩ := hstep
      rw [hy]
      intro p r
      show (windows l x.kernel.dev).records p r ↔
        named l (asm_reset_func hw cpu x.kernel.regs) r = some p
      rw [hm p r]
      by_cases hcpu : r.1 = cpu ∧ r.2 < MAX_BW_PER_CMG
      · -- nothing is recorded for the CPU, so its register named nobody
        have hbefore : named l x.kernel.regs r = none := by
          cases hn : named l x.kernel.regs r with
          | none => rfl
          | some q =>
              obtain ⟨g, a, ha, -, hr⟩ := (hm q r).mpr hn
              rw [hcpu.1] at hr
              exact absurd hr (ht a (mem_allocs.mpr ⟨g, ha⟩) _)
        have hafter : named l (asm_reset_func hw cpu x.kernel.regs) r = none := by
          refine named_none_of_cleared x.kernel.regs fun _ _ => Or.inl ?_
          rw [asm_reset_func_assign_sync_wr, if_pos hcpu]
        rw [hbefore, hafter]
      · have hsame : named l (asm_reset_func hw cpu x.kernel.regs) r = named l x.kernel.regs r := by
          apply named_congr
          rw [asm_reset_func_assign_sync_wr, if_neg hcpu]
        rw [hsame]

theorem mirrors_of_init (h : (deferred l AllInvalid).init x) :
    (windows l x.kernel.dev).Mirrors (named l x.kernel.regs) := by
  have hrun : (driver l AllInvalid).ReachableVia (KeepsRegisters l) x.kernel := .init h.1
  exact (registersAgree_iff (reachable_inv hrun.reachable).1).mp (registersAgree_of_run hrun)

theorem registersAgree_of_deferred
    (h : (deferred l AllInvalid).ReachableVia (fun x t => t.KeepsRegisters l x) x) :
    RegistersAgree l x.kernel := by
  rw [registersAgree_iff (deferred_inv h.reachable).1]
  refine h.invariant
    (P := fun x => (windows l x.kernel.dev).Mirrors (named l x.kernel.regs)) ?_ ?_
  · intro x hinit
    exact mirrors_of_init hinit
  · intro x t y hx hm ht hstep
    obtain ⟨hi, hlock⟩ := deferred_inv hx.reachable
    exact DeferredEvent.mirrors hi hlock hstep ht hm

/-- The PEs of the table are online during the event, if it is a call. -/
def DeferredEvent.TableOnline (l : Load hw) : DeferredEvent hw → Prop
  | .call e _ => e.TableOnline l
  | .run _ => True

/-- **Any other event ends the agreement.** -/
theorem not_registersAgree_of_event (hi : Inv l x.kernel.dev)
    (hlock : x.kernel.locks = Locks.free) (hagree : RegistersAgree l x.kernel)
    (hstep : (deferred l R).step x t y) (hon : t.TableOnline l) (ht : ¬t.KeepsRegisters l x) :
    ¬RegistersAgree l y.kernel := by
  cases t with
  | call e late =>
      rcases deferred_call hlock hstep with ⟨hne, ⟨reply, hok⟩, -⟩ | ⟨he, hy, -⟩
      · have hslip : Reassigns e x.kernel ∨ Misdirects e x.kernel := by
          by_contra hno
          refine ht ⟨⟨hon, fun h => hno (Or.inl h), fun h => hno (Or.inr h)⟩, fun k hk => ?_⟩
          rw [(handle_late_of_ne hne late x.kernel).2] at hk
          cases hk
        rcases hslip with hre | hmis
        · exact not_registersAgree_of_reassigns hi hlock hstep.1 hok hagree hon hre
        · exact not_registersAgree_of_misdirects hi hlock hstep.1 hok hagree hmis
      · -- a PE that is left behind has a valid register, and nothing is recorded any more
        have hlate : ∃ k ∈ e.left_behind late, l.online.getLsbD k = true ∧
            ∃ w < MAX_BW_PER_CMG, wr_valid x.kernel.regs k w = true := by
          by_contra hno
          refine ht ⟨keepsRegisters_of_reset he hon _, fun k hk honk w hw4 => ?_⟩
          exact Bool.eq_false_iff.mpr fun hvalid => hno ⟨k, hk, honk, w, hw4, hvalid⟩
        obtain ⟨k, hk, honk, w, hw4, hvalid⟩ := hlate
        intro hagree'
        rw [hy] at hagree'
        have hkept := reset_late_wr he late x.kernel (hon k honk) hw4
        rw [if_pos hk] at hkept
        obtain ⟨a, ha, -⟩ := hagree'.valid k w honk hw4 (by
          unfold wr_valid
          rw [hkept]
          exact hvalid)
        obtain ⟨g, ha⟩ := mem_allocs.mp ha
        exact not_held_reset _ g a ha
  | run cpu =>
      obtain ⟨-, hy, -⟩ := hstep
      intro hagree'
      refine ht fun a ha w hr => ?_
      -- the window is recorded still, and its register cleared
      have hvalid := (hagree'.recorded a (by rw [hy]; exact ha) cpu w hr).1
      obtain ⟨g, hheld⟩ := mem_allocs.mp ha
      have hw4 := (hi.sane g a hheld).window_lt hr
      unfold wr_valid at hvalid
      rw [hy, asm_reset_func_assign_sync_wr, if_pos ⟨rfl, hw4⟩] at hvalid
      cases hvalid

/-- **The registers agree with the bookkeeping** in every run whose events keep them,
and any other event ends the agreement. Where every call waits for the resets before it, they
agree whenever no reset is still to run. -/
theorem registers_agree :
    (∀ x, (deferred l AllInvalid).ReachableVia (fun x t => t.KeepsRegisters l x) x →
        RegistersAgree l x.kernel) ∧
      (∀ x t y, (deferred l AllInvalid).ReachableVia (fun x t => t.KeepsRegisters l x) x →
        (deferred l AllInvalid).step x t y → t.TableOnline l → ¬t.KeepsRegisters l x →
        ¬RegistersAgree l y.kernel) ∧
      ∀ x, (deferred l AllInvalid).ReachableVia (fun x t => t.Waits (KeepsRegisters l) x) x →
        x.pending = [] → RegistersAgree l x.kernel := by
  refine ⟨fun x h => registersAgree_of_deferred h, fun x t y h hstep hon ht => ?_,
    fun x h hnobody => ?_⟩
  · obtain ⟨hi, hlock⟩ := deferred_inv h.reachable
    exact not_registersAgree_of_event hi hlock (registersAgree_of_deferred h) hstep hon ht
  · -- nothing is to run, so the state is one of the driver
    have hrun := driver_of_waits h
    rw [hnobody] at hrun
    exact registersAgree_of_run hrun

/-- CPU 1 has window 0 for blade 0 and window 1 for blade 1. -/
def two_windows : List (Event Quad.machine) :=
  [Quad.open Quad.first 0, Quad.alloc Quad.first 0 0x7, Quad.alloc Quad.first 0 0x7,
    Quad.assign Quad.first 1 0 (-1), Quad.assign Quad.first 1 1 (-1)]

theorem two_windows_keep : (driver Quad.load AllInvalid).ReachableVia (KeepsRegisters Quad.load)
    (after Quad.load two_windows) := by
  refine reachableVia_after ?_ ?_ ?_ ?_
  · intro k w
    exact BitVec.getLsbD_zero
  · decide +kernel
  · decide
  · intro e he s
    have hplain : ∀ e ∈ two_windows, e.plain = true ∧ e.call.online = 0xF := by decide
    obtain ⟨hplain, honline⟩ := hplain e he
    refine ⟨fun k hk => ?_,
      not_makes_of_plain hplain s .reassign (by decide),
      not_makes_of_plain hplain s .misdirected (by decide)⟩
    rw [honline]
    exact hk

/-- What the first thread's RESET on CPU 0 leaves while CPU 1 is late. -/
def reset_behind : Kernel :=
  reset_late (Quad.reset Quad.first 0) 0x2 (after Quad.load two_windows)

/-- The second thread withdraws CPU 1 from blade 1, or the first thread resets the
registers and CPU 1 is late. Once CPU 1 has run the function they agree again. -/
theorem registers_agree_two_windows :
    RegistersAgree Quad.load (after Quad.load two_windows) ∧
    ¬RegistersAgree Quad.load (after Quad.load (two_windows ++ [Quad.free Quad.second 1 1])) ∧
    ¬RegistersAgree Quad.load reset_behind ∧
    RegistersAgree Quad.load
      { reset_behind with regs := asm_reset_func Quad.machine 1 reset_behind.regs } := by
  -- the run keeps the registers, and every call of it waits
  have hkeeps := keeps_of_driver two_windows_keep
  have hwaits := waits_of_driver two_windows_keep
  obtain ⟨-, hlock⟩ := deferred_inv hkeeps.reachable
  have hreset : (deferred Quad.load AllInvalid).step ⟨after Quad.load two_windows, []⟩
      (.call (Quad.reset Quad.first 0) 0x2) ⟨reset_behind, [1]⟩ :=
    ⟨nofun, by decide, ⟨_, handle_late_reset hlock rfl⟩, by decide⟩
  obtain ⟨hkept, hlost, hsettled⟩ := registers_agree (l := Quad.load)
  refine ⟨hkept _ hkeeps, ?_, ?_, ?_⟩
  · have hfree : (deferred Quad.load AllInvalid).step ⟨after Quad.load two_windows, []⟩
        (.call (Quad.free Quad.second 1 1) 0)
        ⟨after Quad.load (two_windows ++ [Quad.free Quad.second 1 1]), []⟩ := by
      have hstep : (driver Quad.load AllInvalid).step (after Quad.load two_windows)
          (Quad.free Quad.second 1 1)
          (after Quad.load (two_windows ++ [Quad.free Quad.second 1 1])) :=
        step_after (by decide +kernel) (by decide)
      obtain ⟨hrange, hok⟩ := hstep
      exact ⟨hrange, by decide, hok, rfl⟩
    refine hlost _ _ _ hkeeps hfree (fun k hk => hk) ?_
    rintro ⟨⟨-, -, hmis⟩, -⟩
    refine hmis ⟨(get_taskmap _ _).get ?_, 0, (get_allocation _ _ _).get ?_,
      ⟨_, _, rfl, rfl, rfl, (Option.some_get _).symm, (Option.some_get _).symm⟩, ?_, ?_, ?_⟩
    all_goals decide +kernel
  · refine hlost _ _ _ hkeeps hreset (fun k hk => hk) ?_
    rintro ⟨-, hlate⟩
    have hinvalid := hlate 1 (by decide) (by decide) 1 (by decide)
    revert hinvalid
    decide +kernel
  · have hwait : DeferredEvent.Waits (KeepsRegisters Quad.load)
        ⟨after Quad.load two_windows, []⟩ (.call (Quad.reset Quad.first 0) 0x2) :=
      ⟨rfl, keepsRegisters_of_reset rfl (fun k hk => hk) _⟩
    have hran : (deferred Quad.load AllInvalid).step ⟨reset_behind, [1]⟩ (.run 1)
        ⟨{ reset_behind with regs := asm_reset_func Quad.machine 1 reset_behind.regs }, []⟩ :=
      ⟨List.mem_singleton_self 1, rfl, rfl⟩
    have hran_free : DeferredEvent.Waits (KeepsRegisters Quad.load) ⟨reset_behind, [1]⟩
        (.run 1) := trivial
    exact hsettled _ (.step (.step hwaits hwait hreset) hran_free hran) rfl

/-- Register 1 of CPU 1 is valid although nothing records window 1, and register
0, which blade 0 still records, is not. -/
theorem stale_window_register :
    (deferred Quad.load AllInvalid).Reachable
      ⟨after Quad.load (two_windows ++ [Quad.free Quad.second 1 1]), []⟩ ∧
    ¬RegistersAgree Quad.load (after Quad.load (two_windows ++ [Quad.free Quad.second 1 1])) := by
  have hrun : (driver Quad.load AllInvalid).Reachable
      (after Quad.load (two_windows ++ [Quad.free Quad.second 1 1])) :=
    reachable_after (fun _ _ => BitVec.getLsbD_zero) (by decide +kernel) (by decide)
  refine ⟨(deferred_of_driver hrun).reachable, ?_⟩
  intro hagree
  obtain ⟨a, ha, hr, -⟩ := hagree.valid 1 1 (by decide) (by decide) (by decide +kernel)
  have hmem : a ∈ (after Quad.load (two_windows ++ [Quad.free Quad.second 1 1])).dev.recorders
      Quad.load 1 1 := List.mem_filter.mpr ⟨ha, decide_eq_true hr⟩
  have hnone : (after Quad.load (two_windows ++ [Quad.free Quad.second 1 1])).dev.recorders
      Quad.load 1 1 = [] := by decide +kernel
  rw [hnone] at hmem
  cases hmem

end A64fxHwb
