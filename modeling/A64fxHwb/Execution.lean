/-
Runs that can be computed.

The handlers are executable, so a run on a given machine is a computation:
`after l es` is the state a load and the events `es` lead to, and
`reachable_after` says that it is reachable when the computation succeeds. The
side condition of a run is asked of its events in any state here, which is all
that the runs of this development need.

`Quad` is a machine of four CPUs on one CMG, all online, with two threads of one
process and one thread of another.
-/
import A64fxHwb.Steps

set_option autoImplicit false

namespace A64fxHwb

open BitWord Runs

variable {hw : Machine} {l : Load hw} {R : hwb_regs → Prop} {s s' : Kernel}
variable {es : List (Event hw)}

/-! ## Computing a run -/

/-- The events `es`, one after the other. -/
def run (es : List (Event hw)) (s : Kernel) : Except Fault Kernel :=
  es.foldlM (fun s e => (handle e s).map Prod.snd) s

/-- All registers zero. -/
def hwb_regs.cleared : hwb_regs where
  hwb_ctrl := fun _ => 0
  init_sync_bb := fun _ _ => 0
  assign_sync_wr := fun _ _ => 0
  bst_sync_wr := fun _ _ => 0

/-- The state a load with cleared registers and the events `es` lead to. -/
def after (l : Load hw) (es : List (Event hw)) : Kernel :=
  match oss_a64fx_hwb_init l (boot hwb_regs.cleared) with
  | .ok (_, s) => (run es s).toOption.getD s
  | .error _ => boot hwb_regs.cleared

/-- The load succeeds, and no event faults. -/
def succeeds (l : Load hw) (es : List (Event hw)) : Bool :=
  match oss_a64fx_hwb_init l (boot hwb_regs.cleared) with
  | .ok (err, s) => decide (err = 0) && (run es s).isOk
  | .error _ => false

/-- `Event.CmgInRange` as a test. -/
def Event.cmg_in_range (e : Event hw) : Bool :=
  match e.request with
  | .ioctl (.BB_FREE arg) =>
    match arg.read with
    | some ioc => decide (ioc.cmg.toNat < MAX_NUM_CMG)
    | none => true
  | _ => true

theorem Event.cmgInRange_of_test {e : Event hw} (h : e.cmg_in_range = true) : e.CmgInRange := by
  intro arg ioc he hread
  unfold Event.cmg_in_range at h
  rw [he] at h
  simp only [hread, decide_eq_true_eq] at h
  exact h

/-- The events that take at most a blade: everything but a close, a BB_FREE, a RESET and a
BW_ASSIGN with an explicit window. -/
def Event.plain (e : Event hw) : Bool :=
  match e.request with
  | .close => false
  | .ioctl .RESET => false
  | .ioctl (.BB_FREE _) => false
  | .ioctl (.BW_ASSIGN arg) =>
    match arg.read with
    | some ioc => decide (ioc.window.toInt < 0)
    | none => true
  | _ => true

theorem not_makes_of_plain {e : Event hw} (h : e.plain = true) (s : Kernel) (kind : Kind)
    (hkind : kind ≠ .map ∧ kind ≠ .take ∧ kind ≠ .count) : ¬Makes e s kind := by
  unfold Event.plain at h
  cases kind with
  | reassign =>
      -- the window of a reassignment is not negative
      rintro ⟨arg, ioc, m, a, he, hread, -, -, -, -, -, -, w, -, hexp, -⟩
      simp only [he, hread, hexp, decide_eq_true_eq] at h
      omega
  | misdirected =>
      rintro ⟨m, cmg, a, ⟨arg, ioc, he, -⟩, -⟩
      simp [he] at h
  | map => exact absurd rfl hkind.1
  | take => exact absurd rfl hkind.2.1
  | count => exact absurd rfl hkind.2.2
  | release =>
      rintro (⟨m, cmg, a, ⟨arg, ioc, he, -⟩, -⟩ | ⟨he, -⟩ | ⟨he, -⟩)
      all_goals simp [he] at h
  | reset =>
      intro he
      simp [show e.request = .ioctl .RESET from he] at h

/-- A run that is computed is one of the transition system. -/
theorem reachableVia_run {C : Kernel → Event hw → Prop} (hs : (driver l R).ReachableVia C s)
    (hrange : ∀ e ∈ es, e.cmg_in_range = true) (hC : ∀ e ∈ es, ∀ s, C s e)
    (h : run es s = .ok s') : (driver l R).ReachableVia C s' := by
  induction es generalizing s with
  | nil =>
      cases h
      exact hs
  | cons e es ih =>
      unfold run at h
      rw [List.foldlM_cons, Loops.bind_eq_ok] at h
      obtain ⟨t, hstep, hrest⟩ := h
      -- a run drops the replies, a step asks for one
      have hreply : ∃ reply, handle e s = .ok (reply, t) := by
        cases hh : handle e s with
        | error f =>
            rw [hh] at hstep
            cases hstep
        | ok x =>
            rw [hh] at hstep
            cases hstep
            exact ⟨x.1, rfl⟩
      have hin := Event.cmgInRange_of_test (hrange e List.mem_cons_self)
      refine ih (.step hs (hC e List.mem_cons_self s) ⟨hin, hreply⟩) ?_ ?_ hrest
      · intro e' he'
        exact hrange e' (List.mem_cons_of_mem _ he')
      · intro e' he'
        exact hC e' (List.mem_cons_of_mem _ he')

/-- One more event at the end of a run. -/
theorem run_snoc {e : Event hw} (h : run (es ++ [e]) s = .ok s') :
    ∃ t reply, run es s = .ok t ∧ handle e t = .ok (reply, s') := by
  unfold run at h ⊢
  rw [List.foldlM_append, Loops.bind_eq_ok] at h
  obtain ⟨t, hrun, h⟩ := h
  rw [List.foldlM_cons, Loops.bind_eq_ok] at h
  obtain ⟨u, hstep, h⟩ := h
  cases h
  cases hh : handle e t with
  | error f =>
      rw [hh] at hstep
      cases hstep
  | ok x =>
      rw [hh] at hstep
      cases hstep
      exact ⟨t, x.1, hrun, hh⟩

theorem after_eq_of_run (hload : Loaded l hwb_regs.cleared s) (h : run es s = .ok s') :
    after l es = s' := by
  unfold after
  rw [show oss_a64fx_hwb_init l (boot hwb_regs.cleared) = .ok (0, s) from hload]
  simp only [h]
  rfl

/-- A computation that succeeds is a load and a run. -/
theorem run_of_succeeds (hok : succeeds l es = true) :
    ∃ s, Loaded l hwb_regs.cleared s ∧ run es s = .ok (after l es) := by
  unfold succeeds at hok
  cases hinit : oss_a64fx_hwb_init l (boot hwb_regs.cleared) with
  | error f =>
      rw [hinit] at hok
      cases hok
  | ok x =>
      obtain ⟨err, s⟩ := x
      simp only [hinit, Bool.and_eq_true, decide_eq_true_eq] at hok
      obtain ⟨rfl, hrun⟩ := hok
      cases hr : run es s with
      | error f =>
          rw [hr] at hrun
          cases hrun
      | ok s' =>
          rw [after_eq_of_run hinit hr]
          exact ⟨s, hinit, hr⟩

/-- **The computed state is reached**, by a run whose steps satisfy `C`. -/
theorem reachableVia_after {C : Kernel → Event hw → Prop} (hR : R hwb_regs.cleared)
    (hok : succeeds l es = true) (hrange : ∀ e ∈ es, e.cmg_in_range = true)
    (hC : ∀ e ∈ es, ∀ s, C s e) : (driver l R).ReachableVia C (after l es) := by
  obtain ⟨s, hload, hrun⟩ := run_of_succeeds hok
  exact reachableVia_run (.init ⟨_, hR, hload⟩) hrange hC hrun

/-- A computed load is an initial state. -/
theorem init_after (hR : R hwb_regs.cleared) (hok : succeeds l [] = true) :
    (driver l R).init (after l []) := by
  obtain ⟨s, hload, hrun⟩ := run_of_succeeds hok
  rw [after_eq_of_run hload rfl]
  exact ⟨_, hR, hload⟩

/-- The state after one more event is a successor. -/
theorem step_after {e : Event hw} (hok : succeeds l (es ++ [e]) = true)
    (hrange : e.cmg_in_range = true) :
    (driver l R).step (after l es) e (after l (es ++ [e])) := by
  obtain ⟨s, hload, hrun⟩ := run_of_succeeds hok
  obtain ⟨t, reply, hr, hh⟩ := run_snoc hrun
  rw [after_eq_of_run hload hr]
  exact ⟨Event.cmgInRange_of_test hrange, reply, hh⟩

theorem reachable_after (hR : R hwb_regs.cleared) (hok : succeeds l es = true)
    (hrange : ∀ e ∈ es, e.cmg_in_range = true) : (driver l R).Reachable (after l es) :=
  reachableVia_after hR hok hrange fun _ _ _ => trivial

/-! ## A machine of four CPUs -/

namespace Quad

/-- Four CPUs on CMG 0. -/
def machine : Machine where
  peinfo k := BitVec.ofNat 64 k
  present := 0xF
  ppe_lt := by
    intro k hk
    have hk64 : k < 64 := BitVec.lt_of_getLsbD hk
    revert hk
    revert k
    decide
  distinct := by
    have h : ∀ k k' : Fin 64, (0xF : cpumask_t).getLsbD k = true →
        (0xF : cpumask_t).getLsbD k' = true →
        peinfo_cmg (BitVec.ofNat 64 k) = peinfo_cmg (BitVec.ofNat 64 k') →
        peinfo_ppe (BitVec.ofNat 64 k) = peinfo_ppe (BitVec.ofNat 64 k') → k.val = k'.val := by
      decide +kernel
    intro k k' hk hk'
    exact h ⟨k, BitVec.lt_of_getLsbD hk⟩ ⟨k', BitVec.lt_of_getLsbD hk'⟩ hk hk'

/-- A load with all four CPUs online. -/
def load : Load machine where
  online := 0xF
  online_present := fun _ h => h
  misc_register := 0
  device_create_file := 0
  kobject_add := fun _ => 0
  sysfs_create_group := fun _ => 0

/-- The first thread of a process, -/
def first : task_struct := ⟨1, 10, 10⟩
/-- its second thread, -/
def second : task_struct := ⟨2, 11, 10⟩
/-- and a thread of another process. -/
def other : task_struct := ⟨3, 20, 20⟩

theorem cpu_online (cpu : ℕ) : (0xF : cpumask_t).getLsbD (cpu % 4) = true := by
  have h : ∀ k : Fin 4, (0xF : cpumask_t).getLsbD k = true := by decide
  exact h ⟨cpu % 4, Nat.mod_lt _ (by decide)⟩

/-- A call by a thread bound to the CPU it runs on, for which no `kmalloc` fails; CPU
numbers are taken modulo four. -/
def call (task : task_struct) (cpu : ℕ) : Call machine where
  task := task
  cpus_mask := BitVec.twoPow 64 (cpu % 4)
  cpu := cpu % 4
  online := 0xF
  any := lowest
  kmalloc_taskmap := true
  kmalloc_alloc := true
  beyond := none
  cpu_online := cpu_online cpu
  online_present := fun _ h => h
  any_mem := fun _ h => getLsbD_lowest h

def «open» (task : task_struct) (cpu : ℕ) : Event machine := ⟨call task cpu, .open⟩

def close (task : task_struct) (cpu : ℕ) : Event machine := ⟨call task cpu, .close⟩

def reset (task : task_struct) (cpu : ℕ) : Event machine := ⟨call task cpu, .ioctl .RESET⟩

def alloc (task : task_struct) (cpu : ℕ) (mask : BitVec 64) : Event machine :=
  ⟨call task cpu, .ioctl (.BB_ALLOC ⟨⟨some ⟨0, 0⟩, true⟩, some mask⟩)⟩

def free (task : task_struct) (cpu : ℕ) (bb : BitVec 8) : Event machine :=
  ⟨call task cpu, .ioctl (.BB_FREE ⟨some ⟨0, bb⟩, true⟩)⟩

def assign (task : task_struct) (cpu : ℕ) (bb window : BitVec 8) : Event machine :=
  ⟨call task cpu, .ioctl (.BW_ASSIGN ⟨some ⟨bb, window⟩, true⟩)⟩

def unassign (task : task_struct) (cpu : ℕ) (bb : BitVec 8) : Event machine :=
  ⟨call task cpu, .ioctl (.BW_UNASSIGN ⟨some ⟨bb, 0⟩, true⟩)⟩

end Quad

/-! ## A machine of two CMGs -/

namespace Late

/-- What the PEs say of themselves. -/
def peinfo (k : ℕ) : BitVec 64 := BitVec.ofNat 64 (k % 2 + 16 * (k / 2))

theorem ppe_lt (k : ℕ) (hk : (0xF : cpumask_t).getLsbD k = true) :
    peinfo_ppe (peinfo k) < MAX_PE_PER_CMG := by
  have h : ∀ k : Fin 64, (0xF : cpumask_t).getLsbD k = true →
      peinfo_ppe (peinfo k) < MAX_PE_PER_CMG := by decide
  exact h ⟨k, BitVec.lt_of_getLsbD hk⟩ hk

theorem distinct (k k' : ℕ) (hk : (0xF : cpumask_t).getLsbD k = true)
    (hk' : (0xF : cpumask_t).getLsbD k' = true)
    (hcmg : peinfo_cmg (peinfo k) = peinfo_cmg (peinfo k'))
    (hppe : peinfo_ppe (peinfo k) = peinfo_ppe (peinfo k')) : k = k' := by
  have h : ∀ k k' : Fin 64, (0xF : cpumask_t).getLsbD k = true →
      (0xF : cpumask_t).getLsbD k' = true → peinfo_cmg (peinfo k) = peinfo_cmg (peinfo k') →
      peinfo_ppe (peinfo k) = peinfo_ppe (peinfo k') → k.val = k'.val := by
    decide +kernel
  exact h ⟨k, BitVec.lt_of_getLsbD hk⟩ ⟨k', BitVec.lt_of_getLsbD hk'⟩ hk hk' hcmg hppe

/-- CPUs 0 and 1 on CMG 0, CPUs 2 and 3 on CMG 1. -/
def machine : Machine where
  peinfo := peinfo
  present := 0xF
  ppe_lt := ppe_lt
  distinct := distinct

theorem online_present (k : ℕ) (hk : (0x3 : cpumask_t).getLsbD k = true) :
    (0xF : cpumask_t).getLsbD k = true := by
  have h : ∀ k : Fin 64, (0x3 : cpumask_t).getLsbD k = true →
      (0xF : cpumask_t).getLsbD k = true := by decide
  exact h ⟨k, BitVec.lt_of_getLsbD hk⟩ hk

/-- A load with the CPUs of CMG 1 offline. -/
def load : Load machine where
  online := 0x3
  online_present := online_present
  misc_register := 0
  device_create_file := 0
  kobject_add := fun _ => 0
  sysfs_create_group := fun _ => 0

/-- A load with all four CPUs online. -/
def load_all : Load machine where
  online := 0xF
  online_present := fun _ h => h
  misc_register := 0
  device_create_file := 0
  kobject_add := fun _ => 0
  sysfs_create_group := fun _ => 0

/-- A call by a thread bound to the CPU it runs on, as on `Quad.machine`. -/
def call (task : task_struct) (cpu : ℕ) : Call machine where
  task := task
  cpus_mask := BitVec.twoPow 64 (cpu % 4)
  cpu := cpu % 4
  online := 0xF
  any := lowest
  kmalloc_taskmap := true
  kmalloc_alloc := true
  beyond := none
  cpu_online := Quad.cpu_online cpu
  online_present := fun _ h => h
  any_mem := fun _ h => getLsbD_lowest h

def alloc (task : task_struct) (cpu : ℕ) (mask : BitVec 64) : Event machine :=
  ⟨call task cpu, .ioctl (.BB_ALLOC ⟨⟨some ⟨0, 0⟩, true⟩, some mask⟩)⟩

def assign (task : task_struct) (cpu : ℕ) : Event machine :=
  ⟨call task cpu, .ioctl (.BW_ASSIGN ⟨some ⟨0, -1⟩, true⟩)⟩

end Late

end A64fxHwb
