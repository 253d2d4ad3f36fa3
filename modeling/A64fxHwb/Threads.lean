/-
The threads the driver has stored, and those that are gone.

A mapping points to the thread that created it, and so does each of its
allocations, but the driver takes no reference on the thread. A thread may exit
while the other threads of its process keep the device open: no code of the driver
runs then, and what is stored goes on pointing to it. The last thread of a process
closes the files before it is gone, and that is a close like any other.
-/
import A64fxHwb.Execution

set_option autoImplicit false

namespace A64fxHwb

open Runs

variable {hw : Machine} {l : Load hw} {R : hwb_regs → Prop} {s s' : Kernel}

/-! ## Threads that exit -/

/-- A thread calls the driver, or it exits. -/
inductive ThreadEvent (hw : Machine)
  | call (e : Event hw)
  | exit (t : task_struct)

/-- The driver with a record of the threads that have exited. They make no more
calls, and an exit changes nothing in the driver. -/
def threads (l : Load hw) (R : hwb_regs → Prop) :
    TransitionSystem (Kernel × List task_struct) (ThreadEvent hw) where
  init x := (driver l R).init x.1 ∧ x.2 = []
  step x e y :=
    match e with
    | .call e => e.call.task ∉ x.2 ∧ (driver l R).step x.1 e y.1 ∧ y.2 = x.2
    | .exit t => y.1 = x.1 ∧ y.2 = t :: x.2

/-- The thread is the one in the mapping of its group. -/
def StillMapped (t : task_struct) (s : Kernel) : Prop :=
  ∃ m, get_taskmap s.dev t = some m ∧ m.task = t

/-- The event is not the exit of a thread that is still mapped. -/
def Unmapped (x : Kernel × List task_struct) (e : ThreadEvent hw) : Prop :=
  ∀ t, e = .exit t → ¬StillMapped t x.1

/-- What is stored belongs to threads that have not exited. -/
structure TasksAlive (x : Kernel × List task_struct) : Prop where
  taskmap : ∀ m ∈ x.1.dev.task_list, m.task ∉ x.2
  alloc : ∀ m ∈ x.1.dev.task_list, ∀ a ∈ m.allocs, a.task ∉ x.2

/-! ## Runs -/

/-- A run with exits is one of the driver when the exits are left out. -/
theorem reachable_of_threads {C : Kernel × List task_struct → ThreadEvent hw → Prop}
    {x : Kernel × List task_struct} (h : (threads l R).ReachableVia C x) :
    (driver l R).Reachable x.1 := by
  refine h.invariant (P := fun x => (driver l R).Reachable x.1) ?_ ?_
  · rintro x ⟨hinit, -⟩
    exact .init hinit
  · rintro x e y - hx - hstep
    cases e with
    | call e => exact .step hx trivial hstep.2.1
    | exit t =>
        show (driver l R).Reachable y.1
        rw [hstep.1]
        exact hx

/-- The threads in the mappings have not exited. -/
theorem tasks_not_exited {x : Kernel × List task_struct}
    (h : (threads l R).ReachableVia Unmapped x) : ∀ t ∈ x.1.dev.tasks, t ∉ x.2 := by
  refine h.invariant (P := fun x => ∀ t ∈ x.1.dev.tasks, t ∉ x.2) ?_ ?_
  · rintro x ⟨⟨regs, -, hload⟩, -⟩ t ht
    rw [hload.tasks] at ht
    cases ht
  · rintro x e y hreach hx hun hstep t ht
    have hdriver := reachable_of_threads hreach
    cases e with
    | call e =>
        obtain ⟨hcaller, hstep, hexited⟩ := hstep
        rw [hexited]
        rcases tasks_of_step hdriver hstep ht with ⟨rfl, -⟩ | ht
        · -- the caller is a new thread in a mapping, and still runs
          exact hcaller
        · exact hx t ht
    | exit t' =>
        obtain ⟨hsame, hexited⟩ := hstep
        rw [hsame] at ht
        rw [hexited]
        intro hmem
        rcases List.mem_cons.mp hmem with rfl | hmem
        · -- its mapping would be the one of its group
          obtain ⟨m, hm, hmt⟩ := mem_tasks.mp ht
          have hlists := (reachable_inv hdriver).1.lists
          exact hun t rfl ⟨m, hlists.get_taskmap hm (congrArg task_struct.tgid hmt), hmt⟩
        · exact hx t ht hmem

/-- The allocations of a mapping point to its thread. -/
theorem tasksAlive_of_run {x : Kernel × List task_struct}
    (h : (threads l R).ReachableVia Unmapped x) : TasksAlive x := by
  have hexited := tasks_not_exited h
  have hlists := (reachable_inv (reachable_of_threads h)).1.lists
  refine ⟨fun m hm => hexited m.task (mem_tasks.mpr ⟨m, hm, rfl⟩), fun m hm a ha => ?_⟩
  rw [(hlists.mapping m hm).task a ha]
  exact hexited m.task (mem_tasks.mpr ⟨m, hm, rfl⟩)

/-- **The driver consults live threads only**, in the runs in which no thread exits
that is still mapped. Such an exit leaves its thread stored. -/
theorem tasks_alive :
    (∀ x, (threads l R).ReachableVia Unmapped x → TasksAlive x) ∧
      ∀ x t y, (threads l R).Reachable x → (threads l R).step x (.exit t) y →
        StillMapped t x.1 → ¬TasksAlive y := by
  refine ⟨fun x h => tasksAlive_of_run h, ?_⟩
  rintro x t y - ⟨hsame, hexited⟩ ⟨m, hget, hmt⟩ halive
  have hm : m ∈ y.1.dev.task_list := by
    rw [hsame]
    exact (mem_of_get_taskmap hget).1
  apply halive.taskmap m hm
  rw [hmt, hexited]
  exact List.mem_cons_self

/-! ## A thread that exits early -/

theorem threads_after {C : Kernel × List task_struct → ThreadEvent hw → Prop}
    {es : List (Event hw)} {e : Event hw} {exited : List task_struct}
    (h : (threads l R).ReachableVia C (after l es, exited)) (hC : C (after l es, exited) (.call e))
    (hcaller : e.call.task ∉ exited) (hok : succeeds l (es ++ [e]) = true)
    (hrange : e.cmg_in_range = true) :
    (threads l R).ReachableVia C (after l (es ++ [e]), exited) :=
  .step h hC ⟨hcaller, step_after hok hrange, rfl⟩

/-- The first thread opens the device, and the second one takes a blade. -/
def taken_by_second : List (Event Quad.machine) :=
  [Quad.open Quad.first 0, Quad.alloc Quad.second 1 0x3]

theorem taken_by_second_unmapped : (threads Quad.load fun _ => True).ReachableVia Unmapped
    (after Quad.load taken_by_second, []) := by
  have h0 : (threads Quad.load fun _ => True).ReachableVia Unmapped (after Quad.load [], []) :=
    .init ⟨init_after trivial (by decide +kernel), rfl⟩
  have h1 := threads_after (e := Quad.open Quad.first 0) h0 nofun (by decide) (by decide +kernel)
    (by decide)
  have h2 := threads_after (e := Quad.alloc Quad.second 1 0x3) h1 nofun (by decide)
    (by decide +kernel) (by decide)
  exact h2

theorem second_still_mapped : StillMapped Quad.second (after Quad.load taken_by_second) := by
  refine ⟨(get_taskmap _ _).get ?_, (Option.some_get _).symm, ?_⟩
  all_goals decide +kernel

/-- The first thread may exit, the second one may not. -/
theorem tasks_alive_two_threads : TasksAlive (after Quad.load taken_by_second, [Quad.first]) ∧
    ¬TasksAlive (after Quad.load taken_by_second, [Quad.second]) := by
  obtain ⟨hkept, hlost⟩ := tasks_alive (l := Quad.load) (R := fun _ => True)
  refine ⟨hkept _ (.step taken_by_second_unmapped ?_ (e := .exit Quad.first) ⟨rfl, rfl⟩),
    hlost _ Quad.second _ (taken_by_second_unmapped.reachable) ⟨rfl, rfl⟩ second_still_mapped⟩
  rintro t ht ⟨m, hm, hmt⟩
  cases ht
  -- the mapping of the group is the second thread's
  obtain ⟨m', hm', hmt'⟩ := second_still_mapped
  have hsame : some m = some m' := hm.symm.trans hm'
  rw [Option.some.inj hsame, hmt'] at hmt
  revert hmt
  decide

/-- The second thread exits while the first one keeps the device open. -/
theorem stored_thread_gone :
    (threads Quad.load fun _ => True).Reachable
      (after Quad.load taken_by_second, [Quad.second]) ∧
    ¬TasksAlive (after Quad.load taken_by_second, [Quad.second]) := by
  refine ⟨.step taken_by_second_unmapped.reachable trivial (e := .exit Quad.second) ⟨rfl, rfl⟩, ?_⟩
  intro halive
  obtain ⟨m, hget, hmt⟩ := second_still_mapped
  apply halive.taskmap m (mem_of_get_taskmap hget).1
  rw [hmt]
  exact List.mem_cons_self

end A64fxHwb
